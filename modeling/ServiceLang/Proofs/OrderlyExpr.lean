import ServiceLang.Grammar.Expr
import ServiceLang.Proofs.Orderly

set_option autoImplicit false

/-! The rules for type names and expressions are orderly, and none of them gives a
value without passing over a token. -/

namespace ServiceLang.Grammar

open Step

variable {legal : Cursor → Prop} [permissive : Permissive legal]

/-! ### Type names -/

theorem nameReference_eager : Eager legal nameReference :=
  .bind .expectIdentifier fun _ => .bind (.check _) fun _ => .bind (.kindNth 1) fun _ =>
    .ite (.bind (.symbol _) fun _ => .bind .expectIdentifier fun _ => .pure _) (.pure _)

theorem bracedString_eager : Eager legal bracedString :=
  .bind (.symbol _) fun _ => .bind (.expect rfl) fun _ => .bind (.symbol _) fun _ => .pure _

theorem xmlConstraintBehind_orderly (start : Token) :
    Orderly legal (xmlConstraintBehind start) :=
  .bind (.ifAt bracedString_eager.orderly) fun _ => .bind .expectIdentifier fun _ =>
    .bind (.symbol _) fun _ => .pure _

theorem xmlConstraint_orderly : Orderly legal xmlConstraint := by
  refine .bind (.eat? rfl) fun start => ?_
  cases start with
  | none => exact .pure _
  | some start => exact .bind (xmlConstraintBehind_orderly start) fun _ => .pure _

theorem schemaBehind_orderly (start : Token) : Orderly legal (schemaBehind start) :=
  .bind bracedString_eager.orderly fun _ => .bind (.symbol _) fun _ => .pure _

theorem schemaReference_orderly : Orderly legal schemaReference := by
  refine .bind (.eat? rfl) fun start => ?_
  cases start with
  | none => exact .pure _
  | some start => exact .bind (schemaBehind_orderly start) fun _ => .pure _

theorem mapType_eager {inner : Step TypeName} (orderly : Orderly legal inner) :
    Eager legal (mapType inner) :=
  .bind (.keyword rfl) fun _ => .bind (.eat rfl) fun _ =>
    .ite (.bind orderly fun _ => .bind (.symbol _) fun _ => .bind (.spanFrom _) fun _ => .pure _)
      (.bind (.spanFrom _) fun _ => .pure _)

theorem constrainedType_eager {α : Type} {word : Keyword} {constraint : Step (Option α)}
    {make : Option α → Span → TypeName} (free : (Kind.keyword word).isBarrier = false)
    (orderly : Orderly legal constraint) : Eager legal (constrainedType word constraint make) :=
  .bind (.keyword free) fun _ => .bind orderly fun _ => .bind (.spanFrom _) fun _ => .pure _

theorem namedType_eager : Eager legal namedType :=
  .behind .peek fun _ => .bind nameReference_eager fun _ => .bind (.spanFrom _) fun _ => .pure _

theorem isBarrier_of_simpleType? {span : Span} {kind : Kind} {type : TypeName}
    (simple : simpleType? span kind = some type) :
    kind.isBarrier = false ∧ kind ≠ .endOfFile := by
  unfold simpleType? at simple
  split at simple <;> first | exact ⟨rfl, by simp⟩ | cases simple

theorem simpleType_eager : Eager legal simpleType := by
  refine .ofAt fun parser => .lookThen (fun _ alike => peek_alike alike) ?_
  split
  · rename_i type simple
    obtain ⟨free, notEnd⟩ := isBarrier_of_simpleType? simple
    exact .advanceThen rfl free notEnd fun _ => .pure _
  · exact .of (.failAt fun _ => ⟨rfl, nofun⟩)

theorem baseType_eager {inner : Step TypeName} (orderly : Orderly legal inner) :
    Eager legal (baseType inner) := by
  refine .behind .current fun kind => ?_
  split
  · exact mapType_eager orderly
  · exact constrainedType_eager rfl xmlConstraint_orderly
  · exact constrainedType_eager rfl xmlConstraint_orderly
  · exact constrainedType_eager rfl schemaReference_orderly
  · exact namedType_eager
  · exact simpleType_eager

theorem dimension_turn (type : TypeName) : Turn legal (dimension type) :=
  .behind (.check _) fun _ => .behind (.kindNth 1) fun _ =>
    .ite (.eager (.bind (.symbol _) fun _ => .bind (.symbol _) fun _ => .pure _)) (.done _)

theorem dimensions_orderly (type : TypeName) : Orderly legal (dimensions type) :=
  .loop dimension_turn type

theorem typeName_eager (room : Nat) : Eager legal (typeName room) := by
  induction room with
  | zero => exact .tooDeep
  | succ room ih => exact .bind (baseType_eager ih.orderly) dimensions_orderly

/-! ### Expressions -/

structure ExprParts.AreEager (legal : Cursor → Prop) (parts : ExprParts) : Prop where
  typeName : Eager legal parts.typeName
  expr : ∀ power, Eager legal (parts.expr power)

omit permissive in
theorem literalOf_orderly (token : Token) : Orderly legal (literalOf token) := by
  unfold literalOf
  split
  · exact .pure _
  · exact .fail ⟨rfl, nofun⟩

section Parts

variable {parts : ExprParts} (eager : parts.AreEager legal)

include eager

omit permissive in
theorem anyExpr_eager : Eager legal parts.anyExpr :=
  eager.expr 0

theorem expressions_orderly : Orderly legal (expressions parts) :=
  .commaSeparated (anyExpr_eager eager).orderly

theorem condition_eager : Eager legal (condition parts) :=
  .bind (.symbol _) fun _ => .bind (anyExpr_eager eager).orderly fun _ =>
    .bind (.symbol _) fun _ => .pure _

theorem arguments_eager : Eager legal (arguments parts) :=
  .bind (.symbol _) fun _ => .bind (.closedList (anyExpr_eager eager).orderly) fun _ => .pure _

/-! ### References -/

theorem indexSuffix_eager (base : Reference) : Eager legal (indexSuffix parts base) :=
  .bind (.symbol _) fun _ => .bind (anyExpr_eager eager).orderly fun _ =>
    .bind (.symbol _) fun _ => .pure _

omit eager in
theorem fieldSuffix_eager (base : Reference) : Eager legal (fieldSuffix base) :=
  .bind (.symbol _) fun _ => .bind .expectIdentifier fun _ => .pure _

theorem attributeSelector_orderly (base : Reference) (sign : Token) :
    Orderly legal (attributeSelector parts base sign) := by
  refine .bind .current fun kind => ?_
  split
  · exact .bind .expectIdentifier fun _ => .pure _
  · exact .bind (.symbol _) fun _ => .bind (anyExpr_eager eager).orderly fun _ =>
      .bind (.symbol _) fun _ => .pure _
  · exact .pure _

theorem attributeSuffix_eager (base : Reference) : Eager legal (attributeSuffix parts base) :=
  .bind (.symbol _) fun _ => attributeSelector_orderly eager base _

theorem suffix_turn (base : Reference) : Turn legal (suffix parts base) := by
  refine .behind .current fun kind => ?_
  split
  · exact .eager (.bind (indexSuffix_eager eager base) fun _ => .pure _)
  · exact .eager (.bind (fieldSuffix_eager base) fun _ => .pure _)
  · exact .eager (.bind (attributeSuffix_eager eager base) fun _ => .pure _)
  · exact .done base

theorem suffixes_orderly (base : Reference) : Orderly legal (suffixes parts base) :=
  .loop (suffix_turn eager) base

theorem reference_eager : Eager legal (reference parts) :=
  .bind nameReference_eager fun _ => suffixes_orderly eager _

theorem references_eager : Eager legal (references parts) :=
  .commaSeparated (reference_eager eager)

/-! ### Primary expressions -/

theorem typeMember_eager : Eager legal (typeMember parts) :=
  .bind (baseType_eager eager.typeName.orderly) fun _ => .bind (.symbol _) fun _ =>
    .bind .expectIdentifier fun _ => .pure _

theorem arrayLiteral_eager : Eager legal (arrayLiteral parts) :=
  .bind (.symbol _) fun _ => .bind (.closedList (anyExpr_eager eager).orderly) fun _ => .pure _

omit eager in
theorem nameKey_orderly : Orderly legal nameKey :=
  .bind .expectIdentifier fun _ => .pure _

theorem mapKey_orderly : Orderly legal (mapKey parts) :=
  .bind (.check _) fun _ => .bind (.kindNth 1) fun _ =>
    .ite nameKey_orderly (anyExpr_eager eager).orderly

theorem mapEntry_orderly : Orderly legal (mapEntry parts) :=
  .bind (mapKey_orderly eager) fun _ => .bind (.symbol _) fun _ =>
    .bind (anyExpr_eager eager).orderly fun _ => .pure _

theorem mapLiteral_eager : Eager legal (mapLiteral parts) :=
  .bind (.symbol _) fun _ => .bind (.closedList (mapEntry_orderly eager)) fun _ => .pure _

theorem named_eager : Eager legal (named parts) :=
  .bind nameReference_eager fun _ => .bind (.check _) fun _ =>
    .ite (.bind (arguments_eager eager).orderly fun _ => .pure _)
      (.bind (suffixes_orderly eager _) fun _ => .pure _)

omit eager in
theorem plainLiteral_eagerAt {parser : Parser} {kind : Kind}
    (here : parser.cursor.peek.kind = kind) (free : kind.isBarrier = false)
    (notEnd : kind ≠ .endOfFile) : EagerAt legal plainLiteral parser :=
  .advanceThen here free notEnd fun _ => .bind (literalOf_orderly _) fun _ => .pure _

omit eager in
theorem template_eager : Eager legal template :=
  .bind (.expect rfl (by simp)) fun _ => .pure _

theorem primary_eager : Eager legal (primary parts) := by
  refine .ofAt fun parser => .lookThen (fun _ alike => peek_alike alike) ?_
  split
  case h_1 here => exact plainLiteral_eagerAt here rfl (by simp)
  case h_2 here => exact plainLiteral_eagerAt here rfl (by simp)
  case h_3 here => exact plainLiteral_eagerAt here rfl (by simp)
  case h_4 here => exact plainLiteral_eagerAt here rfl (by simp)
  case h_5 here => exact plainLiteral_eagerAt here rfl (by simp)
  · exact .of template_eager
  · exact .of (arrayLiteral_eager eager)
  · exact .of (mapLiteral_eager eager)
  · exact .of (named_eager eager)
  · exact .of (.fail ⟨rfl, nofun⟩)
  · exact .of (.ite (typeMember_eager eager) (.failAt fun _ => ⟨rfl, nofun⟩))

/-! ### Forms with an operator in front -/

theorem castForm_eager : Eager legal (castForm parts) :=
  .bind (.symbol _) fun _ => .bind eager.typeName.orderly fun _ => .bind (.symbol _) fun _ =>
    .bind (eager.expr _).orderly fun _ => .pure _

theorem convertForm_eager : Eager legal (convertForm parts) :=
  .bind (.symbol _) fun _ => .bind eager.typeName.orderly fun _ => .bind (.symbol _) fun _ =>
    .bind (eager.expr _).orderly fun _ => .pure _

theorem parenForm_eager : Eager legal (parenForm parts) :=
  .bind (.symbol _) fun _ => .bind (anyExpr_eager eager).orderly fun _ =>
    .bind (.symbol _) fun _ => .pure _

theorem unaryForm_eager (operator : UnaryOperator) : Eager legal (unaryForm parts operator) :=
  .bind (.symbol _) fun _ => .bind (eager.expr _).orderly fun _ => .pure _

theorem castOrParen_eager : Eager legal (castOrParen parts) :=
  .behind .isCast fun _ => .ite (castForm_eager eager) (parenForm_eager eager)

omit eager permissive in
theorem startsNegativeLiteral_eq (parser : Parser) :
    startsNegativeLiteral parser =
      .ok (parser.cursor.peek.kind == .symbol .minus &&
        (parser.cursor.peekNth 1).kind.isNumber) parser :=
  rfl

omit eager permissive in
theorem startsNegativeLiteral_alike {parser other : Parser} (alike : parser.Alike other) :
    startsNegativeLiteral other =
      .ok (parser.cursor.peek.kind == .symbol .minus &&
        (parser.cursor.peekNth 1).kind.isNumber) other := by
  rw [startsNegativeLiteral_eq, alike.cursor]

omit eager permissive in
theorem isBarrier_of_isNumber {kind : Kind} (number : kind.isNumber = true) :
    kind.isBarrier = false := by
  cases kind <;> first | rfl | cases number

omit eager in
/-- The token behind the sign is only passed over if it is a number. -/
theorem negativeLiteral_eagerAt {parser : Parser}
    (number : (parser.cursor.peekNth 1).kind.isNumber = true) :
    EagerAt legal negativeLiteral parser := by
  refine .bind (.of (.symbol _)) fun sign later ran => ?_
  obtain ⟨-, -, rfl⟩ := expect_ok ran
  have isNext : parser.advance.cursor.peek = parser.cursor.peekNth 1 :=
    parser.cursor.peek_advance
  refine .bind (Run.advanceOf rfl ?_) fun token last _ => ?_
  · rw [isNext]
    exact isBarrier_of_isNumber number
  · exact Orderly.bind (literalOf_orderly token) (fun _ => .pure _) last

theorem operand_eager : Eager legal (operand parts) := by
  refine .ofAt fun parser => .lookThen (fun _ alike => startsNegativeLiteral_alike alike) ?_
  split
  · rename_i starts
    rw [Bool.and_eq_true] at starts
    exact .bind (negativeLiteral_eagerAt starts.2) fun _ later _ => Orderly.pure _ later
  · refine .of (.behind .current fun kind => ?_)
    split
    · exact unaryForm_eager eager _
    · split
      · exact convertForm_eager eager
      · exact castOrParen_eager eager
      · exact primary_eager eager

/-! ### Binary operators -/

theorem binaryForm_eager (operator : BinaryOperator) (left : Expr) :
    Eager legal (binaryForm parts operator left) :=
  .bind (.symbol _) fun _ => .bind (eager.expr _).orderly fun _ => .pure _

theorem extend_turn (power : Nat) (left : Expr) : Turn legal (extend parts power left) := by
  refine .behind .current fun kind => ?_
  split
  · exact .done left
  · exact .ite (.done left) (.eager (.bind (binaryForm_eager eager _ left) fun _ => .pure _))

theorem operation_eager (power : Nat) : Eager legal (operation parts power) :=
  .bind (operand_eager eager) fun left => .loop (extend_turn eager power) left

omit eager in
theorem within_areEager (room : Nat) : (ExprParts.within room).AreEager legal := by
  refine ⟨typeName_eager room, ?_⟩
  induction room with
  | zero => exact fun _ => .tooDeep
  | succ room ih => exact operation_eager ⟨typeName_eager room, ih⟩

omit eager in
theorem expr_eager (room power : Nat) : Eager legal (expr room power) :=
  (within_areEager room).expr power

/-! ### Initializers -/

theorem creation_eager : Eager legal (creation parts) :=
  .bind (.keyword rfl) fun _ => .bind nameReference_eager.orderly fun _ =>
    .bind (arguments_eager eager).orderly fun _ => .pure _

theorem invocation_eager : Eager legal (invocation parts) :=
  .bind nameReference_eager fun _ => .bind (.symbol _) fun _ => .bind .expectIdentifier fun _ =>
    .bind (arguments_eager eager).orderly fun _ => .pure _

theorem initializer_eager : Eager legal (initializer parts) :=
  .behind (.check _) fun _ => .ite (creation_eager eager) <| .behind .isInvocation fun _ =>
    .ite (.bind (invocation_eager eager) fun _ => .pure _) (anyExpr_eager eager)

end Parts

end ServiceLang.Grammar
