import ServiceLang.Grammar.Expr
import ServiceLang.Proofs.OrderlyExpr
import ServiceLang.Proofs.Stable

set_option autoImplicit false

/-! Names, type names and expressions with other tokens behind. None of them closes, and
none takes a semicolon; what surrounds them does. -/

namespace ServiceLang.Grammar

open Step

variable {reach : Prop}

/-! ### Names and type names -/

theorem nameReference_stable : Stable reach none nameReference :=
  .bind .identifier fun _ => .pair rfl rfl
    (.bind (.symbol _ nofun) fun _ => .mapped _ .identifier) (.pure _)

theorem bracedString_stable : Stable reach none bracedString :=
  .bind (.symbol _ nofun) fun _ => .bind (.expect _ nofun nofun) fun _ => .opened (.mapped _ (.symbol _ nofun))

theorem xmlConstraint_stable : Stable reach none xmlConstraint := by
  refine .bind (.eat? _ rfl nofun) fun found => ?_
  cases found with
  | none => exact .pure _
  | some start =>
      exact .mapped _ (.bind (.ifAt rfl bracedString_stable) fun _ => .bind .identifier fun _ =>
        .opened (.mapped _ (.symbol _ nofun)))

theorem schemaReference_stable : Stable reach none schemaReference := by
  refine .bind (.eat? _ rfl nofun) fun found => ?_
  cases found with
  | none => exact .pure _
  | some start =>
      exact .mapped _ (.bind bracedString_stable fun _ => .opened (.mapped _ (.symbol _ nofun)))

theorem mapType_stable {inner : Step TypeName} (stable : Stable reach none inner) :
    Stable reach none (mapType inner) :=
  .bind (.keyword _) fun _ => .bind (.eat _ rfl nofun) fun _ => .ite
    (.bind stable fun _ => .bind (.symbol _ nofun) fun _ => .mapped _ (.spanFrom _))
    (.mapped _ (.spanFrom _))

theorem constrainedType_stable {α : Type} {word : Keyword} {constraint : Step (Option α)}
    {make : Option α → Span → TypeName} (stable : Stable reach none constraint) :
    Stable reach none (constrainedType word constraint make) :=
  .bind (.keyword _) fun _ => .bind stable fun _ => .mapped _ (.spanFrom _)

theorem namedType_stable : Stable reach none namedType := by
  refine .strictly (namedType_eager : Eager (fun _ => True) _).strict (.peek fun _ => ?_)
  exact .bind nameReference_stable.within fun _ => .mapped _ (.spanFrom _)

theorem simpleType_stable : Stable reach none simpleType := by
  apply StableFrom.takesValue fun token => simpleType? token.span token.kind
  · intro parser type isType
    rw [simpleType, look_bind (peek_eq parser)]
    simp only [isType]
    rw [bind_of_ok (advance_eq parser), pure_eq]
  · intro parser later type ran
    rw [simpleType, look_bind (peek_eq parser)] at ran
    cases isType : simpleType? parser.cursor.peek.span parser.cursor.peek.kind with
    | some found => exact ⟨found, rfl⟩
    | none =>
        simp only [isType] at ran
        exact absurd ran failAt_ne_ok
  · intro token type isType
    constructor
    · intro same
      rw [same] at isType
      cases isType
    · exact (isBarrier_of_simpleType? isType).2

theorem baseType_stable {inner : Step TypeName} (orderly : Orderly (fun _ => True) inner)
    (stable : Stable reach none inner) : Stable reach none (baseType inner) := by
  refine .strictly (baseType_eager orderly).strict (.current fun kind => ?_)
  split
  · exact (mapType_stable stable).within
  · exact (constrainedType_stable xmlConstraint_stable).within
  · exact (constrainedType_stable xmlConstraint_stable).within
  · exact (constrainedType_stable schemaReference_stable).within
  · exact namedType_stable.within
  · exact simpleType_stable.within

theorem dimensions_stable (element : TypeName) : Stable reach none (dimensions element) :=
  .loop (fun _ => .pair rfl rfl
    (.bind (.symbol .leftBracket nofun) fun _ =>
      .opened (.mapped _ (.symbol .rightBracket nofun))) (.pure _)) element

theorem typeName_stable (room : Nat) : Stable reach none (typeName room) := by
  induction room with
  | zero => exact .tooDeep
  | succ room ih =>
      exact .bind (baseType_stable (typeName_eager room).orderly ih) fun _ => dimensions_stable _

/-! ### References -/

structure ExprParts.AreStable (reach : Prop) (parts : ExprParts) : Prop where
  eager : parts.AreEager (fun _ => True)
  typeName : Stable reach none parts.typeName
  expr : ∀ power, Stable reach none (parts.expr power)

theorem literalOf_stable (token : Token) : Stable reach none (literalOf token) := by
  unfold literalOf
  split
  · exact .pure _
  · exact .fail _

/-- A literal is neither a semicolon nor the end. -/
theorem kind_of_literalOf {token : Token} {parser later : Parser} {literal : Literal}
    (ran : literalOf token parser = .ok literal later) :
    token.kind ≠ .symbol .semicolon ∧ token.kind ≠ .endOfFile := by
  constructor <;>
    · intro same
      rw [literalOf, literalValue?, same] at ran
      exact absurd ran fail_ne_ok

theorem advancedLiteral_stable {α : Type} (make : Token → Literal → α) :
    Stable reach none (do
      let token ← advance
      return make token (← literalOf token)) := by
  refine .advanceThen (fun ran => ?_) fun token => .mapped _ (literalOf_stable token)
  obtain ⟨literal, between, ranLiteral, -⟩ := bind_ok ran
  exact kind_of_literalOf ranLiteral

variable {parts : ExprParts} (stable : parts.AreStable reach)

include stable

theorem expressions_stable : Stable reach none (expressions parts) :=
  .commaSeparated (stable.expr 0)

theorem condition_stable : Stable reach (some [.rightParen]) (condition parts) :=
  .bind (.symbol _ nofun) fun _ => .bind (stable.expr 0) fun _ => .mapped _ (.symbol _ nofun)

theorem arguments_stable : Stable reach (some [.rightParen]) (arguments parts) :=
  .bind (.symbol _ nofun) fun _ =>
    .mapped _ (.closedList (stable.eager.expr 0).orderly (stable.expr 0) nofun)

theorem indexSuffix_stable (base : Reference) : Stable reach none (indexSuffix parts base) :=
  .bind (.symbol _ nofun) fun _ => .bind (stable.expr 0) fun _ => .opened (.mapped _ (.symbol _ nofun))

theorem attributeSuffix_stable (base : Reference) :
    Stable reach none (attributeSuffix parts base) := by
  refine .bind (.symbol _ nofun) fun sign => .currentOr (pure (.attributes base (base.span.merge sign.span)))
    (fun kind inert => ?_) fun kind => ?_
  · split <;> first | rfl | cases inert
  · split
    · exact .mapped _ .identifier
    · exact .bind (.symbol _ nofun) fun _ => .bind (stable.expr 0) fun _ =>
        .opened (.mapped _ (.symbol _ nofun))
    · exact .pure _

theorem suffixes_stable (base : Reference) : Stable reach none (suffixes parts base) := by
  refine .loop (fun base => .currentOr (pure (.done base)) (fun kind inert => ?_) fun kind => ?_) base
  · split <;> first | rfl | cases inert
  · split
    · exact .mapped _ (indexSuffix_stable stable base)
    · exact .mapped _ (.bind (.symbol _ nofun) fun _ => .mapped _ .identifier)
    · exact .mapped _ (attributeSuffix_stable stable base)
    · exact .pure _

theorem reference_stable : Stable reach none (reference parts) :=
  .bind nameReference_stable fun _ => suffixes_stable stable _

theorem references_stable : Stable reach none (references parts) :=
  .commaSeparated (reference_stable stable)

/-! ### Primary expressions -/

theorem typeMember_stable : Stable reach none (typeMember parts) :=
  .bind (baseType_stable stable.eager.typeName.orderly stable.typeName) fun _ =>
    .bind (.symbol _ nofun) fun _ => .mapped _ .identifier

theorem arrayLiteral_stable : Stable reach none (arrayLiteral parts) :=
  .bind (.symbol _ nofun) fun _ => .opened
    (.mapped _ (.closedList (stable.eager.expr 0).orderly (stable.expr 0) nofun))

theorem mapEntry_stable : Stable reach none (mapEntry parts) := by
  have key : Stable reach none (mapKey parts) :=
    .pair rfl rfl (.mapped _ .identifier) (stable.expr 0)
  exact .bind key fun _ => .bind (.symbol _ nofun) fun _ => .mapped _ (stable.expr 0)

theorem mapLiteral_stable : Stable reach none (mapLiteral parts) :=
  .bind (.symbol _ nofun) fun _ => .opened
    (.mapped _ (.closedList (mapEntry_orderly stable.eager) (mapEntry_stable stable) nofun))

theorem named_stable : Stable reach none (named parts) :=
  .bind nameReference_stable fun _ => .bind (.check rfl) fun _ => .ite
    (.opened (.mapped _ (arguments_stable stable))) (.mapped _ (suffixes_stable stable _))

theorem primary_stable : Stable reach none (primary parts) := by
  have literal : Stable reach none plainLiteral := advancedLiteral_stable fun _ => Expr.literal
  refine .strictly (primary_eager stable.eager).strict (.peek fun token => ?_)
  split
  · exact literal.within
  · exact literal.within
  · exact literal.within
  · exact literal.within
  · exact literal.within
  · exact .mapped _ (.expect _ nofun nofun)
  · exact (arrayLiteral_stable stable).within
  · exact (mapLiteral_stable stable).within
  · exact (named_stable stable).within
  · exact .fail _
  · exact .ite (typeMember_stable stable).within (.failAt _)

/-! ### Operators -/

theorem castForm_stable : Stable reach none (castForm parts) :=
  .bind (.symbol _ nofun) fun _ => .bind stable.typeName fun _ => .bind (.symbol _ nofun) fun _ =>
    .mapped _ (stable.expr _)

theorem convertForm_stable : Stable reach none (convertForm parts) :=
  .bind (.symbol _ nofun) fun _ => .bind stable.typeName fun _ => .bind (.symbol _ nofun) fun _ =>
    .mapped _ (stable.expr _)

theorem parenForm_stable : Stable reach (some [.rightParen]) (parenForm parts) :=
  .bind (.symbol _ nofun) fun _ => .bind (stable.expr 0) fun _ => .mapped _ (.symbol _ nofun)

def ClosesParen (parser later : Parser) : Prop :=
  ∃ front slot back, slot.token.kind = .symbol .rightParen ∧
    parser.cursor.ahead = front ++ slot :: (back ++ later.cursor.ahead)

/-- Behind the type of a cast stands a closing parenthesis. -/
theorem closesParen_of_castForm {parser later : Parser} {value : Expr}
    (ran : castForm parts parser = .ok value later) (clean : later.Clean) :
    ClosesParen parser later := by
  obtain ⟨_, atType, ranOpen, ran⟩ := bind_ok ran
  obtain ⟨_, atClose, ranType, ran⟩ := bind_ok ran
  obtain ⟨_, atOperand, ranClose, ran⟩ := bind_ok ran
  have operand := (StableFrom.mapped _ (stable.expr _) : Stable reach none _) ran clean
  have close := (StableFrom.symbol .rightParen nofun : Stable reach _ _) ranClose operand.clean
  have type := stable.typeName ranType close.clean
  have opens := (StableFrom.symbol .leftParen nofun : Stable reach _ _) ranOpen type.clean
  obtain ⟨back, splitOperand, -⟩ := operand.passed
  obtain ⟨closing, splitClose, passed⟩ := close.passed
  obtain ⟨slot, ⟨front, isLast⟩, sign, member, isSign⟩ := passed.closed _ rfl
  obtain rfl := List.mem_singleton.mp member
  obtain ⟨before, splitBefore⟩ := type.suffix.trans opens.suffix
  refine ⟨before ++ front, slot, back, isSign, ?_⟩
  rw [← splitBefore, splitClose, ← isLast, splitOperand]
  simp only [List.append_assoc, List.singleton_append]

theorem closesParen_of_parenForm {parser later : Parser} {value : Expr}
    (ran : parenForm parts parser = .ok value later) (clean : later.Clean) :
    ClosesParen parser later := by
  obtain ⟨passedOver, split, passed⟩ := (parenForm_stable stable ran clean).passed
  obtain ⟨slot, ⟨front, isLast⟩, sign, member, isSign⟩ := passed.closed _ rfl
  obtain rfl := List.mem_singleton.mp member
  refine ⟨front, slot, [], isSign, ?_⟩
  rw [split, ← isLast, List.append_assoc, List.singleton_append, List.nil_append]

/-- What is read of a cast or of an expression in parentheses closes a parenthesis. -/
theorem closesParen_of_castOrParen {parser later : Parser} {value : Expr}
    (ran : castOrParen parts parser = .ok value later) (clean : later.Clean) :
    ClosesParen parser later := by
  rw [castOrParen, look_bind (isCast_eq parser)] at ran
  split at ran
  · exact closesParen_of_castForm stable ran clean
  · exact closesParen_of_parenForm stable ran clean

omit stable in
theorem StartsInert.opensOperand {slots : List Slot} (inert : StartsInert slots) :
    opensOperand (slots.map fun slot => slot.token.kind) = false := by
  obtain ⟨kind, others, isKinds, isInert⟩ := inert.kinds
  rw [isKinds]
  exact Kind.startsOperand_of_isInert isInert

omit stable in
/-- Looking for a cast sees one token behind the closing parenthesis. -/
theorem ClosesParen.startsCast_eq {parser later right : Parser} (closes : ClosesParen parser later)
    {seam : Seam} {shared left : List Slot} (joined : parser.Joined reach seam shared right)
    (leaves : later.cursor.ahead = left ++ seam.rest)
    (atSeam : left = [] →
      opensOperand (seam.other.map fun slot => slot.token.kind) = false ∧
        opensOperand (seam.rest.map fun slot => slot.token.kind) = false) :
    startsCast (right.options.maxDepth + 1) right.cursor.kinds =
      startsCast (parser.options.maxDepth + 1) parser.cursor.kinds := by
  obtain ⟨front, slot, back, isClose, split⟩ := closes
  have whole : shared = (front ++ [slot]) ++ (back ++ left) := by
    rw [leaves, joined.ahead] at split
    refine List.append_cancel_right (split.trans ?_)
    simp only [List.append_assoc, List.cons_append, List.nil_append]
  have member : Kind.symbol .rightParen ∈ (front ++ [slot]).map fun slot => slot.token.kind := by
    simp [isClose]
  rw [joined.options, joined.kinds, joined.otherKinds, whole, List.map_append, List.append_assoc,
    List.append_assoc]
  apply startsCast_within _ member
  cases behind : back ++ left with
  | nil => exact .inr (atSeam (List.append_eq_nil_iff.mp behind).2)
  | cons next others => exact .inl rfl

theorem castOrParen_stable : Stable reach none (castOrParen parts) := by
  refine .choose (fun isCast => if isCast then castForm parts else parenForm parts)
    (fun parser => startsCast (parser.options.maxDepth + 1) parser.cursor.kinds)
    (fun parser => look_bind (isCast_eq parser)) ?_
    fun _ => .ite (castForm_stable stable) (parenForm_stable stable).opened
  intro parser value later ran clean seam shared left right joined leaves lands _
  left
  have closes := closesParen_of_castOrParen stable ((look_bind (isCast_eq parser)).trans ran) clean
  apply closes.startsCast_eq joined leaves
  intro empty
  have soft := (lands empty).resolve_left nofun
  exact ⟨StartsInert.opensOperand soft.2.2, StartsInert.opensOperand soft.2.1⟩

omit stable in
theorem negativeLiteral_stable : Stable reach none negativeLiteral :=
  .bind (.symbol _ nofun) fun _ => advancedLiteral_stable _

omit stable in
theorem startsNegativeLiteral_stable {α : Type} {inside : Prop} {left right : Step α}
    (onTrue : StableFrom reach inside none left) (onFalse : StableFrom reach inside none right) :
    StableFrom reach inside none (do if ← startsNegativeLiteral then left else right) :=
  .ofPair Kind.isNumber (fun parser => look_bind (startsNegativeLiteral_eq parser)) rfl
    (fun kind inert => by cases kind <;> first | rfl | cases inert) onTrue onFalse

theorem unaryForm_stable (operator : UnaryOperator) :
    Stable reach none (unaryForm parts operator) :=
  .bind (.symbol _ (by cases operator <;> decide)) fun _ => .mapped _ (stable.expr _)

theorem operand_stable : Stable reach none (operand parts) := by
  refine .strictly (operand_eager stable.eager).strict ?_
  refine startsNegativeLiteral_stable (.mapped _ negativeLiteral_stable.within)
    (StableInside.current fun kind => ?_)
  split
  · exact (unaryForm_stable stable _).within
  · split
    · exact (convertForm_stable stable).within
    · exact (castOrParen_stable stable).within
    · exact (primary_stable stable).within

theorem binaryForm_stable (operator : BinaryOperator) (left : Expr) :
    Stable reach none (binaryForm parts operator left) :=
  .bind (.symbol _ (by cases operator <;> decide)) fun _ => .mapped _ (stable.expr _)

omit stable in
theorem ofKind?_of_isInert {kind : Kind} (inert : kind.isInert = true) :
    BinaryOperator.ofKind? kind = none := by
  rw [BinaryOperator.ofKind?, List.find?_eq_none]
  intro operator _ same
  rw [← eq_of_beq same] at inert
  cases operator <;> cases inert

theorem operation_stable (power : Nat) : Stable reach none (operation parts power) := by
  refine .bind (operand_stable stable) fun _ => .loop (fun left => ?_) _
  refine .currentOr (pure (.done left)) (fun kind inert => ?_) fun kind => ?_
  · rw [ofKind?_of_isInert inert]
  · split
    · exact .pure _
    · exact .ite (.pure _) (.mapped _ (binaryForm_stable stable _ _))

omit stable in
theorem ExprParts.within_areStable (room : Nat) : (ExprParts.within room).AreStable reach := by
  refine ⟨within_areEager room, typeName_stable room, ?_⟩
  induction room with
  | zero => exact fun _ => .tooDeep
  | succ room ih => exact operation_stable ⟨within_areEager room, typeName_stable room, ih⟩

omit stable in
theorem expr_stable (room power : Nat) : Stable reach none (expr room power) :=
  (ExprParts.within_areStable room).expr power

/-! ### Initializers -/

theorem creation_stable : Stable reach none (creation parts) :=
  .bind (.keyword _) fun _ => .bind nameReference_stable fun _ =>
    .opened (.mapped _ (arguments_stable stable))

theorem invocation_stable : Stable reach (some [.rightParen]) (invocation parts) :=
  .bind nameReference_stable fun _ => .bind (.symbol _ nofun) fun _ => .bind .identifier fun _ =>
    .mapped _ (arguments_stable stable)

theorem initializer_stable : Stable reach none (initializer parts) :=
  .bind (.check rfl) fun _ => .ite (creation_stable stable) <| .bind .isInvocation fun _ =>
    .ite (.opened (.mapped _ (invocation_stable stable))) (stable.expr 0)

end ServiceLang.Grammar
