import ServiceLang.Grammar.Expr
import ServiceLang.Proofs.Depth

set_option autoImplicit false

/-! The levels of type names and expressions. What is read with so many levels left nests less
deep than that. -/

namespace ServiceLang.Grammar

open Step

/-! ### Type names -/

section TypeNames

variable {room : Nat}

theorem nameReference_level : Level room nameReference :=
  .bind .expectIdentifier fun _ _ => .bind (.check _) fun _ _ => .bind (.kindNth 1) fun _ _ =>
    .ite (.bind (.symbol _) fun _ _ => .bind .expectIdentifier fun _ _ => .pure trivial)
      (.pure trivial)

theorem bracedString_level : Level room bracedString :=
  .bind (.symbol _) fun _ _ => .bind (.expect _) fun _ _ => .bind (.symbol _) fun _ _ =>
    .pure trivial

theorem xmlConstraintBehind_level (start : Token) : Level room (xmlConstraintBehind start) :=
  .bind (.ifAt bracedString_level _) fun _ _ => .bind .expectIdentifier fun _ _ =>
    .bind (.symbol _) fun _ _ => .pure trivial

theorem xmlConstraint_level : Level room xmlConstraint := by
  refine .bind (.eat? _) fun start _ => ?_
  cases start with
  | none => exact .pure trivial
  | some start => exact .bind (xmlConstraintBehind_level start) fun _ _ => .pure trivial

theorem schemaBehind_level (start : Token) : Level room (schemaBehind start) :=
  .bind bracedString_level fun _ _ => .bind (.symbol _) fun _ _ => .pure trivial

theorem schemaReference_level : Level room schemaReference := by
  refine .bind (.eat? _) fun start _ => ?_
  cases start with
  | none => exact .pure trivial
  | some start => exact .bind (schemaBehind_level start) fun _ _ => .pure trivial

theorem mapType_levels {inner counted : Step TypeName}
    (levels : Levels room (fun type => type.depth < room) inner counted) :
    Levels room (fun type => type.depth ≤ room) (mapType inner) (mapType counted) :=
  .bind (.keyword _) fun _ _ => .bind (.eat _) fun _ _ => .ite
    (.bind levels fun _ shallow => .bind (.symbol _) fun _ _ => .bind (.spanFrom _) fun _ _ =>
      .pure shallow)
    (.bind (.spanFrom _) fun _ _ => .pure (Nat.zero_le room))

theorem constrainedType_levels {α : Type} {word : Keyword} {constraint : Step (Option α)}
    {make : Option α → Span → TypeName} (level : Level room constraint)
    (flat : ∀ found span, (make found span).depth = 0) :
    Levels room (fun type => type.depth ≤ room)
      (constrainedType word constraint make) (constrainedType word constraint make) :=
  .bind (.keyword _) fun _ _ => .bind level fun _ _ => .bind (.spanFrom _) fun _ _ =>
    .pure (flat _ _ ▸ Nat.zero_le room)

theorem depth_simpleType? {span : Span} {kind : Kind} {type : TypeName}
    (found : simpleType? span kind = some type) : type.depth = 0 := by
  unfold simpleType? at found
  split at found <;> first | cases found; rfl | cases found

theorem simpleType_levels : Levels room (fun type => type.depth ≤ room) simpleType simpleType := by
  refine .bind .peek fun token _ => ?_
  split
  · rename_i type found
    have shallow : type.depth ≤ room := depth_simpleType? found ▸ Nat.zero_le room
    exact .bind .advance fun _ _ => .pure shallow
  · exact .failAt

theorem baseType_levels {inner counted : Step TypeName}
    (levels : Levels room (fun type => type.depth < room) inner counted) :
    Levels room (fun type => type.depth ≤ room) (baseType inner) (baseType counted) := by
  refine .bind .current fun kind _ => ?_
  split
  · exact mapType_levels levels
  · exact constrainedType_levels xmlConstraint_level fun _ _ => rfl
  · exact constrainedType_levels xmlConstraint_level fun _ _ => rfl
  · exact constrainedType_levels schemaReference_level fun _ _ => rfl
  · exact .bind .peek fun _ _ => .bind nameReference_level fun _ _ => .bind (.spanFrom _) fun _ _ =>
      .pure (Nat.zero_le room)
  · exact simpleType_levels

/-- Array suffixes are no levels. -/
theorem dimensions_levels {element : TypeName} (shallow : element.depth ≤ room) :
    Levels room (fun type => type.depth ≤ room) (dimensions element) (dimensions element) :=
  .loop (fun _ shallow => .bind (.check _) fun _ _ => .bind (.kindNth 1) fun _ _ => .ite
    (.bind (.symbol _) fun _ _ => .bind (.symbol _) fun _ _ => .pure shallow)
    (.pure shallow)) shallow

theorem typeName_levels {room fuel : Nat} (enough : room < fuel) :
    Levels room (fun type => type.depth < room) (typeName room) (@typeName .counted fuel) := by
  induction room generalizing fuel with
  | zero =>
      obtain ⟨fuel, rfl⟩ := Nat.exists_eq_succ_of_ne_zero (Nat.ne_zero_of_lt enough)
      exact .refused
  | succ room ih =>
      obtain ⟨fuel, rfl⟩ := Nat.exists_eq_succ_of_ne_zero (Nat.ne_zero_of_lt enough)
      refine .entered (.bind (baseType_levels (ih (Nat.lt_of_succ_lt_succ enough)))
        fun _ shallow => ?_)
      exact (dimensions_levels shallow).mono fun _ shallow => Nat.lt_succ_of_le shallow

end TypeNames

/-! ### Expressions -/

structure ExprParts.HasLevels (room : Nat) (parts counted : ExprParts) : Prop where
  typeName : Levels room (fun type => type.depth < room) parts.typeName counted.typeName
  expr : ∀ power,
    Levels room (fun expr => expr.depth < room) (parts.expr power) (counted.expr power)

abbrev IsForm (room : Nat) (form counted : Step Expr) : Prop :=
  Levels room (fun expr => expr.depth ≤ room) form counted

section Parts

variable {room : Nat} {parts counted : ExprParts} (levels : parts.HasLevels room counted)

include levels

theorem anyExpr_levels :
    Levels room (fun expr => expr.depth < room) parts.anyExpr counted.anyExpr :=
  levels.expr 0

theorem expressions_levels :
    Levels room (fun exprs => ∀ expr ∈ exprs, expr.depth < room)
      (expressions parts) (expressions counted) :=
  .commaSeparated (anyExpr_levels levels)

theorem condition_levels :
    Levels room (fun expr => expr.depth < room) (condition parts) (condition counted) :=
  .bind (.symbol _) fun _ _ => .bind (anyExpr_levels levels) fun _ shallow =>
    .bind (.symbol _) fun _ _ => .pure shallow

theorem arguments_levels :
    Levels room (fun found => Expr.innerDepth found.1 ≤ room)
      (arguments parts) (arguments counted) :=
  .bind (.symbol _) fun _ _ => .bind (.closedList (anyExpr_levels levels) _) fun _ shallow =>
    .pure (Expr.innerDepth_le_iff.mpr shallow)

omit levels in
theorem literalOf_levels (token : Token) : Level room (literalOf token) := by
  unfold literalOf
  split
  · exact .pure trivial
  · exact .fail

/-! ### References -/

variable {base : Reference} (shallow : base.depth ≤ room)

include shallow

theorem indexSuffix_levels :
    Levels room (fun target => target.depth ≤ room)
      (indexSuffix parts base) (indexSuffix counted base) :=
  .bind (.symbol _) fun _ _ => .bind (anyExpr_levels levels) fun _ inner =>
    .bind (.symbol _) fun _ _ => .pure (Nat.max_le.mpr ⟨shallow, inner⟩)

omit levels in
theorem fieldSuffix_levels :
    Levels room (fun target => target.depth ≤ room) (fieldSuffix base) (fieldSuffix base) :=
  .bind (.symbol _) fun _ _ => .bind .expectIdentifier fun _ _ => .pure shallow

theorem attributeSuffix_levels :
    Levels room (fun target => target.depth ≤ room)
      (attributeSuffix parts base) (attributeSuffix counted base) := by
  refine .bind (.symbol _) fun sign _ => .bind .current fun kind _ => ?_
  split
  · exact .bind .expectIdentifier fun _ _ => .pure shallow
  · exact .bind (.symbol _) fun _ _ => .bind (anyExpr_levels levels) fun _ inner =>
      .bind (.symbol _) fun _ _ => .pure (Nat.max_le.mpr ⟨shallow, inner⟩)
  · exact .pure shallow

theorem suffixes_levels :
    Levels room (fun target => target.depth ≤ room)
      (suffixes parts base) (suffixes counted base) := by
  refine .loop (fun base shallow => .bind .current fun kind _ => ?_) shallow
  split
  · exact .bind (indexSuffix_levels levels shallow) fun _ shallow => .pure shallow
  · exact .bind (fieldSuffix_levels shallow) fun _ shallow => .pure shallow
  · exact .bind (attributeSuffix_levels levels shallow) fun _ shallow => .pure shallow
  · exact .pure shallow

omit shallow

theorem reference_levels :
    Levels room (fun target => target.depth ≤ room) (reference parts) (reference counted) :=
  .bind nameReference_level fun _ _ => suffixes_levels levels (Nat.zero_le room)

theorem references_levels :
    Levels room (fun targets => ∀ target ∈ targets, target.depth ≤ room)
      (references parts) (references counted) :=
  .commaSeparated (reference_levels levels)

/-! ### Primary expressions -/

theorem typeMember_levels : IsForm room (typeMember parts) (typeMember counted) :=
  .bind (baseType_levels levels.typeName) fun _ shallow => .bind (.symbol _) fun _ _ =>
    .bind .expectIdentifier fun _ _ => .pure shallow

theorem arrayLiteral_levels : IsForm room (arrayLiteral parts) (arrayLiteral counted) :=
  .bind (.symbol _) fun _ _ => .bind (.closedList (anyExpr_levels levels) _) fun _ shallow =>
    .pure (Expr.innerDepth_le_iff.mpr shallow)

/-- The key of a map is no step further in, but is read as a whole expression all the same. -/
theorem mapKey_levels : IsForm room (mapKey parts) (mapKey counted) :=
  .bind (.check _) fun _ _ => .bind (.kindNth 1) fun _ _ => .ite
    (.bind .expectIdentifier fun _ _ => .pure (Nat.zero_le room))
    ((anyExpr_levels levels).mono fun _ shallow => Nat.le_of_lt shallow)

theorem mapEntry_levels :
    Levels room (fun entry => entry.depth ≤ room) (mapEntry parts) (mapEntry counted) :=
  .bind (mapKey_levels levels) fun _ key => .bind (.symbol _) fun _ _ =>
    .bind (anyExpr_levels levels) fun _ value => .pure (Nat.max_le.mpr ⟨key, value⟩)

theorem mapLiteral_levels : IsForm room (mapLiteral parts) (mapLiteral counted) :=
  .bind (.symbol _) fun _ _ => .bind (.closedList (mapEntry_levels levels) _) fun _ shallow =>
    .pure (MapEntry.deepest_le_iff.mpr shallow)

theorem named_levels : IsForm room (named parts) (named counted) :=
  .bind nameReference_level fun _ _ => .bind (.check _) fun _ _ => .ite
    (.bind (arguments_levels levels) fun _ shallow => .pure shallow)
    (.bind (suffixes_levels levels (Nat.zero_le room)) fun _ shallow => .pure shallow)

omit levels in
theorem plainLiteral_levels : IsForm room plainLiteral plainLiteral :=
  .bind .advance fun _ _ => .bind (literalOf_levels _) fun _ _ => .pure (Nat.zero_le room)

theorem primary_levels : IsForm room (primary parts) (primary counted) := by
  refine .bind .peek fun token _ => ?_
  split
  · exact plainLiteral_levels
  · exact plainLiteral_levels
  · exact plainLiteral_levels
  · exact plainLiteral_levels
  · exact plainLiteral_levels
  · exact .bind (.expect _) fun _ _ => .pure (Nat.zero_le room)
  · exact arrayLiteral_levels levels
  · exact mapLiteral_levels levels
  · exact named_levels levels
  · exact .fail
  · exact .ite (typeMember_levels levels) .failAt

/-! ### Forms with an operator in front -/

theorem castForm_levels : IsForm room (castForm parts) (castForm counted) :=
  .bind (.symbol _) fun _ _ => .bind levels.typeName fun _ target => .bind (.symbol _) fun _ _ =>
    .bind (levels.expr _) fun _ operand => .pure (Nat.max_le.mpr ⟨target, operand⟩)

theorem convertForm_levels : IsForm room (convertForm parts) (convertForm counted) :=
  .bind (.symbol _) fun _ _ => .bind levels.typeName fun _ target => .bind (.symbol _) fun _ _ =>
    .bind (levels.expr _) fun _ operand => .pure (Nat.max_le.mpr ⟨target, operand⟩)

theorem parenForm_levels : IsForm room (parenForm parts) (parenForm counted) :=
  .bind (.symbol _) fun _ _ => .bind (anyExpr_levels levels) fun _ inner =>
    .bind (.symbol _) fun _ _ => .pure inner

omit levels in
theorem negativeLiteral_level : Level room negativeLiteral :=
  .bind (.symbol _) fun _ _ => .bind .advance fun _ _ => .bind (literalOf_levels _) fun _ _ =>
    .pure trivial

omit levels in
theorem startsNegativeLiteral_level : Level room startsNegativeLiteral :=
  .bind (.check _) fun _ _ => .bind (.kindNth 1) fun _ _ => .pure trivial

theorem unaryForm_levels (operator : UnaryOperator) :
    IsForm room (unaryForm parts operator) (unaryForm counted operator) :=
  .bind (.symbol _) fun _ _ => .bind (levels.expr _) fun _ operand => .pure operand

theorem operand_levels : IsForm room (operand parts) (operand counted) := by
  refine .bind startsNegativeLiteral_level fun _ _ => .ite
    (.bind negativeLiteral_level fun _ _ => .pure (Nat.zero_le room))
    (.bind .current fun kind _ => ?_)
  split
  · exact unaryForm_levels levels _
  · split
    · exact convertForm_levels levels
    · exact .bind .isCast fun _ _ => .ite (castForm_levels levels) (parenForm_levels levels)
    · exact primary_levels levels

/-! ### Binary operators -/

/-- The left operand is no step further in, the right one is. -/
theorem binaryForm_levels (operator : BinaryOperator) {left : Expr}
    (shallow : left.depth ≤ room) :
    IsForm room (binaryForm parts operator left) (binaryForm counted operator left) :=
  .bind (.symbol _) fun _ _ => .bind (levels.expr _) fun _ right =>
    .pure (Nat.max_le.mpr ⟨shallow, right⟩)

theorem operation_levels (power : Nat) :
    IsForm room (operation parts power) (operation counted power) := by
  refine .bind (operand_levels levels) fun _ shallow =>
    .loop (fun left shallow => .bind .current fun kind _ => ?_) shallow
  split
  · exact .pure shallow
  · exact .ite (.pure shallow)
      (.bind (binaryForm_levels levels _ shallow) fun _ shallow => .pure shallow)

omit levels in
theorem within_hasLevels {room fuel : Nat} (enough : room < fuel) :
    (ExprParts.within room).HasLevels room (@ExprParts.within .counted fuel) := by
  refine ⟨typeName_levels enough, ?_⟩
  change ∀ power, Levels room _ (expr room power) (@expr .counted fuel power)
  induction room generalizing fuel with
  | zero =>
      obtain ⟨fuel, rfl⟩ := Nat.exists_eq_succ_of_ne_zero (Nat.ne_zero_of_lt enough)
      exact fun power => .refused
  | succ room ih =>
      intro power
      obtain ⟨fuel, rfl⟩ := Nat.exists_eq_succ_of_ne_zero (Nat.ne_zero_of_lt enough)
      have less := Nat.lt_of_succ_lt_succ enough
      refine .entered ((operation_levels ⟨typeName_levels less, ih less⟩ power).mono ?_)
      exact fun _ shallow => Nat.lt_succ_of_le shallow

omit levels in
theorem expr_levels {room fuel : Nat} (enough : room < fuel) (power : Nat) :
    Levels room (fun expr => expr.depth < room) (expr room power) (@expr .counted fuel power) :=
  (within_hasLevels enough).expr power

/-! ### Initializers -/

theorem creation_levels : IsForm room (creation parts) (creation counted) :=
  .bind (.keyword _) fun _ _ => .bind nameReference_level fun _ _ =>
    .bind (arguments_levels levels) fun _ shallow => .pure shallow

theorem invocation_levels :
    Levels room (fun found => Expr.innerDepth found.2.2.1 ≤ room)
      (invocation parts) (invocation counted) :=
  .bind nameReference_level fun _ _ => .bind (.symbol _) fun _ _ =>
    .bind .expectIdentifier fun _ _ => .bind (arguments_levels levels) fun _ shallow => .pure shallow

theorem initializer_levels : IsForm room (initializer parts) (initializer counted) :=
  .bind (.check _) fun _ _ => .ite (creation_levels levels) <|
    .bind .isInvocation fun _ _ => .ite
      (.bind (invocation_levels levels) fun _ shallow => .pure shallow)
      ((anyExpr_levels levels).mono fun _ shallow => Nat.le_of_lt shallow)

end Parts

end ServiceLang.Grammar
