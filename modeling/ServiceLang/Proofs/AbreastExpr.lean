import ServiceLang.Grammar.Expr
import ServiceLang.Proofs.Abreast

set_option autoImplicit false

/-! The rules for type names and expressions keep abreast: which of them are taken depends on
the kinds of the tokens ahead, and where a node stands on its tokens alone. -/

namespace ServiceLang.Grammar

open Step

variable {matching : Matching}

/-! ### Type names -/

theorem nameReference_agree {left right : NameReference}
    (packages : matching.Agree left.package right.package)
    (names : matching.Agree left.name right.name) : matching.Agree left right := by
  obtain ⟨package, name⟩ := left
  obtain ⟨otherPackage, otherName⟩ := right
  refine ⟨?_, ?_⟩
  · rw [NameReference.placedBy, NameReference.placedBy, View.map_eq_of_rel packages, names.same]
  · cases packages with
    | none => exact names.spans
    | some packages => exact matching.merge packages.spans names.spans

theorem nameReference_steady : Steady matching nameReference :=
  .bind .expectIdentifier fun _ _ first => .seen (.check _) fun _ => .seen (.kindNth 1) fun _ =>
    .ite
      (.bind (.symbol _) fun _ _ _ => .bind .expectIdentifier fun _ _ second =>
        .pure (nameReference_agree (.some first) second))
      (.pure (nameReference_agree .none first))

theorem bracedString_steady : Steady matching bracedString :=
  .bind (.symbol _) fun _ _ _ => .bind (.expect _) fun _ _ text => .bind (.symbol _) fun _ _ _ =>
    .pure text.lexeme

theorem xmlConstraint_steady : Steady matching xmlConstraint := by
  refine .bind (.eat? _) fun _ _ opening => ?_
  cases opening with
  | none => exact .pure .none
  | some start =>
      refine .bind (.bind (.ifAt bracedString_steady _) fun uri other uris =>
        .bind .expectIdentifier fun _ _ element => .bind (.symbol _) fun _ _ close =>
          .pure ?_) fun _ _ constraint => .pure (.some constraint)
      have same : uri = other := by
        cases uris with
        | none => rfl
        | some texts => exact congrArg some texts
      have spans := matching.merge start.spans close.spans
      exact ⟨by simp only [XmlConstraint.placedBy, same, element.same, matching.shown_eq spans],
        spans⟩

theorem schemaReference_steady : Steady matching schemaReference := by
  refine .bind (.eat? _) fun _ _ opening => ?_
  cases opening with
  | none => exact .pure .none
  | some start =>
      refine .bind (.bind bracedString_steady fun location other same =>
        .bind (.symbol _) fun _ _ close => .pure ?_) fun _ _ schema => .pure (.some schema)
      have same : location = other := same
      have spans := matching.merge start.spans close.spans
      exact ⟨by simp only [SchemaReference.placedBy, same, matching.shown_eq spans], spans⟩

theorem mapType_steady {inner : Step TypeName} (steady : Steady matching inner) :
    Steady matching (mapType inner) := by
  refine .bind (.keyword _) fun _ _ word => .bind (.eat _) fun _ _ same => ?_
  cases same
  refine .ite (.bind steady fun _ _ constraint => .bind (.symbol _) fun _ _ _ =>
    .bind (.spanFrom word.spans) fun _ _ spans => .pure ⟨?_, spans⟩)
    (.bind (.spanFrom word.spans) fun _ _ spans => .pure ⟨?_, spans⟩)
  · simp only [TypeName.placedBy, constraint.same, matching.shown_eq spans]
  · simp only [TypeName.placedBy, matching.shown_eq spans]

theorem constrainedType_steady {α : Type} [Matchable α] {word : Keyword}
    {constraint : Step (Option α)} {make : Option α → Span → TypeName}
    (steady : Steady matching constraint)
    (makes : ∀ left right span other, matching.Agree left right → matching.Agree span other →
      matching.Agree (make left span) (make right other)) :
    Steady matching (constrainedType word constraint make) :=
  .bind (.keyword _) fun _ _ word => .bind steady fun _ _ constraint =>
    .bind (.spanFrom word.spans) fun _ _ spans => .pure (makes _ _ _ _ constraint spans)

theorem namedType_steady : Steady matching namedType :=
  .bind .peek fun _ _ first => .bind nameReference_steady fun _ _ reference =>
    .bind (.spanFrom first.spans) fun _ _ spans => .pure
      ⟨by simp only [TypeName.placedBy, reference.same, matching.shown_eq spans], spans⟩

theorem simpleType?_agree {left right : Span} (spans : matching.Agree left right) (kind : Kind) :
    matching.Agree (simpleType? left kind) (simpleType? right kind) := by
  have shown := matching.shown_eq spans
  unfold simpleType?
  split
  all_goals first
    | exact .none
    | exact .some ⟨by simp only [TypeName.placedBy, shown], spans⟩

theorem simpleType_steady : Steady matching simpleType := by
  refine .bind .peek fun left right token => ?_
  have types := simpleType?_agree token.spans left.kind
  rw [token.kind] at types ⊢
  generalize simpleType? left.span right.kind = type at types ⊢
  generalize simpleType? right.span right.kind = other at types ⊢
  cases types with
  | none =>
      refine .failAt fun _ _ agree => ?_
      rw [agree.kind]
      exact View.error_agree _ _ agree.spans
  | some types => exact .bind .advance fun _ _ _ => .pure types

theorem baseType_steady {inner : Step TypeName} (steady : Steady matching inner) :
    Steady matching (baseType inner) := by
  refine .seen .current fun kind => ?_
  split
  · exact mapType_steady steady
  · refine constrainedType_steady xmlConstraint_steady fun _ _ _ _ constraint spans => ⟨?_, spans⟩
    simp only [TypeName.placedBy, View.map_eq_of_rel constraint, matching.shown_eq spans]
  · refine constrainedType_steady xmlConstraint_steady fun _ _ _ _ constraint spans => ⟨?_, spans⟩
    simp only [TypeName.placedBy, View.map_eq_of_rel constraint, matching.shown_eq spans]
  · refine constrainedType_steady schemaReference_steady fun _ _ _ _ schema spans => ⟨?_, spans⟩
    simp only [TypeName.placedBy, View.map_eq_of_rel schema, matching.shown_eq spans]
  · exact namedType_steady
  · exact simpleType_steady

theorem dimensions_abreast {left right : TypeName} (types : matching.Agree left right) :
    Abreast matching (dimensions left) (dimensions right) := by
  refine .loop (fun type other types => ?_) types
  refine .seen (.check _) fun _ => .seen (.kindNth 1) fun _ => .ite
    (.bind (.symbol _) fun _ _ _ => .bind (.symbol _) fun _ _ close => .pure (.yield ?_))
    (.pure (.done types))
  have spans := matching.merge types.spans close.spans
  exact ⟨by simp only [TypeName.placedBy, types.same, matching.shown_eq spans], spans⟩

theorem typeName_steady (room : Nat) : Steady matching (typeName room) := by
  induction room with
  | zero => exact .tooDeep
  | succ room ih => exact .bind (baseType_steady ih) fun _ _ types => dimensions_abreast types

/-! ### Expressions -/

structure ExprParts.AreSteady (matching : Matching) (parts : ExprParts) : Prop where
  typeName : Steady matching parts.typeName
  expr : ∀ power, Steady matching (parts.expr power)

theorem literalOf_abreast {left right : Token} (token : matching.Agree left right) :
    Abreast matching (literalOf left) (literalOf right) := by
  have values : literalValue? left = literalValue? right := by
    simp only [literalValue?, token.kind, token.lexeme]
  rw [literalOf, literalOf, values, token.kind]
  split
  · exact .pure ⟨by simp only [Literal.placedBy, matching.shown_eq token.spans], token.spans⟩
  · exact .fail (View.error_agree _ _ token.spans)

section Parts

variable {parts : ExprParts} (steady : parts.AreSteady matching)

include steady

theorem anyExpr_steady : Steady matching parts.anyExpr :=
  steady.expr 0

theorem expressions_steady : Steady matching (expressions parts) :=
  .commaSeparated (anyExpr_steady steady)

theorem condition_steady : Steady matching (condition parts) :=
  .bind (.symbol _) fun _ _ _ => .bind (anyExpr_steady steady) fun _ _ expr =>
    .bind (.symbol _) fun _ _ _ => .pure expr

theorem arguments_steady : Steady matching (arguments parts) :=
  .bind (.symbol _) fun _ _ _ => .bind (.closedList (anyExpr_steady steady) _) fun _ _ list =>
    .pure ⟨list.1, list.2.spans⟩

/-! ### References -/

variable {base other : Reference} (bases : matching.Agree base other)

include bases

theorem indexSuffix_abreast :
    Abreast matching (indexSuffix parts base) (indexSuffix parts other) := by
  refine .bind (.symbol _) fun _ _ _ => .bind (anyExpr_steady steady) fun _ _ position =>
    .bind (.symbol _) fun _ _ close => .pure ?_
  have spans := matching.merge bases.spans close.spans
  exact ⟨by simp only [Reference.placedBy, bases.same, position.same, matching.shown_eq spans],
    spans⟩

omit steady in
theorem fieldSuffix_abreast : Abreast matching (fieldSuffix base) (fieldSuffix other) := by
  refine .bind (.symbol _) fun _ _ _ => .bind .expectIdentifier fun _ _ member => .pure ?_
  have spans := matching.merge bases.spans member.spans
  exact ⟨by simp only [Reference.placedBy, bases.same, member.same, matching.shown_eq spans],
    spans⟩

theorem attributeSuffix_abreast :
    Abreast matching (attributeSuffix parts base) (attributeSuffix parts other) := by
  refine .bind (.symbol _) fun _ _ sign => .seen .current fun kind => ?_
  split
  · refine .bind .expectIdentifier fun _ _ name => .pure ?_
    have spans := matching.merge bases.spans name.spans
    exact ⟨by simp only [Reference.placedBy, bases.same, name.same, matching.shown_eq spans],
      spans⟩
  · refine .bind (.symbol _) fun _ _ _ => .bind (anyExpr_steady steady) fun _ _ selector =>
      .bind (.symbol _) fun _ _ close => .pure ?_
    have spans := matching.merge bases.spans close.spans
    exact ⟨by simp only [Reference.placedBy, bases.same, selector.same, matching.shown_eq spans],
      spans⟩
  · have spans := matching.merge bases.spans sign.spans
    exact .pure ⟨by simp only [Reference.placedBy, bases.same, matching.shown_eq spans], spans⟩

theorem suffixes_abreast : Abreast matching (suffixes parts base) (suffixes parts other) := by
  refine .loop (fun base other bases => .seen .current fun kind => ?_) bases
  split
  · exact .bind (indexSuffix_abreast steady bases) fun _ _ bases => .pure (.yield bases)
  · exact .bind (fieldSuffix_abreast bases) fun _ _ bases => .pure (.yield bases)
  · exact .bind (attributeSuffix_abreast steady bases) fun _ _ bases => .pure (.yield bases)
  · exact .pure (.done bases)

omit bases

omit steady in
theorem name_agree {left right : NameReference} (names : matching.Agree left right) :
    matching.Agree (Reference.name left) (Reference.name right) :=
  ⟨by simp only [Reference.placedBy, names.same], names.spans⟩

omit steady in
theorem reference_agree {left right : Reference} (targets : matching.Agree left right) :
    matching.Agree (Expr.reference left) (Expr.reference right) :=
  ⟨by simp only [Expr.placedBy, targets.same], targets.spans⟩

omit steady in
theorem literal_agree {left right : Literal} (values : matching.Agree left right) :
    matching.Agree (Expr.literal left) (Expr.literal right) :=
  ⟨by simp only [Expr.placedBy, values.same], values.spans⟩

omit steady in
theorem allPlacedBy_eq {left right : List Expr} (exprs : matching.Agree left right) :
    Expr.allPlacedBy matching.shown left = Expr.allPlacedBy matching.shown right := by
  rw [Expr.allPlacedBy_eq_map, Expr.allPlacedBy_eq_map, View.map_eq_of_forall₂ exprs]

theorem reference_steady : Steady matching (reference parts) :=
  .bind nameReference_steady fun _ _ names => suffixes_abreast steady (name_agree names)

theorem references_steady : Steady matching (references parts) :=
  .commaSeparated (reference_steady steady)

/-! ### Primary expressions -/

theorem typeMember_steady : Steady matching (typeMember parts) := by
  refine .bind (baseType_steady steady.typeName) fun _ _ type => .bind (.symbol _) fun _ _ _ =>
    .bind .expectIdentifier fun _ _ member => .pure ?_
  have spans := matching.merge type.spans member.spans
  exact ⟨by simp only [Expr.placedBy, type.same, member.same, matching.shown_eq spans], spans⟩

theorem arrayLiteral_steady : Steady matching (arrayLiteral parts) := by
  refine .bind (.symbol _) fun _ _ opening =>
    .bind (.closedList (anyExpr_steady steady) _) fun _ _ list => .pure ?_
  have spans := matching.merge opening.spans list.2.spans
  exact ⟨by simp only [Expr.placedBy, allPlacedBy_eq list.1, matching.shown_eq spans], spans⟩

theorem mapKey_steady : Steady matching (mapKey parts) :=
  .seen (.check _) fun _ => .seen (.kindNth 1) fun _ =>
    .ite
      (.bind .expectIdentifier fun _ _ name =>
        .pure (reference_agree (name_agree (nameReference_agree .none name))))
      (anyExpr_steady steady)

theorem mapEntry_steady : Steady matching (mapEntry parts) := by
  refine .bind (mapKey_steady steady) fun _ _ key => .bind (.symbol _) fun _ _ _ =>
    .bind (anyExpr_steady steady) fun _ _ value => .pure ?_
  have spans := matching.merge key.spans value.spans
  exact ⟨by simp only [MapEntry.placedBy, key.same, value.same, matching.shown_eq spans], spans⟩

theorem mapLiteral_steady : Steady matching (mapLiteral parts) := by
  refine .bind (.symbol _) fun _ _ opening =>
    .bind (.closedList (mapEntry_steady steady) _) fun _ _ list => .pure ?_
  have spans := matching.merge opening.spans list.2.spans
  exact ⟨by simp only [Expr.placedBy, MapEntry.allPlacedBy_eq_map,
    View.map_eq_of_forall₂ list.1, matching.shown_eq spans], spans⟩

theorem named_steady : Steady matching (named parts) := by
  refine .bind nameReference_steady fun _ _ name => .seen (.check _) fun _ => .ite
    (.bind (arguments_steady steady) fun _ _ list => .pure ?_)
    (.bind (suffixes_abreast steady (name_agree name)) fun _ _ targets =>
      .pure (reference_agree targets))
  have spans := matching.merge name.spans list.2
  exact ⟨by simp only [Expr.placedBy, name.same, allPlacedBy_eq list.1, matching.shown_eq spans],
    spans⟩

omit steady in
theorem plainLiteral_steady : Steady matching plainLiteral :=
  .bind .advance fun _ _ token => .bind (literalOf_abreast token) fun _ _ values =>
    .pure (literal_agree values)

omit steady in
theorem template_steady : Steady matching template :=
  .bind (.expect _) fun _ _ token => .pure
    ⟨by simp only [Expr.placedBy, token.lexeme, matching.shown_eq token.spans], token.spans⟩

theorem primary_steady : Steady matching (primary parts) := by
  refine .bind .peek fun _ _ token => ?_
  rw [token.kind]
  split
  · exact plainLiteral_steady
  · exact plainLiteral_steady
  · exact plainLiteral_steady
  · exact plainLiteral_steady
  · exact plainLiteral_steady
  · exact template_steady
  · exact arrayLiteral_steady steady
  · exact mapLiteral_steady steady
  · exact named_steady steady
  · exact .fail (View.error_agree _ _ token.spans)
  · refine .ite (typeMember_steady steady) (.failAt fun _ _ agree => ?_)
    rw [agree.kind]
    exact View.error_agree _ _ agree.spans

/-! ### Forms with an operator in front -/

theorem castForm_steady : Steady matching (castForm parts) := by
  refine .bind (.symbol _) fun _ _ opening => .bind steady.typeName fun _ _ target =>
    .bind (.symbol _) fun _ _ _ => .bind (steady.expr _) fun _ _ operand => .pure ?_
  have spans := matching.merge opening.spans operand.spans
  exact ⟨by simp only [Expr.placedBy, target.same, operand.same, matching.shown_eq spans], spans⟩

theorem convertForm_steady : Steady matching (convertForm parts) := by
  refine .bind (.symbol _) fun _ _ opening => .bind steady.typeName fun _ _ target =>
    .bind (.symbol _) fun _ _ _ => .bind (steady.expr _) fun _ _ operand => .pure ?_
  have spans := matching.merge opening.spans operand.spans
  exact ⟨by simp only [Expr.placedBy, target.same, operand.same, matching.shown_eq spans], spans⟩

theorem parenForm_steady : Steady matching (parenForm parts) := by
  refine .bind (.symbol _) fun _ _ opening => .bind (anyExpr_steady steady) fun _ _ inner =>
    .bind (.symbol _) fun _ _ close => .pure ?_
  have spans := matching.merge opening.spans close.spans
  exact ⟨by simp only [Expr.placedBy, inner.same, matching.shown_eq spans], spans⟩

omit steady in
theorem negativeLiteral_steady : Steady matching negativeLiteral := by
  refine .bind (.symbol _) fun _ _ sign => .bind .advance fun _ _ number =>
    .bind (literalOf_abreast number) fun literal other values => .pure ?_
  have spans := matching.merge sign.spans number.spans
  have same := values.same
  simp only [Literal.placedBy, Literal.mk.injEq] at same
  exact ⟨by simp only [Literal.placedBy, same.1, matching.shown_eq spans], spans⟩

omit steady in
theorem sees_startsNegativeLiteral : SeesSame matching startsNegativeLiteral := by
  intro parser other agree
  refine ⟨_, rfl, ?_⟩
  change EStateM.Result.ok (other.cursor.peek.kind == .symbol .minus &&
    (other.cursor.peekNth 1).kind.isNumber) other = _
  rw [← agree.cursor.peek.kind, ← (agree.cursor.peekNth 1).kind]

theorem unaryForm_steady (operator : UnaryOperator) :
    Steady matching (unaryForm parts operator) := by
  refine .bind (.symbol _) fun _ _ sign => .bind (steady.expr _) fun _ _ operand => .pure ?_
  have spans := matching.merge sign.spans operand.spans
  exact ⟨by simp only [Expr.placedBy, operand.same, matching.shown_eq spans], spans⟩

theorem operand_steady : Steady matching (operand parts) := by
  refine .seen sees_startsNegativeLiteral fun _ => .ite
    (.bind negativeLiteral_steady fun _ _ values => .pure (literal_agree values))
    (.seen .current fun kind => ?_)
  split
  · exact unaryForm_steady steady _
  · split
    · exact convertForm_steady steady
    · exact .seen .isCast fun _ => .ite (castForm_steady steady) (parenForm_steady steady)
    · exact primary_steady steady

/-! ### Binary operators -/

theorem binaryForm_abreast (operator : BinaryOperator) {left right : Expr}
    (operands : matching.Agree left right) :
    Abreast matching (binaryForm parts operator left) (binaryForm parts operator right) := by
  refine .bind (.symbol _) fun _ _ _ => .bind (steady.expr _) fun _ _ second => .pure ?_
  have spans := matching.merge operands.spans second.spans
  exact ⟨by simp only [Expr.placedBy, operands.same, second.same, matching.shown_eq spans], spans⟩

theorem operation_steady (power : Nat) : Steady matching (operation parts power) := by
  refine .bind (operand_steady steady) fun _ _ operands =>
    .loop (fun left right operands => .seen .current fun kind => ?_) operands
  split
  · exact .pure (.done operands)
  · exact .ite (.pure (.done operands))
      (.bind (binaryForm_abreast steady _ operands) fun _ _ operands => .pure (.yield operands))

omit steady in
theorem within_areSteady (room : Nat) : (ExprParts.within room).AreSteady matching := by
  refine ⟨typeName_steady room, ?_⟩
  induction room with
  | zero => exact fun _ => .tooDeep
  | succ room ih => exact operation_steady ⟨typeName_steady room, ih⟩

omit steady in
theorem expr_steady (room power : Nat) : Steady matching (expr room power) :=
  (within_areSteady room).expr power

/-! ### Initializers -/

theorem creation_steady : Steady matching (creation parts) := by
  refine .bind (.keyword _) fun _ _ word => .bind nameReference_steady fun _ _ connector =>
    .bind (arguments_steady steady) fun _ _ list => .pure ?_
  have spans := matching.merge word.spans list.2
  exact ⟨by simp only [Expr.placedBy, connector.same, allPlacedBy_eq list.1,
    matching.shown_eq spans], spans⟩

theorem invocation_steady : Steady matching (invocation parts) :=
  .bind nameReference_steady fun _ _ connector => .bind (.symbol _) fun _ _ _ =>
    .bind .expectIdentifier fun _ _ action => .bind (arguments_steady steady) fun _ _ list =>
      .pure ⟨connector, action, list.1, matching.merge connector.spans list.2⟩

theorem initializer_steady : Steady matching (initializer parts) := by
  refine .seen (.check _) fun _ => .ite (creation_steady steady) <|
    .seen .isInvocation fun _ => .ite
      (.bind (invocation_steady steady) fun _ _ agree => .pure ?_) (anyExpr_steady steady)
  obtain ⟨connector, action, list, spans⟩ := agree
  exact ⟨by simp only [Expr.placedBy, connector.same, action.same, allPlacedBy_eq list,
    matching.shown_eq spans], spans⟩

end Parts

end ServiceLang.Grammar
