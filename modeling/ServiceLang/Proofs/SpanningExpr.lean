import ServiceLang.Proofs.SpanningStep

set_option autoImplicit false

/-! Names, type names and expressions over the tokens of a source. Each goes over all tokens
that its rule has passed over. -/

namespace ServiceLang.Grammar

open Step Layout

variable {layout : Layout} {index : Nat}

/-! ### Names and type names -/

theorem nameReference_spans :
    layout.Spans index nameReference (layout.Node NameReference.outline index) := by
  refine .bind .identifier fun _ first _ ⟨rfl, isFirst⟩ => ?_
  refine .check fun _ => .kindNth fun _ => .ite (fun _ => ?_) fun _ => .pure fun role => ?_
  · refine .bind (.symbol _) fun _ _ _ ⟨rfl, _⟩ => ?_
    refine .mapped .identifier fun _ name _ ⟨rfl, isName⟩ role => ?_
    exact .of_row ((isFirst "").placed.merge (isName "").placed (by omega) (by omega))
      (.cons (isFirst _) (Nat.le_refl _) (.single (isName _) (by omega) (Nat.le_refl _)))
  · exact .of_row (isFirst "").placed (.single (isFirst _) (Nat.le_refl _) (Nat.le_refl _))

theorem xmlConstraint_spans :
    layout.Spans index xmlConstraint (layout.Optional XmlConstraint.outline index) := by
  refine .bind (.eat? _ nofun) fun behind found order isFound => ?_
  cases found with
  | none => exact .pure (.none order)
  | some start =>
      obtain ⟨same, -⟩ | ⟨_, same, rfl, placed⟩ := isFound
      · cases same
      cases same
      refine .mapped ?_ fun last constraint _ isConstraint =>
        .some isConstraint (Nat.le_refl _) (Nat.le_refl _)
      refine .bind (.skipped (.ifAt bracedString_eager.orderly)) fun _ _ order _ => ?_
      refine .bind .identifier fun _ element _ ⟨rfl, isElement⟩ => ?_
      refine .mapped (.symbol _) fun _ close _ ⟨rfl, isClose⟩ role => ?_
      exact .of_row (placed.merge isClose (by omega) (by omega))
        (.single (isElement _) (by omega) (by omega))

theorem schemaReference_spans :
    layout.Spans index schemaReference (layout.Optional SchemaReference.outline index) := by
  refine .bind (.eat? _ nofun) fun behind found order isFound => ?_
  cases found with
  | none => exact .pure (.none order)
  | some start =>
      obtain ⟨same, -⟩ | ⟨_, same, rfl, placed⟩ := isFound
      · cases same
      cases same
      refine .mapped ?_ fun last schema _ isSchema =>
        .some isSchema (Nat.le_refl _) (Nat.le_refl _)
      refine .bind (.skipped bracedString_eager.orderly) fun _ _ order _ => ?_
      refine .mapped (.symbol _) fun _ close _ ⟨rfl, isClose⟩ role => ?_
      exact .leaf (placed.merge isClose (by omega) (by omega))

theorem mapType_spans {inner : Step TypeName}
    (spans : ∀ index, layout.Spans index inner (layout.Node TypeName.outline index)) :
    layout.Spans index (mapType inner) (layout.Node TypeName.outline index) := by
  refine .bind (.keyword _) fun _ word _ ⟨rfl, isWord⟩ => .bind (.eat _ nofun) fun _ _ order _ => ?_
  refine .ite (fun _ => ?_) fun _ => ?_
  · refine .bind (spans _) fun _ constraint _ isConstraint => ?_
    have less := (isConstraint "").placed.less
    refine .bind (.symbol _) fun _ _ _ ⟨rfl, _⟩ => ?_
    refine .mapped (.spanFrom isWord (by omega)) fun _ span _ ⟨rfl, isSpan⟩ role => ?_
    exact .of_row isSpan (.single (isConstraint _) (by omega) (by omega))
  · exact .mapped (.spanFrom isWord order) fun _ span _ ⟨rfl, isSpan⟩ role => .leaf isSpan

theorem constrainedType_spans {α : Type} {word : Keyword} {constraint : Step (Option α)}
    {outline : String → α → Outline} {make : Option α → Span → TypeName}
    (spans : ∀ index, layout.Spans index constraint (layout.Optional outline index))
    (outlined : ∀ found span role, ∃ data, (make found span).outline role =
      .node role "TypeBuiltIn" span data (Outline.optional outline "constraint" found)) :
    layout.Spans index (constrainedType word constraint make)
      (layout.Node TypeName.outline index) := by
  refine .bind (.keyword _) fun _ word _ ⟨rfl, isWord⟩ => ?_
  refine .bind (spans _) fun _ found order isFound => ?_
  refine .mapped (.spanFrom isWord (by omega)) fun _ span _ ⟨rfl, isSpan⟩ role => ?_
  obtain ⟨data, same⟩ := outlined found span role
  rw [same]
  exact .of_row isSpan ((isFound _).wider (by omega) (Nat.le_refl _))

theorem namedType_spans :
    layout.Spans index namedType (layout.Node TypeName.outline index) := by
  refine .peek fun first isFirst => .bind nameReference_spans fun _ reference _ isReference => ?_
  have placed := (isReference "").placed
  have less := placed.less
  have inside := placed.inside
  refine .mapped (.spanFrom (isFirst (by omega)) (by omega)) fun _ span _ ⟨rfl, isSpan⟩ role => ?_
  exact .of_row isSpan (.single (isReference _) (Nat.le_refl _) (Nat.le_refl _))

theorem simpleType_spans :
    layout.Spans index simpleType (layout.Node TypeName.outline index) := by
  apply Spans.weaken (.takes (fun token type => simpleType? token.span token.kind = some type) ?_)
  · rintro _ type - ⟨rfl, token, isType, placed⟩ role
    unfold simpleType? at isType
    split at isType <;> first | (cases isType; exact .leaf placed) | cases isType
  · intro parser type later ran
    rw [simpleType, look_bind (peek_eq parser)] at ran
    cases isType : simpleType? parser.cursor.peek.span parser.cursor.peek.kind with
    | some found =>
        simp only [isType] at ran
        rw [bind_of_ok (advance_eq parser)] at ran
        cases ran
        exact ⟨(isBarrier_of_simpleType? isType).2, rfl, rfl⟩
    | none =>
        simp only [isType] at ran
        exact absurd ran failAt_ne_ok

theorem baseType_spans {inner : Step TypeName}
    (spans : ∀ index, layout.Spans index inner (layout.Node TypeName.outline index)) :
    layout.Spans index (baseType inner) (layout.Node TypeName.outline index) := by
  refine .current fun kind _ => ?_
  split
  · exact mapType_spans spans
  · exact constrainedType_spans (fun _ => xmlConstraint_spans) fun _ _ _ => ⟨_, rfl⟩
  · exact constrainedType_spans (fun _ => xmlConstraint_spans) fun _ _ _ => ⟨_, rfl⟩
  · exact constrainedType_spans (fun _ => schemaReference_spans) fun _ _ _ => ⟨_, rfl⟩
  · exact namedType_spans
  · exact simpleType_spans

theorem dimensions_spans {first : Nat} {element : TypeName}
    (isElement : layout.Node TypeName.outline first index element) :
    layout.Spans index (dimensions element) (layout.Node TypeName.outline first) := by
  refine .loop isElement fun behind type _ isType => ?_
  refine .check fun _ => .kindNth fun _ => .ite (fun _ => ?_) fun _ => .done isType
  refine .bind (.symbol _) fun _ _ _ ⟨rfl, _⟩ => ?_
  refine .yielded (.symbol _) fun _ close _ ⟨rfl, isClose⟩ role => ?_
  have placed := (isType "").placed
  rw [TypeName.span_outline] at placed
  exact .of_row (placed.merge isClose (by have := placed.less; omega) (by omega))
    (.single (isType _) (Nat.le_refl _) (by omega))

theorem typeName_spans (room : Nat) :
    layout.Spans index (typeName room) (layout.Node TypeName.outline index) := by
  induction room generalizing index with
  | zero => exact .tooDeep
  | succ room ih =>
      exact .bind (baseType_spans fun _ => ih) fun _ _ _ isType => dimensions_spans isType

/-! ### Expressions -/

structure ExprParts.AreSpanned (layout : Layout) (parts : ExprParts) : Prop where
  typeName : ∀ index, layout.Spans index parts.typeName (layout.Node TypeName.outline index)
  expr : ∀ power index, layout.Spans index (parts.expr power) (layout.Node Expr.outline index)

variable {first behind : Nat}

theorem over_type {type : TypeName} (isType : layout.Node TypeName.outline first behind type) :
    layout.Over first behind type.span :=
  type.span_outline "" ▸ (isType "").placed

theorem over_reference {reference : Reference}
    (isReference : layout.Node Reference.outline first behind reference) :
    layout.Over first behind reference.span :=
  reference.span_outline "" ▸ (isReference "").placed

theorem over_expr {expr : Expr} (isExpr : layout.Node Expr.outline first behind expr) :
    layout.Over first behind expr.span :=
  expr.span_outline "" ▸ (isExpr "").placed

theorem expr_row {exprs : List Expr} (nodes : layout.Nodes Expr.outline first behind exprs)
    (role : String) : layout.Row first behind (Expr.outlines role exprs) :=
  Expr.outlines_eq role exprs ▸ nodes role

theorem isLiteral {literal : Literal} (placed : layout.Over first behind literal.span) :
    layout.Node Literal.outline first behind literal := by
  intro role
  obtain ⟨value, negative, span⟩ := literal
  cases value <;> exact .leaf placed

theorem literalOf_ne_ok {token : Token} {parser later : Parser} {literal : Literal}
    (ends : token.kind = .endOfFile) : literalOf token parser ≠ .ok literal later := by
  rw [literalOf, literalValue?, ends]
  exact fail_ne_ok

theorem literalOf_spans (token : Token) :
    layout.Spans index (literalOf token) fun behind literal =>
      behind = index ∧ literal.span = token.span := by
  unfold literalOf
  split
  · exact .pure ⟨rfl, rfl⟩
  · exact .fail _

section Parts

variable {parts : ExprParts} (spanned : parts.AreSpanned layout)

include spanned

theorem anyExpr_spans : layout.Spans index parts.anyExpr (layout.Node Expr.outline index) :=
  spanned.expr 0 index

theorem expressions_spans :
    layout.Spans index (expressions parts) (layout.Nodes Expr.outline index) :=
  .commaSeparated fun _ => anyExpr_spans spanned

theorem condition_spans : layout.Spans index (condition parts) fun behind expr =>
    ∃ last, behind = last + 1 ∧ layout.Node Expr.outline (index + 1) last expr := by
  refine .bind (.symbol _) fun _ _ _ ⟨rfl, _⟩ => ?_
  refine .bind (anyExpr_spans spanned) fun last expr _ isExpr => ?_
  exact .mapped (.symbol _) fun _ _ _ ⟨isBehind, _⟩ => ⟨last, isBehind, isExpr⟩

theorem arguments_spans : layout.Spans index (arguments parts) fun behind found =>
    ∃ last, index + 1 ≤ last ∧ behind = last + 1 ∧
      layout.Nodes Expr.outline (index + 1) last found.1 ∧ layout.Over last behind found.2 := by
  refine .bind (.symbol _) fun _ _ _ ⟨rfl, _⟩ => ?_
  refine .mapped (.closedList fun _ => anyExpr_spans spanned) fun _ found _ isFound => ?_
  obtain ⟨last, order, isBehind, nodes, placed⟩ := isFound
  exact ⟨last, order, isBehind, nodes, placed⟩

/-! ### References -/

section Suffixes

variable {base : Reference} (isBase : layout.Node Reference.outline first index base)

include isBase

theorem indexSuffix_spans :
    layout.Spans index (indexSuffix parts base) (layout.Node Reference.outline first) := by
  have less := (isBase "").placed.less
  refine .bind (.symbol _) fun _ _ _ ⟨rfl, _⟩ => ?_
  refine .bind (anyExpr_spans spanned) fun last position order isPosition => ?_
  refine .mapped (.symbol _) fun _ close _ ⟨rfl, isClose⟩ role => ?_
  exact .of_row ((over_reference isBase).merge isClose (by omega) (by omega))
    (.cons (isBase _) (Nat.le_refl _) (.single (isPosition _) (by omega) (by omega)))

omit spanned in
theorem fieldSuffix_spans :
    layout.Spans index (fieldSuffix base) (layout.Node Reference.outline first) := by
  have less := (isBase "").placed.less
  refine .bind (.symbol _) fun _ _ _ ⟨rfl, _⟩ => ?_
  refine .mapped .identifier fun _ member _ ⟨rfl, isMember⟩ role => ?_
  exact .of_row ((over_reference isBase).merge (isMember "").placed (by omega) (by omega))
    (.cons (isBase _) (Nat.le_refl _) (.single (isMember _) (by omega) (Nat.le_refl _)))

theorem attributeSuffix_spans :
    layout.Spans index (attributeSuffix parts base) (layout.Node Reference.outline first) := by
  have less := (isBase "").placed.less
  refine .bind (.symbol _) fun _ sign _ ⟨rfl, isSign⟩ => .current fun kind _ => ?_
  split
  · refine .mapped .identifier fun _ name _ ⟨rfl, isName⟩ role => ?_
    exact .of_row ((over_reference isBase).merge (isName "").placed (by omega) (by omega))
      (.cons (isBase _) (Nat.le_refl _) (.single (isName _) (by omega) (Nat.le_refl _)))
  · refine .bind (.symbol _) fun _ _ _ ⟨rfl, _⟩ => ?_
    refine .bind (anyExpr_spans spanned) fun last selector order isSelector => ?_
    refine .mapped (.symbol _) fun _ close _ ⟨rfl, isClose⟩ role => ?_
    exact .of_row ((over_reference isBase).merge isClose (by omega) (by omega))
      (.cons (isBase _) (Nat.le_refl _) (.single (isSelector _) (by omega) (by omega)))
  · refine .pure fun role => ?_
    exact .of_row ((over_reference isBase).merge isSign (by omega) (by omega))
      (.single (isBase _) (Nat.le_refl _) (by omega))

theorem suffixes_spans :
    layout.Spans index (suffixes parts base) (layout.Node Reference.outline first) := by
  refine .loop isBase fun behind base _ isBase => .current fun kind _ => ?_
  split
  · exact .yielded (indexSuffix_spans spanned isBase) fun _ _ _ isNext => isNext
  · exact .yielded (fieldSuffix_spans isBase) fun _ _ _ isNext => isNext
  · exact .yielded (attributeSuffix_spans spanned isBase) fun _ _ _ isNext => isNext
  · exact .done isBase

end Suffixes

omit spanned in
theorem isName {name : NameReference} (node : layout.Node NameReference.outline first behind name) :
    layout.Node Reference.outline first behind (.name name) :=
  fun _ => .of_row (node "").placed (.single (node _) (Nat.le_refl _) (Nat.le_refl _))

theorem reference_spans :
    layout.Spans index (reference parts) (layout.Node Reference.outline index) :=
  .bind nameReference_spans fun _ _ _ node => suffixes_spans spanned (isName node)

theorem references_spans :
    layout.Spans index (references parts) (layout.Nodes Reference.outline index) :=
  .commaSeparated fun _ => reference_spans spanned

/-! ### Primary expressions -/

theorem typeMember_spans :
    layout.Spans index (typeMember parts) (layout.Node Expr.outline index) := by
  refine .bind (baseType_spans spanned.typeName) fun _ type _ isType => ?_
  have less := (isType "").placed.less
  refine .bind (.symbol _) fun _ _ _ ⟨rfl, _⟩ => ?_
  refine .mapped .identifier fun _ member _ ⟨rfl, isMember⟩ role => ?_
  exact .of_row ((over_type isType).merge (isMember "").placed (by omega) (by omega))
    (.cons (isType _) (Nat.le_refl _) (.single (isMember _) (by omega) (Nat.le_refl _)))

theorem arrayLiteral_spans :
    layout.Spans index (arrayLiteral parts) (layout.Node Expr.outline index) := by
  refine .bind (.symbol _) fun _ _ _ ⟨rfl, isOpen⟩ => ?_
  refine .mapped (.closedList fun _ => anyExpr_spans spanned) fun _ found _ isFound role => ?_
  obtain ⟨last, order, rfl, nodes, isClose⟩ := isFound
  exact .of_row (isOpen.merge isClose (by omega) (by omega))
    ((expr_row nodes _).wider (by omega) (by omega))

omit spanned in
theorem nameKey_spans : layout.Spans index nameKey (layout.Node Expr.outline index) := by
  refine .mapped .identifier fun _ name _ ⟨rfl, node⟩ role => ?_
  refine isName (fun _ => ?_) role
  exact .of_row (node "").placed (.single (node _) (Nat.le_refl _) (Nat.le_refl _))

theorem mapEntry_spans :
    layout.Spans index (mapEntry parts) (layout.Node MapEntry.outline index) := by
  have isKey : layout.Spans index (mapKey parts) (layout.Node Expr.outline index) :=
    .check fun _ => .kindNth fun _ =>
      .ite (fun _ => nameKey_spans) fun _ => anyExpr_spans spanned
  refine .bind isKey fun _ key _ isKey => ?_
  have less := (isKey "").placed.less
  refine .bind (.symbol _) fun _ _ _ ⟨rfl, _⟩ => ?_
  refine .mapped (anyExpr_spans spanned) fun _ value _ isValue role => ?_
  exact .of_row ((over_expr isKey).merge (over_expr isValue) (by omega) (by omega))
    (.cons (isKey _) (Nat.le_refl _) (.single (isValue _) (by omega) (Nat.le_refl _)))

theorem mapLiteral_spans :
    layout.Spans index (mapLiteral parts) (layout.Node Expr.outline index) := by
  refine .bind (.symbol _) fun _ _ _ ⟨rfl, isOpen⟩ => ?_
  refine .mapped (.closedList fun _ => mapEntry_spans spanned) fun _ found _ isFound role => ?_
  obtain ⟨last, order, rfl, nodes, isClose⟩ := isFound
  have isRow := nodes "entry"
  rw [← MapEntry.outlines_eq] at isRow
  exact .of_row (isOpen.merge isClose (by omega) (by omega))
    (isRow.wider (by omega) (by omega))

theorem named_spans : layout.Spans index (named parts) (layout.Node Expr.outline index) := by
  refine .bind nameReference_spans fun _ name _ node => ?_
  have less := (node "").placed.less
  refine .check fun _ => .ite (fun _ => ?_) fun _ => ?_
  · refine .mapped (arguments_spans spanned) fun _ found _ isFound role => ?_
    obtain ⟨last, order, rfl, nodes, isClose⟩ := isFound
    exact .of_row ((node "").placed.merge isClose (by omega) (by omega))
      (.cons (node _) (Nat.le_refl _) ((expr_row nodes _).wider (by omega) (by omega)))
  · exact .mapped (suffixes_spans spanned (isName node)) fun _ _ _ isReference => isReference

omit spanned in
theorem plainLiteral_spans : layout.Spans index plainLiteral (layout.Node Expr.outline index) := by
  refine .advance (fun ends ran => ?_) fun token placed => ?_
  · obtain ⟨literal, later, ran, -⟩ := bind_ok ran
    exact literalOf_ne_ok ends ran
  · apply Spans.mapped (literalOf_spans token)
    rintro behind literal - ⟨rfl, sameSpan⟩
    exact isLiteral (sameSpan ▸ placed)

omit spanned in
theorem template_spans : layout.Spans index template (layout.Node Expr.outline index) :=
  .mapped (.expect _ nofun) fun _ _ _ ⟨_, placed⟩ _ => .leaf placed

theorem primary_spans : layout.Spans index (primary parts) (layout.Node Expr.outline index) := by
  refine .peek fun token _ => ?_
  split
  · exact plainLiteral_spans
  · exact plainLiteral_spans
  · exact plainLiteral_spans
  · exact plainLiteral_spans
  · exact plainLiteral_spans
  · exact template_spans
  · exact arrayLiteral_spans spanned
  · exact mapLiteral_spans spanned
  · exact named_spans spanned
  · exact .fail _
  · exact .ite (fun _ => typeMember_spans spanned) fun _ => .failAt _

/-! ### Forms with an operator in front -/

theorem typedOperand_spans {start stop : Symbol} {power : Nat} {make : TypeName → Expr → Span → Expr}
    (outlined : ∀ target operand span role, ∃ kind, (make target operand span).outline role =
      .node role kind span [] [target.outline "type", operand.outline "operand"]) :
    layout.Spans index (do
      let open_ ← expectSymbol start
      let target ← parts.typeName
      let _ ← expectSymbol stop
      let operand ← parts.expr power
      return make target operand (open_.span.merge operand.span))
      (layout.Node Expr.outline index) := by
  refine .bind (.symbol _) fun _ _ _ ⟨rfl, isOpen⟩ => ?_
  refine .bind (spanned.typeName _) fun _ target _ isTarget => ?_
  have less := (isTarget "").placed.less
  refine .bind (.symbol _) fun _ _ _ ⟨rfl, _⟩ => ?_
  refine .mapped (spanned.expr _ _) fun _ operand _ isOperand role => ?_
  have lessOperand := (isOperand "").placed.less
  obtain ⟨kind, same⟩ := outlined target operand _ role
  rw [same]
  exact .of_row (isOpen.merge (over_expr isOperand) (by omega) (by omega))
    (.cons (isTarget _) (by omega) (.single (isOperand _) (by omega) (Nat.le_refl _)))

theorem castForm_spans :
    layout.Spans index (castForm parts) (layout.Node Expr.outline index) :=
  typedOperand_spans spanned fun _ _ _ _ => ⟨_, rfl⟩

theorem convertForm_spans :
    layout.Spans index (convertForm parts) (layout.Node Expr.outline index) :=
  typedOperand_spans spanned fun _ _ _ _ => ⟨_, rfl⟩

theorem parenForm_spans :
    layout.Spans index (parenForm parts) (layout.Node Expr.outline index) := by
  refine .bind (.symbol _) fun _ _ _ ⟨rfl, isOpen⟩ => ?_
  refine .bind (anyExpr_spans spanned) fun _ inner _ isInner => ?_
  have less := (isInner "").placed.less
  refine .mapped (.symbol _) fun _ close _ ⟨rfl, isClose⟩ role => ?_
  exact .of_row (isOpen.merge isClose (by omega) (by omega))
    (.single (isInner _) (by omega) (by omega))

theorem unaryForm_spans (operator : UnaryOperator) :
    layout.Spans index (unaryForm parts operator) (layout.Node Expr.outline index) := by
  refine .bind (.symbol _) fun _ sign _ ⟨rfl, isSign⟩ => ?_
  refine .mapped (spanned.expr _ _) fun _ operand _ isOperand role => ?_
  have less := (isOperand "").placed.less
  exact .of_row (isSign.merge (over_expr isOperand) (by omega) (by omega))
    (.single (isOperand _) (by omega) (Nat.le_refl _))

omit spanned in
/-- The sign in front belongs to the literal, so its span goes from there on. -/
theorem negativeLiteral_spans :
    layout.Spans index negativeLiteral (layout.Node Literal.outline index) := by
  refine .bind (.symbol _) fun _ sign _ ⟨rfl, isSign⟩ => ?_
  refine .advance (fun ends ran => ?_) fun number isNumber => ?_
  · obtain ⟨literal, later, ran, -⟩ := bind_ok ran
    exact literalOf_ne_ok ends ran
  · apply Spans.mapped (literalOf_spans number)
    rintro behind literal - ⟨rfl, -⟩
    exact isLiteral (isSign.merge isNumber (by omega) (by omega))

theorem operand_spans : layout.Spans index (operand parts) (layout.Node Expr.outline index) := by
  refine .look _ startsNegativeLiteral_eq fun _ _ => .ite (fun _ => ?_) fun _ => ?_
  · exact .mapped negativeLiteral_spans fun _ _ _ isLiteral => isLiteral
  · refine .current fun kind _ => ?_
    split
    · exact unaryForm_spans spanned _
    · split
      · exact convertForm_spans spanned
      · exact .look _ isCast_eq fun _ _ =>
          .ite (fun _ => castForm_spans spanned) fun _ => parenForm_spans spanned
      · exact primary_spans spanned

/-! ### Binary operators -/

theorem binaryForm_spans {operator : BinaryOperator} {left : Expr}
    (isLeft : layout.Node Expr.outline first index left) :
    layout.Spans index (binaryForm parts operator left) (layout.Node Expr.outline first) := by
  have less := (isLeft "").placed.less
  refine .bind (.symbol _) fun _ _ _ ⟨rfl, _⟩ => ?_
  refine .mapped (spanned.expr _ _) fun _ right _ isRight role => ?_
  have lessRight := (isRight "").placed.less
  exact .of_row ((over_expr isLeft).merge (over_expr isRight) (by omega) (by omega))
    (.cons (isLeft _) (Nat.le_refl _) (.single (isRight _) (by omega) (Nat.le_refl _)))

theorem operation_spans (power : Nat) :
    layout.Spans index (operation parts power) (layout.Node Expr.outline index) := by
  refine .bind (operand_spans spanned) fun _ left _ isLeft => ?_
  refine .loop isLeft fun behind left _ isLeft => .current fun kind _ => ?_
  split
  · exact .done isLeft
  · exact .ite (fun _ => .done isLeft) fun _ =>
      .yielded (binaryForm_spans spanned isLeft) fun _ _ _ isNext => isNext

omit spanned in
theorem within_areSpanned (room : Nat) : (ExprParts.within room).AreSpanned layout := by
  refine ⟨fun _ => typeName_spans room, ?_⟩
  induction room with
  | zero => exact fun _ _ => .tooDeep
  | succ room ih =>
      exact fun power _ => operation_spans ⟨fun _ => typeName_spans room, ih⟩ power

/-! ### Initializers -/

theorem creation_spans : layout.Spans index (creation parts) (layout.Node Expr.outline index) := by
  refine .bind (.keyword _) fun _ word _ ⟨rfl, isWord⟩ => ?_
  refine .bind nameReference_spans fun _ connector _ isConnector => ?_
  have less := (isConnector "").placed.less
  refine .mapped (arguments_spans spanned) fun _ found _ isFound role => ?_
  obtain ⟨last, order, rfl, nodes, isClose⟩ := isFound
  exact .of_row (isWord.merge isClose (by omega) (by omega))
    (.cons (isConnector _) (by omega) ((expr_row nodes _).wider (by omega) (by omega)))

theorem invocation_spans : layout.Spans index (invocation parts)
    fun behind found => layout.Node Expr.outline index behind
      (.invoke found.1 found.2.1 found.2.2.1 found.2.2.2) := by
  refine .bind nameReference_spans fun _ connector _ isConnector => ?_
  have less := (isConnector "").placed.less
  refine .bind (.symbol _) fun _ _ _ ⟨rfl, _⟩ => ?_
  refine .bind .identifier fun _ action _ ⟨rfl, isAction⟩ => ?_
  refine .mapped (arguments_spans spanned) fun _ found _ isFound role => ?_
  obtain ⟨last, order, rfl, nodes, isClose⟩ := isFound
  exact .of_row ((isConnector "").placed.merge isClose (by omega) (by omega))
    (.cons (isConnector _) (Nat.le_refl _) (.cons (isAction _) (by omega)
      ((expr_row nodes _).wider (by omega) (by omega))))

theorem initializer_spans :
    layout.Spans index (initializer parts) (layout.Node Expr.outline index) := by
  refine .check fun _ => .ite (fun _ => creation_spans spanned) fun _ => ?_
  refine .look _ isInvocation_eq fun _ _ => .ite (fun _ => ?_) fun _ => anyExpr_spans spanned
  exact .mapped (invocation_spans spanned) fun _ _ _ isInvocation => isInvocation

end Parts

end ServiceLang.Grammar
