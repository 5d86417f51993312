import ServiceLang.Grammar.Expr
import ServiceLang.Proofs.MarginsStep

set_option autoImplicit false

/-! The rules for type names and expressions read the same with some levels more, unless they
are refused one. The error about a target is at an expression that has been passed over, so it
is shown of expressions that they start in front of where reading goes on. -/

namespace ServiceLang.Grammar

open Step Margins

variable {margins : Margins} {place : Cursor} {footing : Footing}

/-! ### Type names -/

theorem nameReference_same : margins.SameNode NameReference.span nameReference nameReference :=
  fun _ => .bindWith .identifier fun _ _ _ behind =>
    .look (sees_check _) <| .look (sees_kindNth 1) <| .ite
      (fun _ => .bind (.symbol _) fun _ _ => Inner.identifier.mapped fun _ _ known =>
        start_merge_lt known)
      fun _ => .pure behind

theorem bracedString_same : margins.Same bracedString bracedString :=
  fun _ => .bind (.symbol _) fun _ _ => .bind (.expect _ nofun nofun) fun _ _ =>
    (Inner.symbol _).mapped fun _ _ _ => trivial

theorem xmlConstraintBehind_same (start : Token) :
    margins.Same (xmlConstraintBehind start) (xmlConstraintBehind start) :=
  fun _ => .bind (.ifAt _ fun _ => bracedString_same _) fun _ _ => .bind .identifier fun _ _ =>
    (Inner.symbol _).mapped fun _ _ _ => trivial

theorem xmlConstraint_same : margins.Same xmlConstraint xmlConstraint := by
  refine fun _ => .bind (.eat? _ nofun) fun there found => ?_
  cases found with
  | none => exact .pure trivial
  | some start => exact (xmlConstraintBehind_same start there).mapped fun _ _ _ => trivial

theorem schemaBehind_same (start : Token) :
    margins.Same (schemaBehind start) (schemaBehind start) :=
  fun _ => .bind (bracedString_same _) fun _ _ => (Inner.symbol _).mapped fun _ _ _ => trivial

theorem schemaReference_same : margins.Same schemaReference schemaReference := by
  refine fun _ => .bind (.eat? _ nofun) fun there found => ?_
  cases found with
  | none => exact .pure trivial
  | some start => exact (schemaBehind_same start there).mapped fun _ _ _ => trivial

theorem mapType_same {inner deeper : Step TypeName} (same : margins.Same inner deeper) :
    margins.Same (mapType inner) (mapType deeper) :=
  fun _ => .bind (.keyword nofun) fun _ _ => .bind (.eat _ nofun) fun _ _ => .ite
    (fun _ => .bind (same _) fun _ _ => .bind (.symbol _) fun _ _ => .spanned _ trivial)
    fun _ => .spanned _ trivial

theorem constrainedType_same {α : Type} {word : Keyword} {constraint : Step (Option α)}
    {make : Option α → Span → TypeName} (notNative : word ≠ .nativeKw)
    (same : margins.Same constraint constraint) :
    margins.Same (constrainedType word constraint make) (constrainedType word constraint make) :=
  fun _ => .bind (.keyword notNative) fun _ _ => .bind (same _) fun _ _ => .spanned _ trivial

theorem namedType_same (notEnd : place.peek.kind ≠ .endOfFile) :
    margins.Inner place .firm namedType namedType Anything :=
  .peekInside notEnd <| .bind (nameReference_same _) fun _ _ => .spanned _ trivial

theorem simpleType_same : margins.Same simpleType simpleType := by
  refine fun place => .peek fun other tokens => ?_
  by_cases atEnd : place.peek.kind = .endOfFile
  · rw [tokens.kind, atEnd]
    exact .failAt .expectedType fun kind => Diagnostic.wantedFound "type name" kind.description
  · rw [tokens.same atEnd]
    split
    · exact (Inner.advanceInside atEnd (.inl rfl)).bind fun _ _ => .pure trivial
    · exact .failAt .expectedType fun kind => Diagnostic.wantedFound "type name" kind.description

theorem baseType_same {inner deeper : Step TypeName} (same : margins.Same inner deeper) :
    margins.Same (baseType inner) (baseType deeper) := by
  refine fun place => .look sees_current ?_
  generalize known : place.peek.kind = kind
  split
  · exact mapType_same same place
  · exact constrainedType_same (by nofun) xmlConstraint_same place
  · exact constrainedType_same (by nofun) xmlConstraint_same place
  · exact constrainedType_same (by nofun) schemaReference_same place
  · exact namedType_same (known ▸ nofun)
  · exact simpleType_same place

theorem dimension_same (type : TypeName) :
    margins.Same (dimension type) (dimension type) :=
  fun _ => .look (sees_check _) <| .look (sees_kindNth 1) <| .ite
    (fun _ => .bind (.symbol _) fun _ _ => (Inner.symbol _).mapped fun _ _ _ => trivial)
    fun _ => .pure trivial

theorem dimensions_same (type : TypeName) :
    margins.Same (dimensions type) (dimensions type) :=
  fun _ => .loopFirm (fun there state _ => dimension_same state there) trivial

/-- Only a type name that is refused a level can be read otherwise with some levels more. -/
theorem typeName_same (room : Nat) :
    margins.Same (typeName room) (typeName (room + margins.extra)) := by
  induction room with
  | zero =>
      refine fun place => .tooDeep (.inl rfl) fun alike => ?_
      rw [alike]
      rfl
  | succ room ih =>
      rw [Nat.succ_add]
      exact fun place => .bind (baseType_same ih place) fun there type => dimensions_same type there

/-! ### Expressions -/

structure ExprParts.AreSame (margins : Margins) (parts deeper : ExprParts) : Prop where
  typeName : margins.Same parts.typeName deeper.typeName
  expr : ∀ power, margins.SameNode Expr.span (parts.expr power) (deeper.expr power)

theorem literalOf_same {token : Token} (order : token.span.start ≤ place.offset)
    (inside : token.span.start < place.offset ∨ place.peek.kind ≠ .endOfFile) :
    margins.Inner place .firm (literalOf token) (literalOf token)
      fun there literal => literal.span = token.span ∧ there = place := by
  rw [literalOf]
  split
  · exact .pure ⟨rfl, rfl⟩
  · exact .failInside rfl order inside

/-- There is no literal at the end. -/
theorem literalOf_end {other : Token} (atEnd : place.peek.kind = .endOfFile)
    (tokens : margins.Tokens place.peek other) :
    margins.Inner place .firm (literalOf place.peek) (literalOf other) fun _ _ => False := by
  rw [literalOf, literalOf, literalValue?, literalValue?, tokens.kind, atEnd]
  exact .fail (tokens.spans.error _ _) (.upTo (Nat.le_refl _))

section Parts

variable {parts deeper : ExprParts} (same : parts.AreSame margins deeper)

include same

theorem anyExpr_same : margins.SameNode Expr.span parts.anyExpr deeper.anyExpr :=
  same.expr 0

theorem expressions_same (place : Cursor) :
    margins.Inner place .firm (expressions parts) (expressions deeper)
      fun last list => ∀ expr ∈ list, expr.span.start < last.offset :=
  .commaSeparated (fun _ _ _ onwards behind => Nat.lt_of_lt_of_le behind onwards.offset)
    (anyExpr_same same)

theorem condition_same : margins.Same (condition parts) (condition deeper) :=
  fun _ => .bind (.symbol _) fun _ _ => .bind (anyExpr_same same _) fun _ _ =>
    (Inner.symbol _).mapped fun _ _ _ => trivial

theorem arguments_same : margins.SameNode Prod.snd (arguments parts) (arguments deeper) :=
  fun _ => .bind (.symbol _) fun _ _ =>
    (Inner.closedList _ (anyExpr_same same)).mapped fun _ _ behind => behind

/-! ### References -/

theorem indexSuffix_same (base : Reference) :
    margins.SameNode Reference.span (indexSuffix parts base) (indexSuffix deeper base) :=
  fun _ => .bind (.symbol _) fun _ _ => .bind (anyExpr_same same _) fun _ _ =>
    (Inner.symbol _).mapped fun _ _ behind => start_merge_lt behind

omit same in
theorem fieldSuffix_same (base : Reference) :
    margins.SameNode Reference.span (fieldSuffix base) (fieldSuffix base) :=
  fun _ => .bind (.symbol _) fun _ _ =>
    Inner.identifier.mapped fun _ _ behind => start_merge_lt behind

theorem attributeSelector_same (base : Reference) {sign : Token}
    (known : sign.span.start < place.offset) :
    margins.Inner place .firm (attributeSelector parts base sign)
      (attributeSelector deeper base sign) (Behind Reference.span) := by
  refine .look sees_current ?_
  split
  · exact Inner.identifier.mapped fun _ _ behind => start_merge_lt behind
  · exact .bind (.symbol _) fun _ _ => .bind (anyExpr_same same _) fun _ _ =>
      (Inner.symbol _).mapped fun _ _ behind => start_merge_lt behind
  · exact .pure (start_merge_lt known)

theorem attributeSuffix_same (base : Reference) :
    margins.SameNode Reference.span (attributeSuffix parts base) (attributeSuffix deeper base) :=
  fun _ => .bindWith (.symbol _) fun _ _ _ behind => attributeSelector_same same base behind

theorem suffix_same {base : Reference} (known : base.span.start < place.offset) :
    margins.Inner place .firm (suffix parts base) (suffix deeper base)
      fun last decision => Behind Reference.span last decision.value := by
  refine .look sees_current ?_
  split
  · exact (indexSuffix_same same base _).mapped fun _ _ behind => behind
  · exact (fieldSuffix_same base _).mapped fun _ _ behind => behind
  · exact (attributeSuffix_same same base _).mapped fun _ _ behind => behind
  · exact .pure known

theorem suffixes_same {base : Reference} (known : base.span.start < place.offset) :
    margins.Inner place .firm (suffixes parts base) (suffixes deeper base)
      (Behind Reference.span) :=
  .loopFirm (fun _ _ known => suffix_same same known) known

theorem reference_same : margins.SameNode Reference.span (reference parts) (reference deeper) :=
  fun _ => .bindWith (nameReference_same _) fun _ _ _ behind => suffixes_same same behind

theorem references_same : margins.Same (references parts) (references deeper) :=
  fun _ => .list (reference_same same)

/-! ### Primary expressions -/

theorem typeMember_same : margins.SameNode Expr.span (typeMember parts) (typeMember deeper) :=
  fun _ => .bind (baseType_same same.typeName _) fun _ _ => .bind (.symbol _) fun _ _ =>
    Inner.identifier.mapped fun _ _ behind => start_merge_lt behind

theorem arrayLiteral_same :
    margins.SameNode Expr.span (arrayLiteral parts) (arrayLiteral deeper) :=
  fun _ => .bind (.symbol _) fun _ _ =>
    (Inner.closedList _ (anyExpr_same same)).mapped fun _ _ behind => start_merge_lt behind

omit same in
theorem nameKey_same : margins.SameNode Expr.span nameKey nameKey :=
  fun _ => Inner.identifier.mapped fun _ _ behind => behind

theorem mapKey_same : margins.SameNode Expr.span (mapKey parts) (mapKey deeper) :=
  fun _ => .look (sees_check _) <| .look (sees_kindNth 1) <|
    .ite (fun _ => nameKey_same _) fun _ => anyExpr_same same _

theorem mapEntry_same : margins.Same (mapEntry parts) (mapEntry deeper) :=
  fun _ => .bind (mapKey_same same _) fun _ _ => .bind (.symbol _) fun _ _ =>
    (anyExpr_same same _).mapped fun _ _ _ => trivial

theorem mapLiteral_same : margins.SameNode Expr.span (mapLiteral parts) (mapLiteral deeper) :=
  fun _ => .bind (.symbol _) fun _ _ =>
    (Inner.closedList _ (mapEntry_same same)).mapped fun _ _ behind => start_merge_lt behind

theorem named_same : margins.SameNode Expr.span (named parts) (named deeper) :=
  fun _ => .bindWith (nameReference_same _) fun there name _ behind => .look (sees_check _) <| .ite
    (fun _ => (arguments_same same _).mapped fun _ _ known => start_merge_lt known)
    fun _ => (suffixes_same same (show Behind Reference.span there (.name name) from behind)).mapped
      fun _ _ known => known

omit same in
theorem plainLiteral_same (notEnd : place.peek.kind ≠ .endOfFile) :
    margins.Inner place .firm plainLiteral plainLiteral (Behind Expr.span) := by
  refine (Inner.advanceInside notEnd (.inl rfl)).bindWith fun there token _ passed => ?_
  obtain ⟨rfl, -, behind⟩ := passed
  refine (literalOf_same (Nat.le_of_lt behind) (.inl behind)).mapped fun last literal known => ?_
  obtain ⟨span, rfl⟩ := known
  rw [Behind, Expr.span, span]
  exact behind

omit same in
theorem template_same : margins.SameNode Expr.span template template :=
  fun _ => (Inner.expect _ (by nofun) (by nofun)).mapped fun _ _ behind => behind

theorem primary_same : margins.SameNode Expr.span (primary parts) (primary deeper) := by
  refine fun place => .peek fun other tokens => ?_
  by_cases atEnd : place.peek.kind = .endOfFile
  · rw [tokens.kind, atEnd]
    exact .failAt .expectedExpression fun kind =>
      Diagnostic.wantedFound "expression" kind.description
  rw [tokens.same atEnd]
  split
  · exact plainLiteral_same atEnd
  · exact plainLiteral_same atEnd
  · exact plainLiteral_same atEnd
  · exact plainLiteral_same atEnd
  · exact plainLiteral_same atEnd
  · exact template_same place
  · exact arrayLiteral_same same place
  · exact mapLiteral_same same place
  · exact named_same same place
  · exact .failInside rfl (Nat.le_refl _) (.inr atEnd)
  · exact .ite (fun _ => typeMember_same same place) fun _ =>
      .failAt .expectedExpression fun kind => Diagnostic.wantedFound "expression" kind.description

/-! ### Forms with an operator in front -/

theorem castForm_same : margins.SameNode Expr.span (castForm parts) (castForm deeper) :=
  fun _ => .bind (.symbol _) fun _ _ => .bind (same.typeName _) fun _ _ =>
    .bind (.symbol _) fun _ _ => (same.expr _ _).mapped fun _ _ behind => start_merge_lt behind

theorem convertForm_same : margins.SameNode Expr.span (convertForm parts) (convertForm deeper) :=
  fun _ => .bind (.symbol _) fun _ _ => .bind (same.typeName _) fun _ _ =>
    .bind (.symbol _) fun _ _ => (same.expr _ _).mapped fun _ _ behind => start_merge_lt behind

theorem parenForm_same : margins.SameNode Expr.span (parenForm parts) (parenForm deeper) :=
  fun _ => .bind (.symbol _) fun _ _ => .bind (anyExpr_same same _) fun _ _ =>
    (Inner.symbol _).mapped fun _ _ behind => start_merge_lt behind

omit same in
/-- What looks like a number behind the sign is read as one, or is the end. -/
theorem negativeLiteral_same :
    margins.SameNode Literal.span negativeLiteral negativeLiteral := by
  refine fun _ => .bind (.symbol _) fun there _ => .advance (fun _ last behind => ?_)
    fun atEnd other tokens => (literalOf_end atEnd tokens).bindWith fun _ _ _ none => none.elim
  refine (literalOf_same (Nat.le_of_lt behind) (.inl behind)).mapped fun final literal known => ?_
  obtain ⟨-, rfl⟩ := known
  exact start_merge_lt behind

omit same in
theorem startsNegativeLiteral_sees :
    margins.Sees place startsNegativeLiteral
      (place.peek.kind == .symbol .minus && (place.peekNth 1).kind.isNumber) := by
  intro parser other twins known
  obtain ⟨left, right⟩ := sees_check (.symbol .minus) twins known
  obtain ⟨left', right'⟩ := sees_kindNth 1 twins known
  rw [startsNegativeLiteral, look_bind left, look_bind right, look_bind left', look_bind right']
  exact ⟨rfl, rfl⟩

theorem unaryForm_same (operator : UnaryOperator) :
    margins.SameNode Expr.span (unaryForm parts operator) (unaryForm deeper operator) :=
  fun _ => .bind (.symbol _) fun _ _ =>
    (same.expr _ _).mapped fun _ _ behind => start_merge_lt behind

theorem castOrParen_same : margins.SameNode Expr.span (castOrParen parts) (castOrParen deeper) :=
  fun _ => .look sees_isCast (.ite (fun _ => castForm_same same _) fun _ => parenForm_same same _)

theorem operand_same : margins.SameNode Expr.span (operand parts) (operand deeper) := by
  refine fun place => .look startsNegativeLiteral_sees <| .ite
    (fun _ => (negativeLiteral_same place).mapped fun _ _ behind => behind)
    fun _ => .look sees_current ?_
  split
  · exact unaryForm_same same _ place
  · split
    · exact convertForm_same same place
    · exact castOrParen_same same place
    · exact primary_same same place

/-! ### Binary operators -/

theorem binaryForm_same (operator : BinaryOperator) (first : Expr) :
    margins.SameNode Expr.span (binaryForm parts operator first)
      (binaryForm deeper operator first) :=
  fun _ => .bind (.symbol _) fun _ _ =>
    (same.expr _ _).mapped fun _ _ behind => start_merge_lt behind

theorem extend_same (power : Nat) {first : Expr} (known : first.span.start < place.offset) :
    margins.Inner place .firm (extend parts power first) (extend deeper power first)
      fun last decision => Behind Expr.span last decision.value := by
  refine .look sees_current ?_
  split
  · exact .pure known
  · exact .ite (fun _ => .pure known) fun _ =>
      (binaryForm_same same _ first _).mapped fun _ _ behind => behind

theorem operation_same (power : Nat) :
    margins.SameNode Expr.span (operation parts power) (operation deeper power) :=
  fun _ => .bindWith (operand_same same _) fun _ _ _ behind =>
    .loopFirm (fun _ _ known => extend_same same power known) behind

/-! ### Initializers -/

theorem creation_same : margins.Same (creation parts) (creation deeper) :=
  fun _ => .bind (.keyword nofun) fun _ _ => .bind (nameReference_same _) fun _ _ =>
    (arguments_same same _).mapped fun _ _ _ => trivial

theorem invocation_same : margins.Same (invocation parts) (invocation deeper) :=
  fun _ => .bind (nameReference_same _) fun _ _ => .bind (.symbol _) fun _ _ =>
    .bind .identifier fun _ _ => (arguments_same same _).mapped fun _ _ _ => trivial

theorem initializer_same : margins.Same (initializer parts) (initializer deeper) :=
  fun _ => .look (sees_check _) <| .ite (fun _ => creation_same same _) fun _ =>
    .look sees_isInvocation <| .ite
      (fun _ => (invocation_same same _).mapped fun _ _ _ => trivial)
      fun _ => (anyExpr_same same _).weaken fun _ _ _ => trivial

end Parts

/-- Only an expression that is refused a level can be read otherwise with some levels more. -/
theorem expr_same (room power : Nat) :
    margins.SameNode Expr.span (expr room power) (expr (room + margins.extra) power) := by
  induction room generalizing power with
  | zero =>
      refine fun place => .tooDeep (.inl rfl) fun alike => ?_
      rw [alike]
      rfl
  | succ room ih =>
      rw [Nat.succ_add]
      exact operation_same ⟨typeName_same room, ih⟩ power

theorem ExprParts.within_areSame (room : Nat) :
    (ExprParts.within room).AreSame margins (.within (room + margins.extra)) :=
  ⟨typeName_same room, expr_same room⟩

end ServiceLang.Grammar
