import ServiceLang.Proofs.Giving
import ServiceLang.Proofs.OrderlyExpr
import ServiceLang.Tree.WellFormed

set_option autoImplicit false

/-! What the rules for expressions give. An expression is plain; only the rule for
initializers creates connectors and invokes actions, each as the whole value. -/

namespace ServiceLang

namespace Grammar

open Step

variable {α : Type}

/-! ### Literals -/

theorem literalOf_wellFormed (token : Token) : Gives (literalOf token) Literal.WellFormed := by
  unfold literalOf
  split
  · refine .pure fun negative => ?_
    cases negative
  · exact .fail _

/-- A number behind a minus sign is a literal of a number. -/
theorem wellFormed_of_negativeLiteral {parser later : Parser} {literal : Literal}
    (number : (parser.cursor.peekNth 1).kind.isNumber = true)
    (ran : negativeLiteral parser = .ok literal later) : literal.WellFormed := by
  obtain ⟨sign, between, ranSign, ran⟩ := bind_ok ran
  obtain ⟨-, -, rfl⟩ := expect_ok ranSign
  have isNext : parser.advance.cursor.peek = parser.cursor.peekNth 1 := parser.cursor.peek_advance
  rw [bind_of_ok (advance_eq _), isNext] at ran
  obtain ⟨value, last, ranValue, ran⟩ := bind_ok ran
  cases ran
  intro _
  generalize parser.cursor.peekNth 1 = token at number ranValue
  obtain ⟨kind, lexeme, span⟩ := token
  cases kind with
  | integer | floating => cases ranValue; rfl
  | _ => cases number

/-- What stands behind a minus sign is read as a literal only if it is a number. -/
theorem startsNegativeLiteral_gives {negative other : Step α} {holds : α → Prop}
    (numbers : ∀ ⦃parser later value⦄, (parser.cursor.peekNth 1).kind.isNumber = true →
      negative parser = .ok value later → holds value)
    (others : Gives other holds) :
    Gives (do if ← startsNegativeLiteral then negative else other) holds := by
  intro parser later value ran
  rw [look_bind (startsNegativeLiteral_eq parser)] at ran
  split at ran
  · rename_i starts
    rw [Bool.and_eq_true] at starts
    exact numbers starts.2 ran
  · exact others ran

/-! ### Types in front of a member -/

theorem simpleType_ok {parser later : Parser} {type : TypeName}
    (ran : simpleType parser = .ok type later) :
    simpleType? parser.cursor.peek.span parser.cursor.peek.kind = some type := by
  rw [simpleType, look_bind (peek_eq parser)] at ran
  cases isSimple : simpleType? parser.cursor.peek.span parser.cursor.peek.kind with
  | some found =>
      simp only [isSimple] at ran
      cases ran
      rfl
  | none =>
      simp only [isSimple] at ran
      exact absurd ran failAt_ne_ok

theorem isBuiltIn_of_simpleType? {span : Span} {kind : Kind} {type : TypeName}
    (word : (kind.isValueType || kind.isReferenceType) = true)
    (isSimple : simpleType? span kind = some type) : type.isBuiltIn = true := by
  unfold simpleType? at isSimple
  split at isSimple
  case h_1 => cases word
  case h_9 => cases isSimple
  all_goals
    cases isSimple
    rfl

theorem isValue_of_simpleType? {span : Span} {kind : Kind} {type : TypeName}
    (word : kind.isValueType = true) (isSimple : simpleType? span kind = some type) :
    type.isValue = true := by
  unfold simpleType? at isSimple
  split at isSimple
  case h_2 | h_3 | h_4 | h_5 | h_6 =>
    cases isSimple
    rfl
  case h_9 => cases isSimple
  all_goals cases word

/-- The rule for types gives a value or built-in type where the word for one stands. -/
theorem isBuiltIn_of_baseType {inner : Step TypeName} {parser later : Parser} {type : TypeName}
    (word : (parser.cursor.peek.kind.isValueType || parser.cursor.peek.kind.isReferenceType) = true)
    (ran : baseType inner parser = .ok type later) : type.isBuiltIn = true := by
  have constrained {constraint : Type} (word : Keyword) (part : Step (Option constraint))
      (make : Option constraint → Span → TypeName)
      (builtIn : ∀ found span, (make found span).isBuiltIn = true) :
      Gives (constrainedType word part make) fun type => type.isBuiltIn = true :=
    .bind fun _ => .bind fun _ => .bind fun _ => .pure (builtIn _ _)
  rw [baseType, look_bind (current_eq parser)] at ran
  generalize here : parser.cursor.peek.kind = kind at word ran
  split at ran
  · have maps : Gives (mapType inner) fun type => type.isBuiltIn = true :=
      .bind fun _ => .bind fun _ =>
        .ite (.bind fun _ => .bind fun _ => .bind fun _ => .pure rfl) (.bind fun _ => .pure rfl)
    exact maps ran
  · exact constrained _ _ _ (fun _ _ => rfl) ran
  · exact constrained _ _ _ (fun _ _ => rfl) ran
  · exact constrained _ _ _ (fun _ _ => rfl) ran
  · cases word
  · exact isBuiltIn_of_simpleType? (here ▸ word) (simpleType_ok ran)

/-- Where the word for a value type stands, that type is read. -/
theorem isValue_of_baseType {inner : Step TypeName} {parser later : Parser} {type : TypeName}
    (word : parser.cursor.peek.kind.isValueType = true)
    (ran : baseType inner parser = .ok type later) : type.isValue = true := by
  rw [baseType, look_bind (current_eq parser)] at ran
  generalize here : parser.cursor.peek.kind = kind at word ran
  split at ran
  case h_6 => exact isValue_of_simpleType? (here ▸ word) (simpleType_ok ran)
  all_goals cases word

/-! ### Plain expressions -/

def ExprParts.ArePlain (parts : ExprParts) : Prop :=
  ∀ power, Gives (parts.expr power) Expr.IsPlain

section Parts

variable {parts : ExprParts} (plain : parts.ArePlain)

include plain

theorem anyExpr_plain : Gives parts.anyExpr Expr.IsPlain :=
  plain 0

theorem expressions_plain : Gives (expressions parts) Expr.AreValues := by
  intro parser later values ran
  exact ⟨Gives.commaSeparated_ne_nil ran, Gives.commaSeparated (anyExpr_plain plain) ran⟩

theorem condition_plain : Gives (condition parts) Expr.IsPlain :=
  .bind fun _ => .bindOf (anyExpr_plain plain) fun _ here => .bind fun _ => .pure here

theorem arguments_plain :
    Gives (arguments parts) fun found => ∀ value ∈ found.1, value.IsPlain :=
  .bind fun _ => .bindOf (.closedList (anyExpr_plain plain)) fun _ all => .pure all

theorem indexSuffix_plain {base : Reference} (start : base.IsPlain) :
    Gives (indexSuffix parts base) Reference.IsPlain :=
  .bind fun _ => .bindOf (anyExpr_plain plain) fun _ position => .bind fun _ =>
    .pure ⟨start, position⟩

omit plain in
theorem fieldSuffix_plain {base : Reference} (start : base.IsPlain) :
    Gives (fieldSuffix base) Reference.IsPlain :=
  .bind fun _ => .bind fun _ => .pure start

theorem attributeSuffix_plain {base : Reference} (start : base.IsPlain) :
    Gives (attributeSuffix parts base) Reference.IsPlain := by
  refine .bind fun sign => .bind fun kind => ?_
  split
  · exact .bind fun _ => .pure start
  · exact .bind fun _ => .bindOf (anyExpr_plain plain) fun _ selector => .bind fun _ =>
      .pure ⟨start, selector⟩
  · exact .pure start

theorem suffixes_plain {base : Reference} (start : base.IsPlain) :
    Gives (suffixes parts base) Reference.IsPlain := by
  refine .loop (fun base start => .bind fun kind => ?_) start
  split
  · exact .bindOf (indexSuffix_plain plain start) fun _ here => .pure here
  · exact .bindOf (fieldSuffix_plain start) fun _ here => .pure here
  · exact .bindOf (attributeSuffix_plain plain start) fun _ here => .pure here
  · exact .pure start

theorem reference_plain : Gives (reference parts) Reference.IsPlain := by
  refine .bind fun name => ?_
  have start : (Reference.name name).IsPlain := trivial
  exact suffixes_plain plain start

theorem references_plain : Gives (references parts) Reference.AreTargets := by
  intro parser later targets ran
  exact ⟨Gives.commaSeparated_ne_nil ran, Gives.commaSeparated (reference_plain plain) ran⟩

theorem mapEntry_plain :
    Gives (mapEntry parts) fun entry => entry.key.IsPlain ∧ entry.value.IsPlain := by
  have key : Gives (mapKey parts) Expr.IsPlain :=
    .bind fun _ => .bind fun _ => .ite (.bind fun _ => .pure trivial) (anyExpr_plain plain)
  exact key.bindOf fun _ key => .bind fun _ => .bindOf (anyExpr_plain plain) fun _ value =>
    .pure ⟨key, value⟩

theorem arrayLiteral_plain : Gives (arrayLiteral parts) Expr.IsPlain :=
  .bind fun _ => .bindOf (.closedList (anyExpr_plain plain)) fun found all =>
    .pure ((Expr.allPlain_iff found.1).mpr all)

theorem mapLiteral_plain : Gives (mapLiteral parts) Expr.IsPlain :=
  .bind fun _ => .bindOf (.closedList (mapEntry_plain plain)) fun found all =>
    .pure ((MapEntry.allPlain_iff found.1).mpr all)

theorem named_plain : Gives (named parts) Expr.IsPlain := by
  refine .bind fun name => .bind fun _ => .ite ?_ ?_
  · exact .bindOf (arguments_plain plain) fun found all =>
      .pure ((Expr.allPlain_iff found.1).mpr all)
  · have start : (Reference.name name).IsPlain := trivial
    exact .bindOf (suffixes_plain plain start) fun _ target => .pure target

omit plain in
theorem plainLiteral_plain : Gives plainLiteral Expr.IsPlain :=
  .bind fun token => (literalOf_wellFormed token).bindOf fun _ literal => .pure literal

omit plain in
theorem isPlain_of_typeMember {parser later : Parser} {expr : Expr}
    (word : (parser.cursor.peek.kind.isValueType || parser.cursor.peek.kind.isReferenceType) = true)
    (ran : typeMember parts parser = .ok expr later) : expr.IsPlain := by
  obtain ⟨type, between, ranType, ran⟩ := bind_ok ran
  have builtIn := isBuiltIn_of_baseType word ranType
  have rest : Gives (do
      let _ ← expectSymbol .dot
      let member ← expectIdentifier
      return Expr.typeMember type member (type.span.merge member.span)) Expr.IsPlain :=
    .bind fun _ => .bind fun _ => .pure builtIn
  exact rest ran

theorem primary_plain : Gives (primary parts) Expr.IsPlain := by
  intro parser later expr ran
  rw [primary, look_bind (peek_eq parser)] at ran
  generalize here : parser.cursor.peek.kind = kind at ran
  split at ran
  case h_1 | h_2 | h_3 | h_4 | h_5 => exact plainLiteral_plain ran
  · have templates : Gives template Expr.IsPlain := .bind fun _ => .pure trivial
    exact templates ran
  · exact arrayLiteral_plain plain ran
  · exact mapLiteral_plain plain ran
  · exact named_plain plain ran
  · exact absurd ran fail_ne_ok
  · split at ran
    · rename_i word
      exact isPlain_of_typeMember (here ▸ word) ran
    · exact absurd ran failAt_ne_ok

theorem operand_plain : Gives (operand parts) Expr.IsPlain := by
  refine startsNegativeLiteral_gives (fun parser later expr number ran => ?_)
    (.bind fun kind => ?_)
  · obtain ⟨literal, between, ranLiteral, ran⟩ := bind_ok ran
    cases ran
    exact wellFormed_of_negativeLiteral number ranLiteral
  · have prefixed := plain UnaryOperator.power
    split
    · exact .bind fun _ => prefixed.bindOf fun _ operand => .pure operand
    · split
      · exact .bind fun _ => .bind fun _ => .bind fun _ => prefixed.bindOf fun _ operand =>
          .pure operand
      · refine .bind fun _ => .ite ?_ ?_
        · exact .bind fun _ => .bind fun _ => .bind fun _ => prefixed.bindOf fun _ operand =>
            .pure operand
        · exact .bind fun _ => .bindOf (anyExpr_plain plain) fun _ inner => .bind fun _ =>
            .pure inner
      · exact primary_plain plain

theorem operation_plain (power : Nat) : Gives (operation parts power) Expr.IsPlain := by
  refine .bindOf (operand_plain plain) fun left start => .loop (fun left start => ?_) start
  refine .bind fun kind => ?_
  split
  · exact .pure start
  · rename_i operator _
    have extended : Gives (binaryForm parts operator left) Expr.IsPlain :=
      .bind fun _ => (plain _).bindOf fun _ right => .pure ⟨start, right⟩
    exact .ite (.pure start) (extended.bindOf fun _ here => .pure here)

end Parts

theorem expr_plain (room power : Nat) : Gives (expr room power) Expr.IsPlain := by
  induction room generalizing power with
  | zero => exact fun _ _ _ ran => absurd ran tooDeep_ne_ok
  | succ room ih => exact operation_plain (fun power => ih power) power

theorem within_arePlain (room : Nat) : (ExprParts.within room).ArePlain :=
  expr_plain room

/-! ### Initializers -/

section Parts

variable {parts : ExprParts} (plain : parts.ArePlain)

include plain

theorem invocation_plain :
    Gives (invocation parts) fun found => ∀ value ∈ found.2.2.1, value.IsPlain :=
  .bind fun _ => .bind fun _ => .bind fun _ => .bindOf (arguments_plain plain) fun _ all =>
    .pure all

theorem initializer_isInitializer : Gives (initializer parts) Expr.IsInitializer := by
  refine .bind fun _ => .ite ?_ (.bind fun _ => .ite ?_ ?_)
  · exact .bind fun _ => .bind fun _ => .bindOf (arguments_plain plain) fun found all =>
      .pure ((Expr.allPlain_iff found.1).mpr all)
  · exact .bindOf (invocation_plain plain) fun found all =>
      .pure ((Expr.allPlain_iff found.2.2.1).mpr all)
  · exact fun _ _ _ ran => (anyExpr_plain plain ran).isInitializer

end Parts

end Grammar

end ServiceLang
