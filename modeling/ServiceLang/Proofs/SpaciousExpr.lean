import ServiceLang.Grammar.Expr
import ServiceLang.Proofs.Spacious

set_option autoImplicit false

/-! Names, type names and expressions under different limits on nesting. Only looking for a
cast asks for the limit; what stands in the parentheses is read in either case, and settles
what is seen. -/

namespace ServiceLang.Grammar

open Step

variable {room : Nat}

/-! ### Names and type names -/

theorem nameReference_spacious : Spacious room nameReference :=
  .bind .identifier fun _ => .bind (.check _) fun _ => .bind (.kindNth 1) fun _ =>
    .ite (.bind (.symbol _) fun _ => .mapped _ .identifier) (.pure _)

theorem bracedString_spacious : Spacious room bracedString :=
  .bind (.symbol _) fun _ => .bind (.expect _) fun _ => .mapped _ (.symbol _)

theorem xmlConstraint_spacious : Spacious room xmlConstraint := by
  apply Spacious.bind (.eat? _)
  intro found
  cases found with
  | none => exact .pure _
  | some start =>
      exact .mapped _ (.bind (.ifAt bracedString_spacious) fun _ => .bind .identifier fun _ =>
        .mapped _ (.symbol _))

theorem schemaReference_spacious : Spacious room schemaReference := by
  apply Spacious.bind (.eat? _)
  intro found
  cases found with
  | none => exact .pure _
  | some start => exact .mapped _ (.bind bracedString_spacious fun _ => .mapped _ (.symbol _))

theorem constrainedType_spacious {α : Type} {word : Keyword} {constraint : Step (Option α)}
    {make : Option α → Span → TypeName} (spacious : Spacious room constraint) :
    Spacious room (constrainedType word constraint make) :=
  .bind (.keyword _) fun _ => .bind spacious fun _ => .spanned _ _

theorem simpleType_spacious : Spacious room simpleType := by
  apply Spacious.bind .peek
  intro token
  split
  · exact .mapped _ .advance
  · exact .failAt _

theorem baseType_spacious {inner : Step TypeName} (spacious : Spacious room inner) :
    Spacious room (baseType inner) := by
  apply Spacious.bind .current
  intro kind
  split
  · exact .bind (.keyword _) fun _ => .bind (.eat _) fun _ => .ite
      (.bind spacious fun _ => .bind (.symbol _) fun _ => .spanned _ _) (.spanned _ _)
  · exact constrainedType_spacious xmlConstraint_spacious
  · exact constrainedType_spacious xmlConstraint_spacious
  · exact constrainedType_spacious schemaReference_spacious
  · exact .bind .peek fun _ => .bind nameReference_spacious fun _ => .spanned _ _
  · exact simpleType_spacious

theorem typeName_spacious (levels : Nat) : Spacious room (typeName levels) := by
  have dimensions (element : TypeName) : Spacious room (dimensions element) :=
    .loop (fun _ => .bind (.check _) fun _ => .bind (.kindNth 1) fun _ =>
      .ite (.bind (.symbol _) fun _ => .mapped _ (.symbol _)) (.pure _)) element
  induction levels with
  | zero => exact .tooDeep
  | succ levels ih => exact .bind (baseType_spacious ih) dimensions

/-! ### References -/

structure ExprParts.AreSpacious (room : Nat) (parts : ExprParts) : Prop where
  typeName : Spacious room parts.typeName
  expr : ∀ power, Spacious room (parts.expr power)
  typeSettles : ∀ {parser later type}, parts.typeName parser = .ok type later →
    Settled room parser.cursor.kinds
  exprSettles : ∀ {power parser later value}, parts.expr power parser = .ok value later →
    Settled room parser.cursor.kinds

theorem literalOf_spacious (token : Token) : Spacious room (literalOf token) := by
  unfold literalOf
  split
  · exact .pure _
  · exact .fail _

variable {parts : ExprParts} (spacious : parts.AreSpacious room)

include spacious

theorem expressions_spacious : Spacious room (expressions parts) :=
  .commaSeparated (spacious.expr 0)

theorem condition_spacious : Spacious room (condition parts) :=
  .bind (.symbol _) fun _ => .bind (spacious.expr 0) fun _ => .bind (.symbol _) fun _ => .pure _

theorem arguments_spacious : Spacious room (arguments parts) :=
  .bind (.symbol _) fun _ => .bind (.closedList (spacious.expr 0)) fun _ => .pure _

theorem suffixes_spacious (base : Reference) : Spacious room (suffixes parts base) := by
  have selector (base : Reference) (sign : Token) :
      Spacious room (attributeSelector parts base sign) := by
    apply Spacious.bind .current
    intro kind
    split
    · exact .mapped _ .identifier
    · exact .bind (.symbol _) fun _ => .bind (spacious.expr 0) fun _ => .mapped _ (.symbol _)
    · exact .pure _
  apply Spacious.loop
  intro base
  apply Spacious.bind .current
  intro kind
  split
  · exact .mapped _ (.bind (.symbol _) fun _ => .bind (spacious.expr 0) fun _ =>
      .mapped _ (.symbol _))
  · exact .mapped _ (.bind (.symbol _) fun _ => .mapped _ .identifier)
  · exact .mapped _ (.bind (.symbol _) fun _ => selector base _)
  · exact .pure _

theorem reference_spacious : Spacious room (reference parts) :=
  .bind nameReference_spacious fun _ => suffixes_spacious spacious _

theorem references_spacious : Spacious room (references parts) :=
  .commaSeparated (reference_spacious spacious)

/-! ### Primary expressions -/

theorem typeMember_spacious : Spacious room (typeMember parts) :=
  .bind (baseType_spacious spacious.typeName) fun _ => .bind (.symbol _) fun _ =>
    .mapped _ .identifier

theorem mapLiteral_spacious : Spacious room (mapLiteral parts) := by
  have key : Spacious room (mapKey parts) :=
    .bind (.check _) fun _ => .bind (.kindNth 1) fun _ =>
      .ite (.mapped _ .identifier) (spacious.expr 0)
  have entry : Spacious room (mapEntry parts) :=
    .bind key fun _ => .bind (.symbol _) fun _ => .mapped _ (spacious.expr 0)
  exact .bind (.symbol _) fun _ => .bind (.closedList entry) fun _ => .pure _

theorem named_spacious : Spacious room (named parts) :=
  .bind nameReference_spacious fun _ => .bind (.check _) fun _ => .ite
    (.bind (arguments_spacious spacious) fun _ => .pure _)
    (.mapped _ (suffixes_spacious spacious _))

theorem primary_spacious : Spacious room (primary parts) := by
  have literal : Spacious room plainLiteral :=
    .bind .advance fun _ => .mapped _ (literalOf_spacious _)
  apply Spacious.bind .peek
  intro token
  split
  · exact literal
  · exact literal
  · exact literal
  · exact literal
  · exact literal
  · exact .mapped _ (.expect _)
  · exact .bind (.symbol _) fun _ => .bind (.closedList (spacious.expr 0)) fun _ => .pure _
  · exact mapLiteral_spacious spacious
  · exact named_spacious spacious
  · exact .fail _
  · exact .ite (typeMember_spacious spacious) (.failAt _)

/-! ### Operators -/

omit spacious in
theorem kinds_of_expectSymbol {sign : Symbol} {parser later : Parser} {token : Token}
    (ran : expectSymbol sign parser = .ok token later) :
    parser.cursor.kinds = .symbol sign :: later.cursor.kinds := by
  obtain ⟨here, -, rfl⟩ := expect_ok ran
  exact kinds_of_peek here nofun

/-- A cast is told from an expression in parentheses by a type that is read in either case. -/
theorem castOrParen_spacious : Spacious room (castOrParen parts) := by
  have castForm : Spacious room (castForm parts) :=
    .bind (.symbol _) fun _ => .bind spacious.typeName fun _ => .bind (.symbol _) fun _ =>
      .mapped _ (spacious.expr _)
  have parenForm : Spacious room (parenForm parts) :=
    .bind (.symbol _) fun _ => .bind (spacious.expr 0) fun _ => .mapped _ (.symbol _)
  apply Spacious.choose startsCast isCast_eq _ castForm parenForm
  intro parser later value either look other more moreOther
  have inside :
      ∃ kinds, parser.cursor.kinds = .symbol .leftParen :: kinds ∧ Settled room kinds := by
    rcases either with ran | ran
    · obtain ⟨_, between, ranOpen, ran⟩ := bind_ok ran
      obtain ⟨_, _, ranType, -⟩ := bind_ok ran
      exact ⟨_, kinds_of_expectSymbol ranOpen, spacious.typeSettles ranType⟩
    · obtain ⟨_, between, ranOpen, ran⟩ := bind_ok ran
      obtain ⟨_, _, ranInner, -⟩ := bind_ok ran
      exact ⟨_, kinds_of_expectSymbol ranOpen, spacious.exprSettles ranInner⟩
  obtain ⟨kinds, ahead, settled⟩ := inside
  rw [ahead]
  exact settled.startsCast more moreOther

theorem operand_spacious : Spacious room (operand parts) := by
  have negative : Spacious room negativeLiteral :=
    .bind (.symbol _) fun _ => .bind .advance fun _ => .mapped _ (literalOf_spacious _)
  have unary (operator : UnaryOperator) : Spacious room (unaryForm parts operator) :=
    .bind (.symbol _) fun _ => .mapped _ (spacious.expr _)
  have convert : Spacious room (convertForm parts) :=
    .bind (.symbol _) fun _ => .bind spacious.typeName fun _ => .bind (.symbol _) fun _ =>
      .mapped _ (spacious.expr _)
  have number : Spacious room startsNegativeLiteral :=
    .look _ startsNegativeLiteral_eq fun _ _ => rfl
  apply Spacious.bind number
  intro isNumber
  apply Spacious.ite (.mapped _ negative)
  apply Spacious.bind .current
  intro kind
  split
  · exact unary _
  · split
    · exact convert
    · exact castOrParen_spacious spacious
    · exact primary_spacious spacious

theorem operation_spacious (power : Nat) : Spacious room (operation parts power) := by
  have binary (operator : BinaryOperator) (left : Expr) :
      Spacious room (binaryForm parts operator left) :=
    .bind (.symbol _) fun _ => .mapped _ (spacious.expr _)
  apply Spacious.bind (operand_spacious spacious)
  intro first
  apply Spacious.loop
  intro left
  apply Spacious.bind .current
  intro kind
  split
  · exact .pure _
  · exact .ite (.pure _) (.mapped _ (binary _ _))

omit spacious in
/-- The rules with at most `room` levels left. -/
theorem ExprParts.within_areSpacious {levels : Nat} (within : levels ≤ room) :
    (ExprParts.within levels).AreSpacious room := by
  have parts (levels : Nat) (within : levels ≤ room)
      (expr : ∀ power, Spacious room (Grammar.expr levels power)) :
      (ExprParts.within levels).AreSpacious room :=
    ⟨typeName_spacious levels, expr, Settled.of_typeName within, Settled.of_expr within⟩
  apply parts levels within
  induction levels with
  | zero => exact fun _ => .tooDeep
  | succ levels ih =>
      have smaller := Nat.le_of_succ_le within
      exact operation_spacious (parts levels smaller (ih smaller))

/-! ### Initializers -/

theorem invocation_spacious : Spacious room (invocation parts) :=
  .bind nameReference_spacious fun _ => .bind (.symbol _) fun _ => .bind .identifier fun _ =>
    .bind (arguments_spacious spacious) fun _ => .pure _

theorem initializer_spacious : Spacious room (initializer parts) := by
  have creation : Spacious room (creation parts) :=
    .bind (.keyword _) fun _ => .bind nameReference_spacious fun _ =>
      .bind (arguments_spacious spacious) fun _ => .pure _
  have invoke : Spacious room (invocationForm parts) :=
    .bind (invocation_spacious spacious) fun _ => .pure _
  exact .bind (.check _) fun _ => .ite creation <| .bind .isInvocation fun _ =>
    .ite invoke (spacious.expr 0)

end ServiceLang.Grammar
