import ServiceLang.Tree.Erased

set_option autoImplicit false

/-! The trees that the table of precedences allows. Of the trees with the same
operands and operators in the same order it allows one only. -/

namespace ServiceLang

namespace BinaryOperator

/-- The row of an operator in the table of precedences, from one (loosest) to seven. -/
def row : BinaryOperator → Nat
  | or => 1
  | and => 2
  | equal | notEqual => 3
  | less | lessEqual | greater | greaterEqual => 4
  | add | subtract => 5
  | multiply | divide | modulo => 6
  | power => 7

/-- The associativity in the table. -/
def groupsRight : BinaryOperator → Bool
  | power => true
  | _ => false

theorem level_eq_row (operator : BinaryOperator) : operator.level = operator.row := by
  cases operator <;> rfl

theorem isRightAssociative_eq_groupsRight (operator : BinaryOperator) :
    operator.isRightAssociative = operator.groupsRight := by
  cases operator <;> rfl

/-- Whether an operand of `outer` to its left may have `inner` as its operator. -/
def MayStandLeft (inner outer : BinaryOperator) : Prop :=
  outer.row < inner.row ∨
    inner.row = outer.row ∧ outer.groupsRight = false

def MayStandRight (inner outer : BinaryOperator) : Prop :=
  outer.row < inner.row ∨
    inner.row = outer.row ∧ outer.groupsRight = true

/-- The powers keep to the table. -/
theorem leftPower_eq (operator : BinaryOperator) :
    operator.leftPower = 2 * operator.row + operator.groupsRight.toNat := by
  cases operator <;> rfl

theorem rightPower_eq (operator : BinaryOperator) :
    operator.rightPower + operator.groupsRight.toNat = 2 * operator.row + 1 := by
  cases operator <;> rfl

/-- Operators of one row associate to the same side. -/
theorem groupsRight_eq (operator : BinaryOperator) :
    operator.groupsRight = decide (operator.row = 7) := by
  cases operator <;> rfl

theorem mayStandLeft_of_power {inner outer : BinaryOperator}
    (weaker : outer.leftPower < inner.rightPower) : inner.MayStandLeft outer := by
  have left := outer.leftPower_eq
  have right := inner.rightPower_eq
  rcases Nat.lt_trichotomy outer.row inner.row with less | same | more
  · exact .inl less
  · refine .inr ⟨same.symm, ?_⟩
    cases associates : outer.groupsRight with
    | false => rfl
    | true =>
        rw [associates] at left
        simp only [Bool.toNat_true] at left
        omega
  · omega

theorem mayStandRight_of_power {inner outer : BinaryOperator}
    (atLeast : outer.rightPower ≤ inner.leftPower) : inner.MayStandRight outer := by
  have left := inner.leftPower_eq
  have right := outer.rightPower_eq
  have most : inner.groupsRight.toNat ≤ 1 := Bool.toNat_le _
  rcases Nat.lt_trichotomy outer.row inner.row with less | same | more
  · exact .inl less
  · refine .inr ⟨same.symm, ?_⟩
    cases associates : outer.groupsRight with
    | true => rfl
    | false =>
        have alike : inner.groupsRight = false := by
          rw [groupsRight_eq, ← same, ← groupsRight_eq, associates]
        rw [associates] at right
        rw [alike] at left
        simp only [Bool.toNat_false] at left right
        omega
  · have outerMost : outer.groupsRight.toNat ≤ 1 := Bool.toNat_le _
    omega

theorem power_of_mayStandLeft {inner outer : BinaryOperator} (fits : inner.MayStandLeft outer) :
    outer.leftPower < inner.rightPower := by
  have left := outer.leftPower_eq
  have right := inner.rightPower_eq
  have most : inner.groupsRight.toNat ≤ 1 := Bool.toNat_le _
  have outerMost : outer.groupsRight.toNat ≤ 1 := Bool.toNat_le _
  rcases fits with less | ⟨same, associates⟩
  · omega
  · have alike : inner.groupsRight = false := by
      rw [groupsRight_eq, same, ← groupsRight_eq, associates]
    rw [associates, Bool.toNat_false] at left
    rw [alike, Bool.toNat_false] at right
    omega

theorem power_of_mayStandRight {inner outer : BinaryOperator} (fits : inner.MayStandRight outer) :
    outer.rightPower ≤ inner.leftPower := by
  have left := inner.leftPower_eq
  have right := outer.rightPower_eq
  rcases fits with less | ⟨same, associates⟩
  · omega
  · rw [associates, Bool.toNat_true] at right
    omega

theorem leftPower_le_of_mayStandLeft {inner outer : BinaryOperator}
    (fits : inner.MayStandLeft outer) : outer.leftPower ≤ inner.leftPower := by
  have left := outer.leftPower_eq
  have other := inner.leftPower_eq
  have most : outer.groupsRight.toNat ≤ 1 := Bool.toNat_le _
  rcases fits with less | ⟨same, associates⟩
  · omega
  · rw [associates, Bool.toNat_false] at left
    omega

/-- An operator that binds weaker towards its left does not take the right operand. -/
theorem leftPower_lt_rightPower {weak strong : BinaryOperator}
    (weaker : weak.leftPower < strong.leftPower) : weak.leftPower < strong.rightPower := by
  have left := weak.leftPower_eq
  have other := strong.leftPower_eq
  have right := strong.rightPower_eq
  have most : weak.groupsRight.toNat ≤ 1 := Bool.toNat_le _
  have strongMost : strong.groupsRight.toNat ≤ 1 := Bool.toNat_le _
  rcases Nat.lt_trichotomy weak.row strong.row with less | same | more
  · omega
  · have alike : weak.groupsRight = strong.groupsRight := by
      rw [groupsRight_eq, same, ← groupsRight_eq]
    rw [alike] at left
    omega
  · omega

end BinaryOperator

def Expr.operator? : Expr → Option BinaryOperator
  | .binary operator _ _ _ => some operator
  | _ => none

mutual

/-- Every operand in the expression may stand where it does: an operator's operand
binds tighter, or equally tight on the side the operator associates to, and behind
a form with its operator in front stands no bare binary operator. -/
def Expr.Ordered : Expr → Prop
  | .literal _ | .template _ _ | .typeMember _ _ _ => True
  | .array elements _ => Expr.AllOrdered elements
  | .mapping entries _ => MapEntry.AllOrdered entries
  | .reference target => target.Ordered
  | .call _ arguments _ | .invoke _ _ arguments _ | .create _ arguments _ =>
      Expr.AllOrdered arguments
  | .cast _ operand _ | .convert _ operand _ | .unary _ operand _ =>
      operand.operator? = none ∧ operand.Ordered
  | .binary operator left right _ =>
      (∀ inner, left.operator? = some inner → inner.MayStandLeft operator) ∧
        (∀ inner, right.operator? = some inner → inner.MayStandRight operator) ∧
          left.Ordered ∧ right.Ordered
  | .paren inner _ => inner.Ordered

def Expr.AllOrdered : List Expr → Prop
  | [] => True
  | expr :: rest => expr.Ordered ∧ Expr.AllOrdered rest

def MapEntry.AllOrdered : List MapEntry → Prop
  | [] => True
  | ⟨key, value, _⟩ :: rest => key.Ordered ∧ value.Ordered ∧ MapEntry.AllOrdered rest

def Reference.Ordered : Reference → Prop
  | .name _ => True
  | .index base position _ => base.Ordered ∧ position.Ordered
  | .field base _ _ | .attributes base _ | .attributeNamed base _ _ => base.Ordered
  | .attributeAt base selector _ => base.Ordered ∧ selector.Ordered

end

namespace Expr

/-- The first operand of a chain of binary operators, and the operators with their
right operands as they are written one after the other. -/
def chain : Expr → Expr × List (BinaryOperator × Expr)
  | .binary operator left right _ =>
      (left.chain.1, left.chain.2 ++ (operator, right.chain.1) :: right.chain.2)
  | expr => (expr, [])

theorem allOrdered_iff (exprs : List Expr) : AllOrdered exprs ↔ ∀ expr ∈ exprs, expr.Ordered := by
  induction exprs with
  | nil => simp [AllOrdered]
  | cons expr rest ih => simp [AllOrdered, ih]

end Expr

theorem MapEntry.allOrdered_iff (entries : List MapEntry) :
    MapEntry.AllOrdered entries ↔ ∀ entry ∈ entries, entry.key.Ordered ∧ entry.value.Ordered := by
  induction entries with
  | nil => simp [AllOrdered]
  | cons entry rest ih =>
      obtain ⟨key, value, span⟩ := entry
      simp [AllOrdered, ih, and_assoc]

namespace Expr

def OuterOrdered : Expr → Prop
  | .binary operator left right _ =>
      (∀ inner, left.operator? = some inner → inner.MayStandLeft operator) ∧
        (∀ inner, right.operator? = some inner → inner.MayStandRight operator) ∧
          left.OuterOrdered ∧ right.OuterOrdered
  | _ => True

theorem OuterOrdered.of_ordered {expr : Expr} (ordered : expr.Ordered) : expr.OuterOrdered := by
  fun_induction OuterOrdered expr with
  | case1 operator left right span ihLeft ihRight =>
      obtain ⟨fitsLeft, fitsRight, orderedLeft, orderedRight⟩ := ordered
      exact ⟨fitsLeft, fitsRight, ihLeft orderedLeft, ihRight orderedRight⟩
  | case2 => trivial

def erasedChain (expr : Expr) : Expr × List (BinaryOperator × Expr) :=
  (expr.chain.1.erased, expr.chain.2.map (Prod.map id erased))

theorem erasedChain_binary (operator : BinaryOperator) (left right : Expr) (span : Span) :
    (Expr.binary operator left right span).erasedChain =
      (left.erasedChain.1, left.erasedChain.2 ++
        (operator, right.erasedChain.1) :: right.erasedChain.2) := by
  simp [erasedChain, chain]

theorem erasedChain_of_not_binary {expr : Expr}
    (notBinary : ∀ operator left right span, expr ≠ .binary operator left right span) :
    expr.erasedChain = (expr.erased, []) := by
  cases expr with
  | binary operator left right span => exact absurd rfl (notBinary operator left right span)
  | _ => rfl

/-- Every operator in a chain binds as tightly as the outermost one, at least. -/
theorem level_of_chain {expr : Expr} (ordered : expr.OuterOrdered) :
    ∀ link ∈ expr.erasedChain.2,
      ∃ outer, expr.operator? = some outer ∧ outer.row ≤ link.1.row := by
  fun_induction OuterOrdered expr with
  | case1 operator left right span ihLeft ihRight =>
      obtain ⟨fitsLeft, fitsRight, orderedLeft, orderedRight⟩ := ordered
      intro link member
      refine ⟨operator, rfl, ?_⟩
      rw [erasedChain_binary] at member
      rcases List.mem_append.mp member with inLeft | inRight
      · obtain ⟨inner, isInner, atLeast⟩ := ihLeft orderedLeft link inLeft
        rcases fitsLeft inner isInner with less | ⟨same, -⟩ <;> omega
      · rcases List.mem_cons.mp inRight with rfl | inRight
        · exact Nat.le_refl _
        · obtain ⟨inner, isInner, atLeast⟩ := ihRight orderedRight link inRight
          rcases fitsRight inner isInner with less | ⟨same, -⟩ <;> omega
  | case2 expr notBinary =>
      intro link member
      rw [erasedChain_of_not_binary notBinary] at member
      cases member

section Sides

variable {operator : BinaryOperator} {left right : Expr} {span : Span}
  (ordered : (Expr.binary operator left right span).OuterOrdered)

include ordered

theorem mayStandLeft_of_chain : ∀ link ∈ left.erasedChain.2, link.1.MayStandLeft operator := by
  obtain ⟨fitsLeft, -, orderedLeft, -⟩ := ordered
  intro link member
  obtain ⟨inner, isInner, atLeast⟩ := level_of_chain orderedLeft link member
  rcases fitsLeft inner isInner with less | ⟨same, associates⟩
  · exact .inl (Nat.lt_of_lt_of_le less atLeast)
  · rcases Nat.lt_or_eq_of_le atLeast with less | alike
    · exact .inl (same ▸ less)
    · exact .inr ⟨alike.symm.trans same, associates⟩

theorem mayStandRight_of_chain : ∀ link ∈ right.erasedChain.2, link.1.MayStandRight operator := by
  obtain ⟨-, fitsRight, -, orderedRight⟩ := ordered
  intro link member
  obtain ⟨inner, isInner, atLeast⟩ := level_of_chain orderedRight link member
  rcases fitsRight inner isInner with less | ⟨same, associates⟩
  · exact .inl (Nat.lt_of_lt_of_le less atLeast)
  · rcases Nat.lt_or_eq_of_le atLeast with less | alike
    · exact .inl (same ▸ less)
    · exact .inr ⟨alike.symm.trans same, associates⟩

end Sides

theorem not_mayStand_both {left right : BinaryOperator} (onLeft : left.MayStandLeft right)
    (onRight : right.MayStandRight left) : False := by
  rcases onLeft with less | ⟨same, leftwards⟩
  · rcases onRight with more | ⟨alike, -⟩ <;> omega
  · rcases onRight with more | ⟨-, rightwards⟩
    · omega
    · rw [BinaryOperator.groupsRight_eq, same, ← BinaryOperator.groupsRight_eq,
        leftwards] at rightwards
      contradiction

/-- The outermost operator stands at the same place in two ordered trees with the
same chain. -/
theorem outermost_unique {first second : BinaryOperator}
    {left right left' right' : List (BinaryOperator × Expr)} {operand operand' : Expr}
    (same : left ++ (first, operand) :: right = left' ++ (second, operand') :: right')
    (fitsLeft : ∀ link ∈ left, link.1.MayStandLeft first)
    (fitsRight : ∀ link ∈ right, link.1.MayStandRight first)
    (fitsLeft' : ∀ link ∈ left', link.1.MayStandLeft second)
    (fitsRight' : ∀ link ∈ right', link.1.MayStandRight second) :
    left = left' ∧ first = second ∧ operand = operand' ∧ right = right' := by
  rcases List.append_eq_append_iff.mp same with ⟨between, is, rest⟩ | ⟨between, is, rest⟩
  · cases between with
    | nil =>
        rw [List.append_nil] at is
        simp only [List.nil_append, List.cons.injEq, Prod.mk.injEq] at rest
        exact ⟨is.symm, rest.1.1, rest.1.2, rest.2⟩
    | cons link between =>
        simp only [List.cons_append, List.cons.injEq] at rest
        have onLeft := fitsLeft' link (by rw [is]; simp)
        have onRight := fitsRight (second, operand') (by rw [rest.2]; simp)
        rw [← rest.1] at onLeft
        exact (not_mayStand_both onLeft onRight).elim
  · cases between with
    | nil =>
        rw [List.append_nil] at is
        simp only [List.nil_append, List.cons.injEq, Prod.mk.injEq] at rest
        exact ⟨is, rest.1.1.symm, rest.1.2.symm, rest.2.symm⟩
    | cons link between =>
        simp only [List.cons_append, List.cons.injEq] at rest
        have onLeft := fitsLeft link (by rw [is]; simp)
        have onRight := fitsRight' (first, operand) (by rw [rest.2]; simp)
        rw [← rest.1] at onLeft
        exact (not_mayStand_both onLeft onRight).elim

/-- Ordered trees with the same chain are the same tree. -/
theorem erased_eq_of_chain {expr other : Expr} (ordered : expr.OuterOrdered)
    (orderedOther : other.OuterOrdered) (same : expr.erasedChain = other.erasedChain) :
    expr.erased = other.erased := by
  fun_induction OuterOrdered expr generalizing other with
  | case1 operator left right span ihLeft ihRight =>
      rw [erasedChain_binary] at same
      by_cases isBinary : ∃ operator left right span, other = .binary operator left right span
      · obtain ⟨operator', left', right', span', rfl⟩ := isBinary
        rw [erasedChain_binary, Prod.mk.injEq] at same
        have whole : (Expr.binary operator left right span).OuterOrdered := ordered
        obtain ⟨sameLinks, sameOperator, sameOperand, sameBehind⟩ :=
          outermost_unique same.2 (mayStandLeft_of_chain whole) (mayStandRight_of_chain whole)
            (mayStandLeft_of_chain orderedOther) (mayStandRight_of_chain orderedOther)
        obtain ⟨-, -, orderedLeft, orderedRight⟩ := ordered
        obtain ⟨-, -, orderedLeft', orderedRight'⟩ := orderedOther
        rw [erased, erased, sameOperator,
          ihLeft orderedLeft orderedLeft' (Prod.ext same.1 sameLinks),
          ihRight orderedRight orderedRight' (Prod.ext sameOperand sameBehind)]
      · rw [erasedChain_of_not_binary fun _ _ _ _ is => isBinary ⟨_, _, _, _, is⟩,
          Prod.mk.injEq] at same
        exact absurd same.2 (by simp)
  | case2 expr notBinary =>
      rw [erasedChain_of_not_binary notBinary] at same
      by_cases isBinary : ∃ operator left right span, other = .binary operator left right span
      · obtain ⟨operator', left', right', span', rfl⟩ := isBinary
        rw [erasedChain_binary, Prod.mk.injEq] at same
        exact absurd same.2 (by simp)
      · rw [erasedChain_of_not_binary fun _ _ _ _ is => isBinary ⟨_, _, _, _, is⟩] at same
        exact (Prod.mk.inj same).1

end Expr

end ServiceLang
