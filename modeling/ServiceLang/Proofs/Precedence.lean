import ServiceLang.Proofs.Giving
import ServiceLang.Proofs.Place
import ServiceLang.Proofs.RereadingExpr
import ServiceLang.Proofs.Spelling
import ServiceLang.Tree.Precedence

set_option autoImplicit false

/-! Expressions are read as the table of precedences has it. Behind an operand no
operator is left that binds as tightly as the surroundings ask; with it the operands
of every operator bind tightly enough. -/

namespace ServiceLang

namespace Grammar

open Step

/-- The next token is no operator that binds as tightly as asked. -/
def StopsBelow (power : Nat) (parser : Parser) : Prop :=
  ∀ operator, BinaryOperator.ofKind? parser.cursor.peek.kind = some operator →
    operator.leftPower < power

/-- An ordered expression whose own operator binds as tightly as asked. -/
structure BindsFrom (power : Nat) (expr : Expr) : Prop where
  ordered : expr.Ordered
  tight : ∀ operator, expr.operator? = some operator → power ≤ operator.leftPower

structure ExprParts.AreOrdered (parts : ExprParts) : Prop where
  eager : parts.AreEager (fun _ => True)
  binds : ∀ power, Gives (parts.expr power) (BindsFrom power)
  stops : ∀ power ⦃parser later : Parser⦄ ⦃expr : Expr⦄,
    parts.expr power parser = .ok expr later → StopsBelow power later

section Parts

variable {parts : ExprParts} (are : parts.AreOrdered)

include are

theorem anyExpr_ordered : Gives parts.anyExpr Expr.Ordered :=
  fun _ _ _ ran => (are.binds 0 ran).ordered

theorem arguments_ordered :
    Gives (arguments parts) fun found => Expr.AllOrdered found.1 :=
  .bind fun _ => .bindOf (.closedList (anyExpr_ordered are)) fun found all =>
    .pure ((Expr.allOrdered_iff found.1).mpr all)

theorem indexSuffix_ordered {base : Reference} (ordered : base.Ordered) :
    Gives (indexSuffix parts base) Reference.Ordered :=
  .bind fun _ => .bindOf (anyExpr_ordered are) fun _ position => .bind fun _ =>
    .pure ⟨ordered, position⟩

omit are in
theorem fieldSuffix_ordered {base : Reference} (ordered : base.Ordered) :
    Gives (fieldSuffix base) Reference.Ordered :=
  .bind fun _ => .bind fun _ => .pure ordered

theorem attributeSuffix_ordered {base : Reference} (ordered : base.Ordered) :
    Gives (attributeSuffix parts base) Reference.Ordered := by
  refine .bind fun sign => .bind fun kind => ?_
  split
  · exact .bind fun _ => .pure ordered
  · exact .bind fun _ => .bindOf (anyExpr_ordered are) fun _ selector => .bind fun _ =>
      .pure ⟨ordered, selector⟩
  · exact .pure ordered

theorem suffixes_ordered {base : Reference} (ordered : base.Ordered) :
    Gives (suffixes parts base) Reference.Ordered := by
  refine .loop (fun base ordered => .bind fun kind => ?_) ordered
  split
  · exact .bindOf (indexSuffix_ordered are ordered) fun _ here => .pure here
  · exact .bindOf (fieldSuffix_ordered ordered) fun _ here => .pure here
  · exact .bindOf (attributeSuffix_ordered are ordered) fun _ here => .pure here
  · exact .pure ordered

theorem mapEntry_ordered :
    Gives (mapEntry parts) fun entry => entry.key.Ordered ∧ entry.value.Ordered := by
  have key : Gives (mapKey parts) Expr.Ordered :=
    .bind fun _ => .bind fun _ => .ite (.bind fun _ => .pure trivial) (anyExpr_ordered are)
  exact key.bindOf fun _ key => .bind fun _ => .bindOf (anyExpr_ordered are) fun _ value =>
    .pure ⟨key, value⟩

/-- An operand is ordered and is no bare binary operation. -/
structure IsOperand (expr : Expr) : Prop where
  ordered : expr.Ordered
  single : expr.operator? = none

theorem primary_isOperand : Gives (primary parts) IsOperand := by
  refine .bind fun token => ?_
  split
  case h_1 | h_2 | h_3 | h_4 | h_5 =>
    exact .bind fun _ => .bind fun _ => .pure ⟨trivial, rfl⟩
  · exact .bind fun _ => .pure ⟨trivial, rfl⟩
  · exact .bind fun _ => .bindOf (.closedList (anyExpr_ordered are)) fun found all =>
      .pure ⟨(Expr.allOrdered_iff found.1).mpr all, rfl⟩
  · exact .bind fun _ => .bindOf (.closedList (mapEntry_ordered are)) fun found all =>
      .pure ⟨(MapEntry.allOrdered_iff found.1).mpr all, rfl⟩
  · refine .bind fun name => .bind fun _ => .ite ?_ ?_
    · exact .bindOf (arguments_ordered are) fun _ all => .pure ⟨all, rfl⟩
    · have start : (Reference.name name).Ordered := trivial
      exact .bindOf (suffixes_ordered are start) fun _ target => .pure ⟨target, rfl⟩
  · exact .fail _
  · exact .ite (.bind fun _ => .bind fun _ => .bind fun _ => .pure ⟨trivial, rfl⟩) (.failAt _)

/-- What stands behind an operator in front is a single operand: no binary operator
binds that tightly. -/
theorem prefixed_isOperand : Gives (parts.expr UnaryOperator.power) IsOperand := by
  intro parser later expr ran
  have binds := are.binds _ ran
  refine ⟨binds.ordered, ?_⟩
  cases found : expr.operator? with
  | none => rfl
  | some operator =>
      have tight := binds.tight operator found
      have loose := UnaryOperator.leftPower_lt_power operator
      omega

theorem operand_isOperand : Gives (operand parts) IsOperand := by
  have prefixed := prefixed_isOperand are
  refine .bind fun _ => .ite (.bind fun _ => .pure ⟨trivial, rfl⟩) (.bind fun kind => ?_)
  split
  · exact .bind fun _ => prefixed.bindOf fun _ operand =>
      .pure ⟨⟨operand.single, operand.ordered⟩, rfl⟩
  · split
    · exact .bind fun _ => .bind fun _ => .bind fun _ => prefixed.bindOf fun _ operand =>
        .pure ⟨⟨operand.single, operand.ordered⟩, rfl⟩
    · refine .bind fun _ => .ite ?_ ?_
      · exact .bind fun _ => .bind fun _ => .bind fun _ => prefixed.bindOf fun _ operand =>
          .pure ⟨⟨operand.single, operand.ordered⟩, rfl⟩
      · exact .bind fun _ => .bindOf (anyExpr_ordered are) fun _ inner => .bind fun _ =>
          .pure ⟨inner, rfl⟩
    · exact primary_isOperand are

/-! ### The loop over binary operators -/

/-- What has been read in front of the next operator: the expression is ordered, its
own operator binds as tightly as asked, and the next operator does not take the right
operand away from it. -/
structure Extendable (power : Nat) (left : Expr) (parser : Parser) : Prop where
  binds : BindsFrom power left
  taken : ∀ operator, left.operator? = some operator → StopsBelow operator.rightPower parser

theorem extendable_of_binaryForm {power : Nat} {operator : BinaryOperator} {left expr : Expr}
    {parser later : Parser} (extendable : Extendable power left parser)
    (here : BinaryOperator.ofKind? parser.cursor.peek.kind = some operator)
    (tight : ¬operator.leftPower < power)
    (ran : binaryForm parts operator left parser = .ok expr later) :
    Extendable power expr later := by
  obtain ⟨_, between, -, ran⟩ := bind_ok ran
  obtain ⟨right, last, ranRight, ran⟩ := bind_ok ran
  cases ran
  have bindsRight := are.binds _ ranRight
  refine ⟨⟨⟨?_, ?_, extendable.binds.ordered, bindsRight.ordered⟩, ?_⟩, ?_⟩
  · intro inner isInner
    exact BinaryOperator.mayStandLeft_of_power (extendable.taken inner isInner operator here)
  · intro inner isInner
    exact BinaryOperator.mayStandRight_of_power (bindsRight.tight inner isInner)
  · intro outer isOuter
    cases isOuter
    omega
  · intro outer isOuter
    cases isOuter
    exact are.stops _ ranRight

theorem extendable_of_extend {power : Nat} {left next : Expr} {parser later : Parser}
    (extendable : Extendable power left parser)
    (ran : extend parts power left parser = .ok (.yield next) later) :
    Extendable power next later := by
  rw [extend, look_bind (current_eq parser)] at ran
  cases here : BinaryOperator.ofKind? parser.cursor.peek.kind with
  | none =>
      rw [here] at ran
      cases ran
  | some operator =>
      simp only [here] at ran
      split at ran
      · cases ran
      · rename_i tight
        obtain ⟨expr, between, ranForm, ran⟩ := bind_ok ran
        cases ran
        exact extendable_of_binaryForm are extendable here tight ranForm

omit are in
theorem stopsBelow_of_extend {power : Nat} {left final : Expr} {parser later : Parser}
    (ran : extend parts power left parser = .ok (.done final) later) :
    final = left ∧ StopsBelow power later := by
  rw [extend, look_bind (current_eq parser)] at ran
  cases here : BinaryOperator.ofKind? parser.cursor.peek.kind with
  | none =>
      rw [here] at ran
      cases ran
      refine ⟨rfl, fun operator found => ?_⟩
      rw [here] at found
      cases found
  | some operator =>
      simp only [here] at ran
      split at ran
      · rename_i loose
        cases ran
        refine ⟨rfl, fun other found => ?_⟩
        rw [here] at found
        cases found
        exact loose
      · obtain ⟨_, _, -, ran⟩ := bind_ok ran
        cases ran

theorem binds_of_extensions {power : Nat} {left final : Expr} {parser later : Parser}
    (extendable : Extendable power left parser)
    (ran : loop (extend parts power) left parser = .ok final later) :
    BindsFrom power final := by
  rcases loop_ok ran with ran | ⟨next, between, ran, ⟨shorter, rest⟩ | ⟨-, rfl, -⟩⟩
  · obtain ⟨rfl, -⟩ := stopsBelow_of_extend ran
    exact extendable.binds
  · exact binds_of_extensions (extendable_of_extend are extendable ran) rest
  · exact (extendable_of_extend are extendable ran).binds
termination_by parser.cursor.remaining

theorem operation_binds (power : Nat) : Gives (operation parts power) (BindsFrom power) := by
  intro parser later expr ran
  obtain ⟨left, between, ranOperand, ran⟩ := bind_ok ran
  have isOperand := operand_isOperand are ranOperand
  refine binds_of_extensions are ⟨⟨isOperand.ordered, ?_⟩, ?_⟩ ran
  · intro operator found
    rw [isOperand.single] at found
    cases found
  · intro operator found
    rw [isOperand.single] at found
    cases found

theorem stopsBelow_of_operation {power : Nat} {parser later : Parser} {expr : Expr}
    (ran : operation parts power parser = .ok expr later) : StopsBelow power later := by
  obtain ⟨left, between, -, ran⟩ := bind_ok ran
  obtain ⟨last, before, ran⟩ := lastTurn_of_loop (advancing_of_turn (extend_turn are.eager power)) ran
  exact (stopsBelow_of_extend ran).2

end Parts

theorem within_areOrdered (room : Nat) : (ExprParts.within room).AreOrdered := by
  induction room with
  | zero =>
      exact ⟨within_areEager 0, fun _ _ _ _ ran => absurd ran tooDeep_ne_ok,
        fun _ _ _ _ ran => absurd ran tooDeep_ne_ok⟩
  | succ room ih =>
      exact ⟨within_areEager (room + 1), operation_binds ih,
        fun _ _ _ _ ran => stopsBelow_of_operation ih ran⟩

end Grammar

/-! ### Soundness -/

def Parser.HasOptions (options : Options) (parser : Parser) : Prop :=
  parser.options = options

instance (options : Options) : Calm (Parser.HasOptions options) where
  moved _ _ := Iff.rfl
  sameOptions _ _ left right := left.trans right.symm

theorem Parser.words_eq_of_at {source : String} {index : Nat} {parser : Parser}
    (place : parser.cursor.At (Slot.buffer (tokenize source).1) index) :
    parser.words = parser.cursor.ahead.map fun slot => slot.token.spelling := by
  refine List.map_congr_left fun slot member => isSpelled_of_tokenize source slot.token ?_
  rw [place.ahead] at member
  exact (Slot.ofTokens_sublist [] (tokenize source).1).subset
    (List.mem_map_of_mem (List.mem_of_mem_drop member))

/-- An expression read from the tokens of a source is written as exactly the tokens
that were passed over. It has the one shape that the table of precedences allows for
its operands and operators, and the next token is no operator that could go on with
it. -/
theorem expr_allowed (source : String) {index room power : Nat} {parser later : Parser}
    {expr : Expr} (place : parser.cursor.At (Slot.buffer (tokenize source).1) index)
    (ran : Grammar.expr room power parser = .ok expr later) :
    ∃ next, later.cursor.At (Slot.buffer (tokenize source).1) next ∧ index ≤ next ∧
      (((Slot.buffer (tokenize source).1).drop index).take (next - index)).map
          (fun slot => slot.token.spelling) = expr.written ∧
      expr.Ordered ∧
      (∀ slot operator, (Slot.buffer (tokenize source).1)[next]? = some slot →
        BinaryOperator.ofKind? slot.token.kind = some operator → operator.leftPower < power) ∧
      ∀ other : Expr, other.Ordered → other.erasedChain = expr.erasedChain →
        other.erased = expr.erased := by
  have orderly : Step.Orderly (fun _ => True) (Grammar.expr room power) :=
    (Grammar.expr_eager room power).orderly
  have placed := ((orderly parser).isIn (Cursor.isIn_iff.mpr ⟨index, place⟩)).2
  rw [Step.after_of_ok ran] at placed
  obtain ⟨next, placeLater⟩ := Cursor.isIn_iff.mp placed
  -- What is written of the expression tells how many tokens have been passed over, and which.
  have written : parser.words = expr.written ++ later.words := by
    have reads : Grammar.Reads (Parser.HasOptions later.options) (Grammar.expr room power)
        Expr.erased Expr.written := Grammar.expr_reads room power
    obtain ⟨added, whole, reread⟩ := reads ran rfl
    rw [whole, List.nil_append]
    exact reread.passed trivial
  have lengths := place.length_eq
  have lengthsLater := placeLater.length_eq
  have passed := congrArg List.length written
  rw [List.length_append, parser.length_words, later.length_words] at passed
  refine ⟨next, placeLater, by omega, ?_, ?_, ?_, ?_⟩
  · have count : next - index = expr.written.length := by omega
    have short : expr.written.length ≤ parser.cursor.ahead.length := by
      change _ ≤ parser.cursor.remaining
      omega
    rw [count, ← place.rest, List.take_append_of_le_length short, List.map_take,
      ← Parser.words_eq_of_at place, written, List.take_left]
  · exact ((Grammar.within_areOrdered room).binds power ran).ordered
  · intro slot operator here isOperator
    have current := placeLater.peek
    rw [here] at current
    have isPeek : slot.token = later.cursor.peek := Option.some.inj current
    rw [isPeek] at isOperator
    exact (Grammar.within_areOrdered room).stops power ran operator isOperator
  · intro other ordered same
    have orderedExpr := ((Grammar.within_areOrdered room).binds power ran).ordered
    exact Expr.erased_eq_of_chain (.of_ordered ordered) (.of_ordered orderedExpr) same

/-- The parse of `-1 + a[0] * (int) b` that is about to start. -/
def sumParser : Parser :=
  .ofTokens (tokenize "-1 + a[0] * (int) b").1 [] {}

theorem expr_allowed_sum :
    ∃ expr later, Grammar.expr 64 0 sumParser = .ok expr later ∧
      ∃ next, later.cursor.At (Slot.buffer (tokenize "-1 + a[0] * (int) b").1) next ∧ 0 ≤ next ∧
        (((Slot.buffer (tokenize "-1 + a[0] * (int) b").1).drop 0).take (next - 0)).map
            (fun slot => slot.token.spelling) = expr.written ∧
        expr.Ordered ∧
        (∀ slot operator, (Slot.buffer (tokenize "-1 + a[0] * (int) b").1)[next]? = some slot →
          BinaryOperator.ofKind? slot.token.kind = some operator → operator.leftPower < 0) ∧
        ∀ other : Expr, other.Ordered → other.erasedChain = expr.erasedChain →
          other.erased = expr.erased := by
  have reads : (match Grammar.expr 64 0 sumParser with
      | .ok _ _ => true
      | .error _ _ => false) = true := by
    decide +kernel
  cases ran : Grammar.expr 64 0 sumParser with
  | ok expr later =>
      exact ⟨expr, later, rfl, expr_allowed "-1 + a[0] * (int) b" (Cursor.At.ofTokens _) ran⟩
  | error diagnostic later =>
      rw [ran] at reads
      cases reads

end ServiceLang
