import ServiceLang.Proofs.StableExpr

set_option autoImplicit false

/-! Values that nothing goes on with. An at sign goes on with a variable reference, and with
nothing else that an expression can end with. So where an expression that ends with no reference
is read up to a semicolon, it is read up to there as well with an annotation in the place of
the semicolon. -/

namespace ServiceLang

def Expr.endsInReference : Expr → Bool
  | .reference _ => true
  | .cast _ operand _ | .convert _ operand _ | .unary _ operand _ => operand.endsInReference
  | .binary _ _ right _ => right.endsInReference
  | _ => false

def Expr.IsSealed (expr : Expr) : Prop :=
  expr.endsInReference = false

instance (expr : Expr) : Decidable expr.IsSealed :=
  inferInstanceAs (Decidable (_ = _))

theorem StartsUnsought.opensOperand {slots : List Slot} (unsought : StartsUnsought slots) :
    opensOperand (slots.map fun slot => slot.token.kind) = false := by
  obtain ⟨kind, others, isKinds, isUnsought⟩ := unsought.kinds
  rw [isKinds]
  cases kind with
  | symbol sign => cases sign <;> first | rfl | cases isUnsought
  | keyword word => cases word <;> first | rfl | cases isUnsought
  | _ => cases isUnsought

theorem Grammar.ofKind?_of_isUnsought {kind : Kind} (unsought : kind.isUnsought = true) :
    BinaryOperator.ofKind? kind = none := by
  rw [BinaryOperator.ofKind?, List.find?_eq_none]
  intro operator _ same
  rw [← eq_of_beq same] at unsought
  cases operator <;> cases unsought

theorem Cursor.kind_peek_of_startsUnsought {cursor : Cursor} {slots : List Slot}
    (ahead : cursor.ahead = slots) (unsought : StartsUnsought slots) :
    cursor.peek.kind.isUnsought = true := by
  obtain ⟨slot, others, rfl, isUnsought⟩ := unsought
  rw [Cursor.peek, ahead]
  exact isUnsought

namespace Step

variable {α β σ : Type}

/-- A step that gives a value of some sort only behind a token of its own, and then reads the
same up to a seam that is apart, whatever stands there. -/
structure Sealed (closed : α → Prop) (step : Step α) : Prop where
  stable : Stable False none step
  moves : ∀ ⦃parser later : Parser⦄ ⦃value : α⦄, step parser = .ok value later → later.Clean →
    closed value → later.cursor.remaining < parser.cursor.remaining
  meets : ∀ ⦃parser later : Parser⦄ ⦃value : α⦄, step parser = .ok value later → later.Clean →
    closed value → ∀ (seam : Seam) (shared : List Slot) (right : Parser), seam.IsApart →
      parser.Joined False seam shared right → later.cursor.ahead = seam.rest →
      ∃ last, step right = .ok value last ∧ later.Joined False seam [] last

namespace Sealed

variable {closed : α → Prop} {other : Option (List Symbol)}

/-- Behind a closing symbol nothing goes on. -/
theorem of_closed {step : Step α} {signs : List Symbol} (stable : Stable False (some signs) step) :
    Sealed closed step := by
  constructor
  · exact stable.opened
  · intro parser later value ran clean _
    obtain ⟨front, split, passed⟩ := (stable ran clean).passed
    have more := List.length_pos_iff.mpr (passed.ne_nil rfl)
    rw [Cursor.remaining, Cursor.remaining, split, List.length_append]
    omega
  · intro parser later value ran clean _ seam shared right _ joined lands
    exact (stable ran clean).again seam shared [] right joined nofun lands fun _ => .inl rfl

theorem of_unlike {step : Step α} (stable : Stable False none step)
    (unlike : ∀ {parser later : Parser} {value : α}, step parser = .ok value later → ¬closed value) :
    Sealed closed step :=
  ⟨stable, fun _ _ _ ran _ isClosed => absurd isClosed (unlike ran),
    fun _ _ _ ran _ isClosed => absurd isClosed (unlike ran)⟩

theorem of_never {step : Step α} (never : ∀ {parser value later}, step parser ≠ .ok value later) :
    Sealed closed step :=
  ⟨.of_never fun ran => absurd ran never, fun _ _ _ ran => absurd ran never,
    fun _ _ _ ran => absurd ran never⟩

theorem fail (diagnostic : Diagnostic) : Sealed closed (Step.fail diagnostic : Step α) :=
  of_never fail_ne_ok

theorem failAt (other : Token → Diagnostic) : Sealed closed (Step.failAt other : Step α) :=
  of_never failAt_ne_ok

theorem tooDeep : Sealed closed (Step.tooDeep : Step α) :=
  of_never tooDeep_ne_ok

theorem bind {closed : β → Prop} {first : Step α} {next : α → Step β}
    (here : Stable False other first) (onwards : ∀ value, Sealed closed (next value)) :
    Sealed closed (first >>= next) := by
  constructor
  · exact StableFrom.bind here fun value => (onwards value).stable
  · intro parser later result ran clean isClosed
    obtain ⟨value, between, ranFirst, ranNext⟩ := bind_ok ran
    have behind := (onwards value).stable ranNext clean
    have shorter := (onwards value).moves ranNext clean isClosed
    have before := (here ranFirst behind.clean).suffix.length_le
    exact Nat.lt_of_lt_of_le shorter before
  · intro parser later result ran clean isClosed seam shared right apart joined lands
    obtain ⟨value, between, ranFirst, ranNext⟩ := bind_ok ran
    have behind := (onwards value).stable ranNext clean
    obtain ⟨back, split, -⟩ := behind.passed
    rw [lands] at split
    have more : back ≠ [] := by
      rintro rfl
      have shorter := (onwards value).moves ranNext clean isClosed
      rw [Cursor.remaining, Cursor.remaining, split, lands, List.nil_append] at shorter
      exact Nat.lt_irrefl _ shorter
    obtain ⟨rightBetween, ranRight, joinedBetween⟩ := (here ranFirst behind.clean).again seam shared
      back right joined nofun split fun empty => absurd empty more
    obtain ⟨last, ranLast, joinedLast⟩ :=
      (onwards value).meets ranNext clean isClosed seam back rightBetween apart joinedBetween lands
    exact ⟨last, (bind_of_ok ranRight).trans ranLast, joinedLast⟩

theorem mapped {made : β → Prop} {step : Step α} {make : α → β} (sealed_ : Sealed closed step)
    (closes : ∀ value, made (make value) → closed value) :
    Sealed made (step >>= fun value => Pure.pure (make value)) := by
  constructor
  · exact .mapped _ sealed_.stable
  · intro parser later result ran clean isMade
    obtain ⟨value, between, ranStep, ran⟩ := bind_ok ran
    cases ran
    exact sealed_.moves ranStep clean (closes value isMade)
  · intro parser later result ran clean isMade seam shared right apart joined lands
    obtain ⟨value, between, ranStep, ran⟩ := bind_ok ran
    cases ran
    obtain ⟨last, ranRight, joinedLast⟩ :=
      sealed_.meets ranStep clean (closes value isMade) seam shared right apart joined lands
    exact ⟨last, bind_of_ok ranRight, joinedLast⟩

theorem ite {condition : Prop} [Decidable condition] {left right : Step α}
    (onTrue : Sealed closed left) (onFalse : Sealed closed right) :
    Sealed closed (if condition then left else right) := by
  split
  · exact onTrue
  · exact onFalse

theorem takes {step : Step α} (value? : Token → Option α)
    (reads : ∀ {parser : Parser} {value : α}, value? parser.cursor.peek = some value →
      step parser = .ok value parser.advance)
    (only : ∀ {parser later : Parser} {value : α}, step parser = .ok value later →
      ∃ value, value? parser.cursor.peek = some value)
    (notEnd : ∀ {token value}, value? token = some value → token.kind ≠ .endOfFile) :
    Sealed closed step := by
  constructor
  · exact .takes value? reads (fun ran _ => only ran) notEnd nofun nofun
  · intro parser later value ran _ _
    obtain ⟨found, here⟩ := only ran
    cases ran.symm.trans (reads here)
    exact parser.remaining_advance (notEnd here)
  · intro parser later value ran _ _ seam shared right _ joined lands
    obtain ⟨found, here⟩ := only ran
    cases ran.symm.trans (reads here)
    obtain ⟨-, -, -, again⟩ := StableFrom.again_of_takes value? reads notEnd here
    exact again seam shared [] right joined lands

theorem identifier : Sealed (fun _ => True) expectIdentifier := by
  apply takes fun token =>
    if token.kind = .identifier then some (⟨token.lexeme, token.span⟩ : Identifier) else none
  · intro parser value isValue
    split at isValue
    · cases isValue
      exact expectIdentifier_of_kind ‹_›
    · cases isValue
  · intro parser later value ran
    exact ⟨_, if_pos (expectIdentifier_ok ran).1⟩
  · intro token value isValue
    split at isValue
    · rename_i here
      rw [here]
      nofun
    · cases isValue

/-- What is optional behind a step that moves, and opens with a kind that does not stand where a
seam is apart. -/
theorem thenOptional {closed : β → Prop} {made : σ → Prop} {kind : Kind} {first : Step α}
    {part : Step β} (make : α → Option β → σ) (here : Sealed (fun _ => True) first)
    (away : kind.isInert = false) (sought : kind.isUnsought = false) (notEnd : kind ≠ .endOfFile)
    (sealed_ : Sealed closed part)
    (closes : ∀ value found, made (make value (some found)) → closed found) :
    Sealed made (do
      let value ← first
      let found ← ifBehind kind part
      return make value found) := by
  have spared : kind ≠ .symbol .semicolon := by
    rintro rfl
    cases away
  have rest (value : α) : Stable False none (do
      let found ← ifBehind kind part
      return make value found) := .mapped _ (.ifBehind away notEnd sealed_.stable)
  -- Where the part stands, its first token is taken as if it had to stand there.
  have taken : Sealed made (do
      let value ← first
      let _ ← expect kind
      let found ← part
      return make value (some found)) :=
    .bind here.stable fun value => .bind (.expect kind notEnd spared) fun _ =>
      sealed_.mapped (closes value)
  constructor
  · exact StableFrom.bind here.stable rest
  · intro parser later result ran clean _
    obtain ⟨value, between, ranFirst, ranRest⟩ := bind_ok ran
    have carried := rest value ranRest clean
    exact Nat.lt_of_le_of_lt carried.suffix.length_le (here.moves ranFirst carried.clean trivial)
  · intro parser later result ran clean isMade seam shared right apart joined lands
    obtain ⟨value, between, ranFirst, ranRest⟩ := bind_ok ran
    obtain ⟨found, last, ranPart, same⟩ := bind_ok ranRest
    cases same
    by_cases opens : between.cursor.peek.kind = kind
    · rw [ifBehind, bind_of_ok (eat_of_kind opens), if_pos rfl] at ranPart
      obtain ⟨found, last, ranPart, same⟩ := bind_ok ranPart
      cases same
      have ranTaken : (do
          let value ← first
          let _ ← expect kind
          let found ← part
          return make value (some found)) parser = .ok (make value (some found)) later := by
        rw [bind_of_ok ranFirst, bind_of_ok (expect_of_kind opens), bind_of_ok ranPart, pure_eq]
      obtain ⟨last, ranRight, joinedLast⟩ :=
        taken.meets ranTaken clean isMade seam shared right apart joined lands
      refine ⟨last, ?_, joinedLast⟩
      obtain ⟨other, rightBetween, ranFirstRight, ranRight⟩ := bind_ok ranRight
      obtain ⟨_, _, ranExpect, ranRight⟩ := bind_ok ranRight
      obtain ⟨opensRight, -, rfl⟩ := expect_ok ranExpect
      obtain ⟨found, behind, ranPartRight, same⟩ := bind_ok ranRight
      rw [bind_of_ok ranFirstRight, ifBehind, bind_assoc, bind_of_ok (eat_of_kind opensRight),
        if_pos rfl, bind_assoc, bind_of_ok ranPartRight]
      exact same
    · rw [ifBehind, bind_of_ok (eat_of_other opens), if_neg Bool.false_ne_true] at ranPart
      cases ranPart
      obtain ⟨last, ranRight, joinedLast⟩ :=
        here.meets ranFirst clean trivial seam shared right apart joined lands
      have away : last.cursor.peek.kind ≠ kind := by
        rintro rfl
        rw [Cursor.kind_peek_of_startsUnsought joinedLast.other apart.other] at sought
        cases sought
      refine ⟨last, ?_, joinedLast⟩
      rw [bind_of_ok ranRight, ifBehind, bind_assoc, bind_of_ok (eat_of_other away),
        if_neg Bool.false_ne_true]
      rfl

/-! ### Loops -/

section Loops

variable {turn : σ → Step (ForInStep σ)} {closed : σ → Prop}
  (stops : ∀ {state : σ} {parser : Parser}, parser.cursor.peek.kind.isUnsought = true →
    turn state parser = .ok (.done state) parser)
  (still : ∀ {state final : σ} {parser later : Parser},
    turn state parser = .ok (.done final) later → later = parser)
  (turns : ∀ state, Turn (fun _ => True) (turn state))
  (stable : ∀ state, Stable False none (turn state))
  (sealed_ : ∀ state, Sealed (fun decision => ∃ next, decision = .yield next ∧ closed next)
    (turn state))

include stops still turns stable sealed_ in
theorem loop_meets {state final : σ} {parser later right : Parser} {seam : Seam}
    {shared : List Slot} (ran : loop turn state parser = .ok final later) (clean : later.Clean)
    (isClosed : closed final) (apart : seam.IsApart)
    (joined : parser.Joined False seam shared right) (lands : later.cursor.ahead = seam.rest) :
    ∃ last, loop turn state right = .ok final last ∧ later.Joined False seam [] last := by
  by_cases empty : shared = []
  · subst empty
    cases (loop_of_done (stops (Cursor.kind_peek_of_startsUnsought joined.ahead apart.rest))).symm.trans ran
    exact ⟨right, loop_of_done (stops (Cursor.kind_peek_of_startsUnsought joined.other apart.other)),
      joined⟩
  rcases loop_ok ran with ranTurn | ⟨next, between, ranTurn, ⟨shorter, rest⟩ | ⟨notMoved, -, -⟩⟩
  · obtain rfl := still ranTurn
    rw [joined.ahead] at lands
    exact absurd (List.append_left_eq_self.mp lands) empty
  · have behind := (StableFrom.loop stable next) rest clean
    obtain ⟨back, split, -⟩ := behind.passed
    rw [lands] at split
    obtain ⟨rightBetween, ranRight, joinedBetween⟩ : ∃ rightBetween,
        turn state right = .ok (.yield next) rightBetween ∧
          between.Joined False seam back rightBetween := by
      by_cases nothing : back = []
      · subst nothing
        cases (loop_of_done (stops
          (Cursor.kind_peek_of_startsUnsought split apart.rest))).symm.trans rest
        exact (sealed_ state).meets ranTurn clean ⟨_, rfl, isClosed⟩ seam shared right apart joined
          lands
      · exact (stable state ranTurn behind.clean).again seam shared back right joined nofun split
          fun none => absurd none nothing
    rw [loop_of_yield ranRight ((turns state).advances ranRight)]
    exact loop_meets rest clean isClosed apart joinedBetween lands
  · exact absurd ((turns state).advances ranTurn) notMoved
termination_by parser.cursor.remaining

include stops still turns stable sealed_ in
/-- A loop behind a first value, with which it is done if it stops at once. -/
theorem thenLoop {first : Step σ} (here : Sealed closed first) (strict : Strict first) :
    Sealed closed (first >>= Step.loop turn) := by
  constructor
  · exact StableFrom.bind here.stable fun state => .loop stable state
  · intro parser later final ran clean _
    obtain ⟨state, between, ranFirst, ranLoop⟩ := bind_ok ran
    have behind := (StableFrom.loop stable state ranLoop clean).suffix.length_le
    exact Nat.lt_of_le_of_lt behind (strict ranFirst)
  · intro parser later final ran clean isClosed seam shared right apart joined lands
    obtain ⟨state, between, ranFirst, ranLoop⟩ := bind_ok ran
    have behind := (StableFrom.loop stable state) ranLoop clean
    obtain ⟨back, split, -⟩ := behind.passed
    rw [lands] at split
    obtain ⟨rightBetween, ranRight, joinedBetween⟩ : ∃ rightBetween,
        first right = .ok state rightBetween ∧ between.Joined False seam back rightBetween := by
      by_cases nothing : back = []
      · subst nothing
        cases (loop_of_done (stops
          (Cursor.kind_peek_of_startsUnsought split apart.rest))).symm.trans ranLoop
        exact here.meets ranFirst clean isClosed seam shared right apart joined lands
      · exact (here.stable ranFirst behind.clean).again seam shared back right joined nofun split
          fun none => absurd none nothing
    obtain ⟨last, ranLast, joinedLast⟩ := loop_meets stops still turns stable sealed_ ranLoop clean
      isClosed apart joinedBetween lands
    exact ⟨last, (bind_of_ok ranRight).trans ranLast, joinedLast⟩

end Loops

end Sealed

end Step

namespace Grammar

open Step

/-! ### Primary expressions -/

theorem advancedLiteral_sealed {α : Type} {closed : α → Prop} (make : Token → Literal → α) :
    Sealed closed (do
      let token ← advance
      return make token (← literalOf token)) := by
  apply Sealed.takes fun token =>
    (literalValue? token).map fun value => make token ⟨value, false, token.span⟩
  · intro parser result isResult
    obtain ⟨value, isValue, rfl⟩ := Option.map_eq_some_iff.mp isResult
    rw [bind_of_ok (advance_eq parser), literalOf, isValue]
    rfl
  · intro parser later result ran
    rw [bind_of_ok (advance_eq parser), literalOf] at ran
    cases isValue : literalValue? parser.cursor.peek with
    | some value => exact ⟨_, rfl⟩
    | none =>
        rw [isValue] at ran
        exact absurd (bind_ok ran).choose_spec.choose_spec.1 fail_ne_ok
  · intro token result isResult isEnd
    obtain ⟨value, isValue, -⟩ := Option.map_eq_some_iff.mp isResult
    rw [literalValue?, isEnd] at isValue
    cases isValue

theorem template_sealed {closed : Expr → Prop} : Sealed closed template := by
  have token : Sealed (fun _ => True) (expect .template) := by
    apply Sealed.takes fun token => if token.kind = .template then some token else none
    · intro parser value isValue
      split at isValue
      · cases isValue
        exact expect_of_kind ‹_›
      · cases isValue
    · intro parser later value ran
      exact ⟨_, if_pos (expect_ok ran).1⟩
    · intro token value isValue
      split at isValue
      · rename_i here
        rw [here]
        nofun
      · cases isValue
  exact .mapped token fun _ _ => trivial

structure ExprParts.AreSealed (parts : ExprParts) : Prop where
  stable : parts.AreStable False
  expr : ∀ power, Sealed Expr.IsSealed (parts.expr power)

variable {parts : ExprParts} (sealed_ : parts.AreSealed)

include sealed_

theorem typeMember_sealed : Sealed Expr.IsSealed (typeMember parts) :=
  .bind (baseType_stable sealed_.stable.eager.typeName.orderly sealed_.stable.typeName) fun _ =>
    .bind (.symbol .dot nofun) fun _ => .mapped .identifier fun _ _ => trivial

theorem named_sealed : Sealed Expr.IsSealed (named parts) := by
  refine .bind nameReference_stable fun name => .bind (.checkAny _) fun _ => .ite ?_ ?_
  · exact .of_closed (.mapped _ (arguments_stable sealed_.stable))
  · refine .of_unlike (.mapped _ (suffixes_stable sealed_.stable _)) fun ran => ?_
    obtain ⟨target, _, -, ran⟩ := bind_ok ran
    cases ran
    nofun

theorem primary_sealed : Sealed Expr.IsSealed (primary parts) := by
  have literal : Sealed Expr.IsSealed plainLiteral := advancedLiteral_sealed fun _ => Expr.literal
  refine .bind .peek fun token => ?_
  split
  · exact literal
  · exact literal
  · exact literal
  · exact literal
  · exact literal
  · exact template_sealed
  · exact .of_closed (.bind (.symbol .leftBracket nofun) fun _ => .mapped _
      (.closedList (sealed_.stable.eager.expr 0).orderly (sealed_.stable.expr 0) nofun))
  · exact .of_closed (.bind (.symbol .leftBrace nofun) fun _ => .mapped _
      (.closedList (mapEntry_orderly sealed_.stable.eager) (mapEntry_stable sealed_.stable) nofun))
  · exact named_sealed sealed_
  · exact .fail _
  · exact .ite (typeMember_sealed sealed_) (.failAt _)

/-! ### Operators -/

theorem castForm_sealed : Sealed Expr.IsSealed (castForm parts) :=
  .bind (.symbol .leftParen nofun) fun _ => .bind sealed_.stable.typeName fun _ =>
    .bind (.symbol .rightParen nofun) fun _ => .mapped (sealed_.expr _) fun _ => id

theorem convertForm_sealed : Sealed Expr.IsSealed (convertForm parts) :=
  .bind (.symbol .less nofun) fun _ => .bind sealed_.stable.typeName fun _ =>
    .bind (.symbol .greater nofun) fun _ => .mapped (sealed_.expr _) fun _ => id

/-- Neither side opens an operand behind a parenthesis at the seam. -/
theorem castOrParen_sealed : Sealed Expr.IsSealed (castOrParen parts) := by
  have either (isCast : Bool) : Sealed Expr.IsSealed
      (if isCast then castForm parts else parenForm parts) :=
    .ite (castForm_sealed sealed_) (.of_closed (parenForm_stable sealed_.stable))
  constructor
  · exact castOrParen_stable sealed_.stable
  · intro parser later value ran clean isClosed
    rw [castOrParen, look_bind (isCast_eq parser)] at ran
    exact (either _).moves ran clean isClosed
  · intro parser later value ran clean isClosed seam shared right apart joined lands
    have leaves : later.cursor.ahead = [] ++ seam.rest := lands
    have same := (closesParen_of_castOrParen sealed_.stable ran clean).startsCast_eq joined leaves
      fun _ => ⟨apart.other.opensOperand, apart.rest.opensOperand⟩
    rw [castOrParen, look_bind (isCast_eq parser)] at ran
    rw [castOrParen, look_bind (isCast_eq right), same]
    exact (either _).meets ran clean isClosed seam shared right apart joined lands

theorem operand_sealed : Sealed Expr.IsSealed (operand parts) := by
  have starts : Stable False none startsNegativeLiteral := by
    refine .of_eq (startsNegativeLiteral_stable (.pure true) (.pure false)) fun parser => ?_
    rw [startsNegativeLiteral_eq, look_bind (startsNegativeLiteral_eq parser)]
    split <;> simp_all [pure_eq]
  have negative : Sealed (fun _ => True) negativeLiteral :=
    .bind (.symbol .minus nofun) fun _ => advancedLiteral_sealed _
  refine .bind starts fun _ => .ite (.mapped negative fun _ _ => trivial) (.bind .current fun kind => ?_)
  split
  · exact .bind (.symbol _ (by cases ‹UnaryOperator› <;> decide)) fun _ =>
      .mapped (sealed_.expr _) fun _ => id
  · split
    · exact convertForm_sealed sealed_
    · exact castOrParen_sealed sealed_
    · exact primary_sealed sealed_

theorem operation_sealed (power : Nat) : Sealed Expr.IsSealed (operation parts power) := by
  have binary (operator : BinaryOperator) (left : Expr) :
      Sealed Expr.IsSealed (binaryForm parts operator left) :=
    .bind (.symbol _ (by cases operator <;> decide)) fun _ => .mapped (sealed_.expr _) fun _ => id
  apply Sealed.thenLoop _ _ (extend_turn sealed_.stable.eager power) _ _ (operand_sealed sealed_)
    (operand_eager sealed_.stable.eager).strict
  · intro left parser unsought
    rw [extend, look_bind (current_eq parser), ofKind?_of_isUnsought unsought]
    rfl
  · intro left final parser later ran
    rw [extend, look_bind (current_eq parser)] at ran
    cases here : BinaryOperator.ofKind? parser.cursor.peek.kind with
    | none =>
        rw [here] at ran
        cases ran
        rfl
    | some operator =>
        simp only [here] at ran
        split at ran
        · cases ran
          rfl
        · obtain ⟨_, _, -, ran⟩ := bind_ok ran
          cases ran
  · intro left
    refine .bind .current fun kind => ?_
    split
    · exact .pure _
    · exact .ite (.pure _) (.mapped _ (binaryForm_stable sealed_.stable _ _))
  · intro left
    have done : Sealed (fun decision => ∃ next, decision = .yield next ∧ Expr.IsSealed next)
        (pure (.done left) : Step (ForInStep Expr)) := .of_unlike (.pure _) fun ran isYield => by
      cases ran
      obtain ⟨next, same, -⟩ := isYield
      cases same
    refine .bind .current fun kind => ?_
    split
    · exact done
    · exact .ite done (.mapped (binary _ _) fun value isYield => by
        obtain ⟨next, same, closed⟩ := isYield
        cases same
        exact closed)

omit sealed_ in
theorem within_areSealed (room : Nat) : (ExprParts.within room).AreSealed := by
  refine ⟨ExprParts.within_areStable room, ?_⟩
  induction room with
  | zero => exact fun _ => .tooDeep
  | succ room ih => exact operation_sealed ⟨ExprParts.within_areStable room, ih⟩

/-! ### Initializers -/

theorem initializer_sealed : Sealed Expr.IsSealed (initializer parts) := by
  refine .bind (.checkAny _) fun _ => .ite ?_ (.bind .isInvocation fun _ => .ite ?_ (sealed_.expr 0))
  · exact .of_closed (.bind (.keyword _) fun _ => .bind nameReference_stable fun _ =>
      .mapped _ (arguments_stable sealed_.stable))
  · exact .of_closed (.mapped _ (invocation_stable sealed_.stable))

/-! ### Variable definitions -/

def varDefHead (parts : ExprParts) : Step (TypeName × Identifier × Option Expr) := do
  let type ← parts.typeName
  let name ← expectIdentifier
  let init ← ifBehind (.symbol .equal) (initializer parts)
  return (type, name, init)

omit sealed_ in
theorem varDef_eq (parts : StmtParts) : varDef parts = (do
    let head ← varDefHead parts.toExprParts
    let _ ← endStatement
    return ⟨head.1, head.2.1, head.2.2, ← spanFrom head.1.span⟩) := by
  simp only [varDef, varDefHead, bind_assoc, pure_bind]

omit sealed_ in
/-- A variable that nothing is wrong with ends with a semicolon. -/
theorem varDef_ok {parts : StmtParts} {parser later : Parser} {value : VarDef}
    (ran : varDef parts parser = .ok value later) (clean : later.Clean) :
    ∃ head between, varDefHead parts.toExprParts parser = .ok head between ∧ between.Clean ∧
      between.cursor.peek.kind = .symbol .semicolon ∧ later = between.advance ∧
      value = ⟨head.1, head.2.1, head.2.2, later.cursor.spanFrom head.1.span⟩ := by
  rw [varDef_eq] at ran
  obtain ⟨head, between, ranHead, ranRest⟩ := bind_ok ran
  obtain ⟨marker, last, ranEnd, ranSpan⟩ := bind_ok ranRest
  cases ranSpan
  have atSemicolon := StableFrom.semicolon_of_endStatement ranEnd clean
  cases (endStatement_of_kind atSemicolon).symm.trans ranEnd
  exact ⟨head, between, ranHead, Parser.clean_of_advance clean, atSemicolon, rfl, rfl⟩

omit sealed_ in
theorem varDef_of_head {parts : StmtParts} {parser between later : Parser}
    {head : TypeName × Identifier × Option Expr} {marker : TokenMarker}
    (ranHead : varDefHead parts.toExprParts parser = .ok head between)
    (ranEnd : endStatement between = .ok marker later) :
    varDef parts parser =
      .ok ⟨head.1, head.2.1, head.2.2, later.cursor.spanFrom head.1.span⟩ later := by
  rw [varDef_eq, bind_of_ok ranHead, bind_of_ok ranEnd]
  rfl

omit sealed_ in
theorem varDefHead_stable {reach : Prop} (stable : parts.AreStable reach) :
    Stable reach none (varDefHead parts) :=
  .bind stable.typeName fun _ => .bind .identifier fun _ =>
    .mapped _ (.ifBehind rfl (by decide) (initializer_stable stable))

omit sealed_ in
theorem varDefHead_eager {legal : Cursor → Prop} [Permissive legal] (eager : parts.AreEager legal) :
    Eager legal (varDefHead parts) :=
  .bind eager.typeName fun _ => .bind .expectIdentifier fun _ =>
    .bind (.ifBehind rfl (initializer_eager eager).orderly) fun _ => .pure _

theorem varDefHead_sealed :
    Sealed (fun head => ∀ init ∈ head.2.2, init.IsSealed) (varDefHead parts) :=
  .bind sealed_.stable.typeName fun type => .thenOptional (fun name init => (type, name, init))
    .identifier rfl rfl nofun (initializer_sealed sealed_) fun _ _ each => each _ rfl

end Grammar

end ServiceLang
