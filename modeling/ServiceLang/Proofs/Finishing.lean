import ServiceLang.Proofs.Appending

set_option autoImplicit false

/-! Statements at the end of what is read. A statement ends with its semicolon or with its last
brace, and before a closing brace nothing goes on with it, no more than at the end. So it is
read the same there, whichever of the two stands behind it. -/

namespace ServiceLang

/-- On either side there is a closing brace at the seam, or nothing. -/
structure Seam.Halts (seam : Seam) : Prop where
  rest : ∀ slot ∈ seam.rest.head?, slot.token.kind = .symbol .rightBrace
  other : ∀ slot ∈ seam.other.head?, slot.token.kind = .symbol .rightBrace

def Kind.isHalt (kind : Kind) : Bool :=
  kind == .symbol .rightBrace || kind == .endOfFile

theorem Cursor.isHalt_peek {cursor : Cursor}
    (halts : ∀ slot ∈ cursor.ahead.head?, slot.token.kind = .symbol .rightBrace) :
    cursor.peek.kind.isHalt = true := by
  cases ahead : cursor.ahead with
  | nil =>
      rw [cursor.peek_isEnd_iff.mpr ahead]
      rfl
  | cons slot rest =>
      have here : cursor.peek.kind = .symbol .rightBrace := by
        rw [Cursor.peek, ahead]
        exact halts slot (by rw [ahead]; rfl)
      rw [here]
      rfl

theorem EndsDefinition.behind {front back : List Slot} (ends : EndsDefinition back)
    (more : back ≠ []) : EndsDefinition (front ++ back) := by
  intro slot isLast
  apply ends slot
  rw [List.singleton_suffix_iff_getLast?_eq_some] at isLast ⊢
  rwa [List.getLast?_append, List.getLast?_eq_some_getLast more, Option.some_or,
    ← List.getLast?_eq_some_getLast more] at isLast

namespace Parser.Joined

variable {seam : Seam} {shared : List Slot} {left right : Parser}
  (joined : left.Joined False seam shared right)

include joined

theorem isHalt_peek (empty : shared = []) (halts : seam.Halts) :
    left.cursor.peek.kind.isHalt = true ∧ right.cursor.peek.kind.isHalt = true := by
  subst empty
  constructor
  · apply Cursor.isHalt_peek
    rw [joined.ahead]
    exact halts.rest
  · apply Cursor.isHalt_peek
    rw [joined.other]
    exact halts.other

theorem same_check (halts : seam.Halts) {kind : Kind} (away : kind.isHalt = false) :
    (right.cursor.peek.kind == kind) = (left.cursor.peek.kind == kind) := by
  by_cases empty : shared = []
  · have differs {other : Kind} (isHalt : other.isHalt = true) : (other == kind) = false := by
      apply beq_eq_false_iff_ne.mpr
      rintro rfl
      rw [away] at isHalt
      contradiction
    obtain ⟨leftHalts, rightHalts⟩ := joined.isHalt_peek empty halts
    rw [differs leftHalts, differs rightHalts]
  · rw [joined.peek empty]

end Parser.Joined

namespace Step

variable {α β σ : Type} {moves : Prop}

/-- How a step that may finish a statement came to its value: nothing had been reported before,
and what was passed over, if anything, ends with a semicolon or a brace. The same is read
before a seam at which the statement halts. -/
structure Finished (moves : Prop) (step : Step α) (parser : Parser) (value : α) (later : Parser) :
    Prop where
  clean : parser.Clean
  passed : ∃ front, parser.cursor.ahead = front ++ later.cursor.ahead ∧ EndsDefinition front ∧
    (moves → front ≠ [])
  again : ∀ (seam : Seam) (shared left : List Slot) (right : Parser), seam.Halts →
    parser.Joined False seam shared right → later.cursor.ahead = left ++ seam.rest →
    ∃ last, step right = .ok value last ∧ later.Joined False seam left last

def Finishes (moves : Prop) (step : Step α) : Prop :=
  ∀ ⦃parser later : Parser⦄ ⦃value : α⦄, step parser = .ok value later → later.Clean →
    Finished moves step parser value later

namespace Finishes

theorem of_never {step : Step α}
    (never : ∀ {parser value later}, step parser = .ok value later → ¬later.Clean) :
    Finishes moves step :=
  fun _ _ _ ran clean => absurd clean (never ran)

theorem of_closed {step : Step α} {signs : List Symbol} (stable : Stable False (some signs) step)
    (subset : signs ⊆ [.semicolon, .rightBrace]) : Finishes moves step := by
  intro parser later value ran clean
  have carried := stable ran clean
  obtain ⟨front, split, passed⟩ := carried.passed
  constructor
  · exact carried.clean
  · exact ⟨front, split, .of_passed passed subset, fun _ => passed.ne_nil rfl⟩
  · intro seam shared left right _ joined leaves
    exact carried.again seam shared left right joined nofun leaves fun _ => .inl rfl

theorem of_braced {step : Step α} (stable : Stable False (some [.rightBrace]) step) :
    Finishes moves step :=
  of_closed stable (by simp)

theorem of_ended {step : Step α} (stable : Stable False (some [.semicolon]) step) :
    Finishes moves step :=
  of_closed stable (by simp)

theorem of_stays {step : Step α} (stays : Stays False step) : Finishes False step := by
  intro parser later value ran clean
  obtain ⟨made, ranMade, again⟩ := stays parser
  cases ran.symm.trans ranMade
  constructor
  · exact clean
  · exact ⟨[], rfl, .nil, not_false.elim⟩
  · intro seam shared left right _ joined leaves
    obtain rfl : shared = left := List.append_cancel_right (joined.ahead.symm.trans leaves)
    exact ⟨right, again seam shared right joined, joined⟩

theorem pure (value : α) : Finishes False (Pure.pure value : Step α) :=
  of_stays (.pure value)

/-- A step whose end is not the end of the statement leaves something to the next one. -/
theorem bind {closing : Option (List Symbol)} {first : Step α} {next : α → Step β}
    (here : Stable False closing first) (onwards : ∀ value, Finishes True (next value)) :
    Finishes moves (first >>= next) := by
  intro parser later result ran clean
  obtain ⟨value, between, ranFirst, ranNext⟩ := bind_ok ran
  have behind := onwards value ranNext clean
  have before := here ranFirst behind.clean
  obtain ⟨front, split, passed⟩ := before.passed
  obtain ⟨back, splitBehind, ends, more⟩ := behind.passed
  have notEmpty : back ≠ [] := more trivial
  constructor
  · exact before.clean
  · refine ⟨front ++ back, ?_, ?_, ?_⟩
    · rw [split, splitBehind, List.append_assoc]
    · exact ends.behind notEmpty
    · exact fun _ => List.append_ne_nil_of_right_ne_nil front notEmpty
  · intro seam shared left right halts joined leaves
    have leavesBetween : between.cursor.ahead = (back ++ left) ++ seam.rest := by
      rw [splitBehind, leaves, List.append_assoc]
    have lands : Lands False closing seam (back ++ left) := fun empty =>
      absurd (List.append_eq_nil_iff.mp empty).1 notEmpty
    obtain ⟨rightBetween, ranRight, joinedBetween⟩ :=
      before.again seam shared (back ++ left) right joined nofun leavesBetween lands
    obtain ⟨last, ranLast, joinedLast⟩ :=
      behind.again seam _ left rightBetween halts joinedBetween leaves
    exact ⟨last, (bind_of_ok ranRight).trans ranLast, joinedLast⟩

/-- Behind a step that may be the end of the statement, there may be nothing more of it. -/
theorem behind {first : Step α} {next : α → Step β} (here : Finishes moves first)
    (onwards : ∀ value, Finishes False (next value)) : Finishes moves (first >>= next) := by
  intro parser later result ran clean
  obtain ⟨value, between, ranFirst, ranNext⟩ := bind_ok ran
  have behind := onwards value ranNext clean
  have before := here ranFirst behind.clean
  obtain ⟨front, split, ends, more⟩ := before.passed
  obtain ⟨back, splitBehind, endsBehind, -⟩ := behind.passed
  constructor
  · exact before.clean
  · refine ⟨front ++ back, ?_, ends.append endsBehind, ?_⟩
    · rw [split, splitBehind, List.append_assoc]
    · exact fun moved => List.append_ne_nil_of_left_ne_nil (more moved) back
  · intro seam shared left right halts joined leaves
    have leavesBetween : between.cursor.ahead = (back ++ left) ++ seam.rest := by
      rw [splitBehind, leaves, List.append_assoc]
    obtain ⟨rightBetween, ranRight, joinedBetween⟩ :=
      before.again seam shared (back ++ left) right halts joined leavesBetween
    obtain ⟨last, ranLast, joinedLast⟩ :=
      behind.again seam _ left rightBetween halts joinedBetween leaves
    exact ⟨last, (bind_of_ok ranRight).trans ranLast, joinedLast⟩

theorem mapped {step : Step α} (make : α → β) (finishes : Finishes moves step) :
    Finishes moves (step >>= fun value => Pure.pure (make value)) :=
  finishes.behind fun _ => pure _

theorem spanned (start : Span) (make : Span → α) :
    Finishes False (do return make (← Step.spanFrom start)) :=
  of_stays (.spanned start make)

theorem still {step : Step α} (finishes : Finishes moves step) : Finishes False step := by
  intro parser later value ran clean
  have finished := finishes ran clean
  obtain ⟨front, split, ends, -⟩ := finished.passed
  exact ⟨finished.clean, ⟨front, split, ends, not_false.elim⟩, finished.again⟩

theorem ite {condition : Prop} [Decidable condition] {left right : Step α}
    (onTrue : Finishes moves left) (onFalse : Finishes moves right) :
    Finishes moves (if condition then left else right) := by
  split
  · exact onTrue
  · exact onFalse

/-! ### Looking -/

theorem check {kind : Kind} (away : kind.isHalt = false) {left right : Step α}
    (onTrue : Finishes moves left) (onFalse : Finishes moves right) :
    Finishes moves (do if ← Step.check kind then left else right) := by
  intro parser later value ran clean
  rw [look_bind (check_eq parser kind)] at ran
  have finished := (ite onTrue onFalse : Finishes moves _) ran clean
  constructor
  · exact finished.clean
  · exact finished.passed
  · intro seam shared left right halts joined leaves
    rw [look_bind (check_eq right kind), joined.same_check halts away]
    exact finished.again seam shared left right halts joined leaves

theorem eat? {kind : Kind} (away : kind.isHalt = false) (spared : kind ≠ .symbol .semicolon)
    {next : Option Token → Step α} (onSome : ∀ token, Finishes True (next (some token)))
    (onNone : Finishes moves (next none)) : Finishes moves (Step.eat? kind >>= next) := by
  have notEnd : kind ≠ .endOfFile := by
    rintro rfl
    cases away
  have same : (Step.eat? kind >>= next) = (do
      if ← Step.check kind then Step.expect kind >>= fun token => next (some token)
      else next none) := by
    funext parser
    rw [look_bind (check_eq parser kind)]
    by_cases here : parser.cursor.peek.kind = kind
    · rw [bind_of_ok (eat?_of_kind here), if_pos (by simpa using here),
        bind_of_ok (expect_of_kind here)]
    · rw [bind_of_ok (eat?_of_other here), if_neg (by simpa using here)]
  rw [same]
  exact check away (bind (.expect kind notEnd spared) onSome) onNone

theorem eat {kind : Kind} (away : kind.isHalt = false) (spared : kind ≠ .symbol .semicolon)
    {next : Bool → Step α} (onTrue : Finishes True (next true))
    (onFalse : Finishes moves (next false)) : Finishes moves (Step.eat kind >>= next) := by
  have same : (Step.eat kind >>= next) = (Step.eat? kind >>= fun found => next found.isSome) := by
    rw [Step.eat, bind_assoc]
    rfl
  rw [same]
  exact eat? away spared (fun _ => onTrue) onFalse

theorem ifAt {kind : Kind} (away : kind.isHalt = false) {part : Step α}
    (finishes : Finishes True part) : Finishes False (Step.ifAt kind part) :=
  check away (finishes.mapped _).still (pure _)

theorem ifBehind {kind : Kind} (away : kind.isHalt = false) (spared : kind ≠ .symbol .semicolon)
    {part : Step α} (finishes : Finishes True part) : Finishes False (Step.ifBehind kind part) :=
  eat away spared (finishes.mapped _) (pure _)

theorem report (diagnostic : Diagnostic) : Finishes moves (Step.report diagnostic) :=
  of_never fun {parser _ _} ran => by
    cases ran
    exact parser.not_clean_report diagnostic

theorem current {next : Kind → Step α} (onwards : ∀ kind, Finishes True (next kind)) :
    Finishes True (Step.current >>= next) := by
  intro parser later value ran clean
  rw [look_bind (current_eq parser)] at ran
  have finished := onwards _ ran clean
  obtain ⟨front, split, ends, more⟩ := finished.passed
  constructor
  · exact finished.clean
  · exact ⟨front, split, ends, more⟩
  · intro seam shared left right halts joined leaves
    have notEmpty : shared ≠ [] := by
      rw [Carried.shared_eq joined split leaves]
      exact List.append_ne_nil_of_left_ne_nil (more trivial) left
    rw [look_bind (current_eq right), joined.peek notEmpty]
    exact finished.again seam shared left right halts joined leaves

/-! ### Repeating -/

theorem loop {turn : σ → Step (ForInStep σ)} (finishes : ∀ state, Finishes False (turn state))
    (state : σ) : Finishes False (Step.loop turn state) := by
  intro parser later final ran clean
  induction less : parser.cursor.remaining using Nat.strongRecOn generalizing parser state with
  | ind _ ih =>
    subst less
    rcases loop_ok ran with ranTurn | ⟨next, between, ranTurn, ⟨shorter, rest⟩ | ⟨still, rfl, rfl⟩⟩
    · have finished := finishes state ranTurn clean
      constructor
      · exact finished.clean
      · exact finished.passed
      · intro seam shared left right halts joined leaves
        obtain ⟨last, ranRight, joinedLast⟩ :=
          finished.again seam shared left right halts joined leaves
        exact ⟨last, loop_of_done ranRight, joinedLast⟩
    · have behind := ih _ shorter next rest rfl
      have before := finishes state ranTurn behind.clean
      obtain ⟨front, split, ends, -⟩ := before.passed
      obtain ⟨back, splitBehind, endsBehind, -⟩ := behind.passed
      constructor
      · exact before.clean
      · refine ⟨front ++ back, ?_, ends.append endsBehind, not_false.elim⟩
        rw [split, splitBehind, List.append_assoc]
      · intro seam shared left right halts joined leaves
        have leavesBetween : between.cursor.ahead = (back ++ left) ++ seam.rest := by
          rw [splitBehind, leaves, List.append_assoc]
        obtain ⟨rightBetween, ranRight, joinedBetween⟩ :=
          before.again seam shared (back ++ left) right halts joined leavesBetween
        obtain ⟨last, ranLast, joinedLast⟩ :=
          behind.again seam _ left rightBetween halts joinedBetween leaves
        refine ⟨last, (loop_of_yield ranRight ?_).trans ranLast, joinedLast⟩
        rw [joined.remaining, joinedBetween.remaining] at shorter
        rw [joined.otherRemaining, joinedBetween.otherRemaining]
        omega
    · have finished := finishes state ranTurn clean
      constructor
      · exact finished.clean
      · exact finished.passed
      · intro seam shared left right halts joined leaves
        obtain ⟨last, ranRight, joinedLast⟩ :=
          finished.again seam shared left right halts joined leaves
        refine ⟨last, loop_of_still ranRight ?_, joinedLast⟩
        rw [joined.remaining, joinedLast.remaining] at still
        rw [joined.otherRemaining, joinedLast.otherRemaining]
        omega

theorem whileAt {kind : Kind} (away : kind.isHalt = false) {item : Step α}
    (finishes : Finishes True item) : Finishes False (Step.whileAt kind item) :=
  loop (fun _ => check away (finishes.mapped _).still (pure _)) []

end Finishes

end Step

/-! ### Statements -/

namespace Grammar

open Step

variable {parts : StmtParts} (stable : parts.AreStable)

include stable

theorem block_finishes_of_parts : Finishes True parts.block :=
  .of_braced (block_stable_of_parts stable)

theorem ifStatement_finishes : Finishes True (ifStatement parts) := by
  have block := block_finishes_of_parts stable
  have elseIf (word : Token) : Finishes True (elseIf parts word) :=
    .bind (condition_stable stable.expr) fun _ => .mapped _ block
  have branches : Finishes False (elseBranches parts) := by
    apply Finishes.loop
    intro found
    refine .eat? rfl (by decide) (fun word => ?_) (.pure _)
    exact .eat rfl (by decide) (.mapped _ (elseIf word)) (.mapped _ block)
  exact .bind (.keyword _) fun _ => .bind (condition_stable stable.expr) fun _ =>
    .behind block fun _ => .behind branches fun _ => .spanned _ _

theorem forkStatement_finishes : Finishes True (forkStatement parts) := by
  have block := block_finishes_of_parts stable
  have join : Finishes True (joinClause parts) :=
    .bind (.keyword _) fun _ => .bind bracketedCondition_stable fun _ =>
      .bind (clauseBinding_stable stable.expr) fun _ => .mapped _ block
  have timeout : Finishes True (timeoutClause parts) :=
    .bind (.keyword _) fun _ => .bind (condition_stable stable.expr) fun _ =>
      .bind (clauseBinding_stable stable.expr) fun _ => .mapped _ block
  exact .bind (.keyword _) fun _ => .bind (.symbol _ nofun) fun _ =>
    .bind (forkWorkers_stable stable) fun _ => .behind (.of_braced .closeBrace) fun _ =>
      .behind (.ifAt rfl join) fun _ => .behind (.ifAt rfl timeout) fun _ => .spanned _ _

theorem tryStatement_finishes : Finishes True (tryStatement parts) := by
  have block := block_finishes_of_parts stable
  have clause : Finishes True (catchClause parts) :=
    .bind (.keyword _) fun _ => .bind (clauseBinding_stable stable.expr) fun _ => .mapped _ block
  have checked (catches : List Catch) (finallyBlock : Option Block) (span : Span) :
      Finishes False (checkClauses catches finallyBlock span) :=
    .ite (.report _) (.pure _)
  exact .bind (.keyword _) fun _ => .behind block fun _ => .behind (.whileAt rfl clause) fun _ =>
    .behind (.ifBehind rfl (by decide) block) fun _ => .behind (.of_stays (.spanFrom _)) fun _ =>
      .mapped _ (checked _ _ _)

theorem transactionStatement_finishes : Finishes True (transactionStatement parts) := by
  have block := block_finishes_of_parts stable
  have one (isAborted : Bool) (found : Handlers) :
      Finishes True (handler parts isAborted found) := by
    apply Finishes.bind (.keyword _)
    intro word
    apply Finishes.behind block
    intro block
    exact .ite (.behind (.report _) fun _ => .pure _) (.pure _)
  have all : Finishes False (handlers parts) := by
    apply Finishes.loop
    intro found
    apply Finishes.check rfl
    · exact (Finishes.mapped _ (one true found)).still
    · apply Finishes.check rfl
      · exact (Finishes.mapped _ (one false found)).still
      · exact .pure _
  exact .bind (.keyword _) fun _ => .behind block fun _ => .behind all fun _ => .spanned _ _

/-- A statement is read the same before a closing brace and at the end. -/
theorem statementWith_finishes : Finishes True (statementWith parts) := by
  apply Finishes.current
  intro kind
  split
  · exact .of_ended (varAssignment_stable stable.expr)
  · exact ifStatement_finishes stable
  · exact .of_braced (iterateStatement_stable stable)
  · exact .of_braced (whileStatement_stable stable)
  · exact .of_ended (wordStatement_stable _ _)
  · exact .of_ended (wordStatement_stable _ _)
  · exact .of_ended (wordStatement_stable _ _)
  · exact forkStatement_finishes stable
  · exact tryStatement_finishes stable
  · exact .of_ended (valueStatement_stable stable.expr _ _)
  · exact .of_ended (returnStatement_stable stable.expr)
  · exact .of_ended (valueStatement_stable stable.expr _ _)
  · exact .of_braced (transformStatement_stable stable)
  · exact transactionStatement_finishes stable
  · exact .mapped _ (.of_ended namespaceDecl_stable)
  · exact .of_ended (plainStatement_stable stable.expr)

end Grammar

end ServiceLang
