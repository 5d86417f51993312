import ServiceLang.Proofs.Outcome

set_option autoImplicit false

/-! What holds of every value that a step gives, whatever state it starts from: one
rule for each way of putting steps together. -/

namespace ServiceLang

namespace Step

variable {α β σ : Type}

def Gives (step : Step α) (holds : α → Prop) : Prop :=
  ∀ ⦃parser later value⦄, step parser = .ok value later → holds value

namespace Gives

variable {holds : α → Prop} {result : β → Prop}

theorem pure {value : α} (true : holds value) : Gives (Pure.pure value) holds := by
  intro parser later value ran
  cases ran
  exact true

theorem bindOf {first : Step α} {next : α → Step β} (here : Gives first holds)
    (onwards : ∀ value, holds value → Gives (next value) result) :
    Gives (first >>= next) result := by
  intro parser later value ran
  obtain ⟨value, between, ranFirst, ranNext⟩ := bind_ok ran
  exact onwards value (here ranFirst) ranNext

theorem bind {first : Step α} {next : α → Step β} (onwards : ∀ value, Gives (next value) result) :
    Gives (first >>= next) result := by
  have anything : Gives first fun _ => True := fun _ _ _ _ => trivial
  exact anything.bindOf fun value _ => onwards value

theorem fail (diagnostic : Diagnostic) : Gives (Step.fail diagnostic) holds :=
  fun _ _ _ ran => absurd ran fail_ne_ok

theorem failAt (other : Token → Diagnostic) : Gives (Step.failAt other) holds :=
  fun _ _ _ ran => absurd ran failAt_ne_ok

theorem ite {condition : Prop} [Decidable condition] {left right : Step α}
    (onTrue : Gives left holds) (onFalse : Gives right holds) :
    Gives (if condition then left else right) holds := by
  split
  · exact onTrue
  · exact onFalse

theorem loop {turn : σ → Step (ForInStep σ)} {holds : σ → Prop}
    (turns : ∀ state, holds state → Gives (turn state) fun decision => holds decision.value)
    {state : σ} (start : holds state) : Gives (Step.loop turn state) holds := by
  intro parser later final ran
  rcases loop_ok ran with ran | ⟨next, between, ran, ⟨shorter, rest⟩ | ⟨-, rfl, -⟩⟩
  · exact turns state start ran
  · exact loop turns (turns state start ran) rest
  · exact turns state start ran
termination_by parser => parser.cursor.remaining

theorem loopOfTurns {turn : σ → Step (ForInStep σ)} {holds : σ → Prop}
    (turns : ∀ state, Gives (turn state) fun decision => holds decision.value) {state : σ} :
    Gives (Step.loop turn state) holds := by
  intro parser later final ran
  rcases loop_ok ran with ran | ⟨next, between, ran, ⟨-, rest⟩ | ⟨-, rfl, -⟩⟩
  · exact turns state ran
  · exact loop (fun state _ => turns state) (turns state ran) rest
  · exact turns state ran

theorem append {found : List α} {value : α} (start : ∀ other ∈ found, holds other)
    (here : holds value) : ∀ other ∈ found ++ [value], holds other := by
  intro other member
  rcases List.mem_append.mp member with member | member
  · exact start other member
  · rw [List.mem_singleton.mp member]
    exact here

theorem commaSeparated {item : Step α} (items : Gives item holds) :
    Gives (Step.commaSeparated item) fun found => ∀ value ∈ found, holds value := by
  refine loop (fun found start => ?_) (by simp)
  refine items.bindOf fun value here => .bind fun more => ?_
  exact .ite (.pure (append start here)) (.pure (append start here))

theorem closedList {close : Symbol} {item : Step α} (items : Gives item holds) :
    Gives (Step.closedList close item) fun found => ∀ value ∈ found.1, holds value := by
  have inside : Gives (listBefore close item) fun found => ∀ value ∈ found, holds value :=
    .bind fun _ => .ite (.pure (by simp)) (.commaSeparated items)
  exact inside.bindOf fun found all => .bind fun _ => .pure all

theorem commaSeparated_ne_nil {item : Step α} :
    Gives (Step.commaSeparated item) fun found => found ≠ [] :=
  loopOfTurns fun _ => .bind fun _ => .bind fun _ => .ite (.pure (by simp)) (.pure (by simp))

theorem ifAt {kind : Kind} {part : Step α} (parts : Gives part holds) :
    Gives (Step.ifAt kind part) fun found => ∀ value ∈ found, holds value :=
  .bind fun _ => .ite (parts.bindOf fun _ here => .pure (by simpa using here)) (.pure (by simp))

theorem ifBehind {kind : Kind} {part : Step α} (parts : Gives part holds) :
    Gives (Step.ifBehind kind part) fun found => ∀ value ∈ found, holds value :=
  .bind fun _ => .ite (parts.bindOf fun _ here => .pure (by simpa using here)) (.pure (by simp))

theorem whileAt {kind : Kind} {item : Step α} (items : Gives item holds) :
    Gives (Step.whileAt kind item) fun found => ∀ value ∈ found, holds value := by
  refine loop (fun found start => .bind fun _ => .ite ?_ (.pure start)) (by simp)
  exact items.bindOf fun _ here => .pure (append start here)

/-- A part that may be recovered gives what it gives, or what stands for the tokens
that are skipped. -/
theorem tryCatch {part : Step α} {handle : Diagnostic → Step α} (parts : Gives part holds)
    (handled : ∀ diagnostic, Gives (handle diagnostic) holds) :
    Gives (MonadExcept.tryCatch part handle) holds := by
  intro parser later value ran
  rw [tryCatch_eq] at ran
  split at ran
  · rename_i found between here
    cases ran
    exact parts here
  · exact handled _ ran

theorem orRecover {point : SyncPoint} {part : Step α} {instead : Span → α}
    (parts : Gives part holds) (skipped : ∀ span, holds (instead span)) :
    Gives (Step.orRecover point part instead) holds :=
  .bind fun _ => .tryCatch parts fun _ => .bind fun span => .pure (skipped span)

theorem orSkip {part : Step α} {instead : Span → α}
    (parts : Gives part holds) (skipped : ∀ span, holds (instead span)) :
    Gives (Step.orSkip part instead) holds :=
  .bind fun _ => .tryCatch parts fun _ => .bind fun span => .pure (skipped span)

end Gives

end Step

end ServiceLang
