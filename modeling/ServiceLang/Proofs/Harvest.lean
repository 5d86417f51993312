import Mathlib.Data.List.Perm.Subperm
import ServiceLang.Proofs.RereadingItems
import ServiceLang.Tree.Bodies

set_option autoImplicit false

/-! The bodies that a parse brings in. Whatever is said of a parser together with the bodies that
have been read so far, and is kept by steps that bring in none, goes through all rules: what the
rule for bodies adds is all that has to be shown. -/

namespace ServiceLang

open Step

/-- A relation between a parser with the bodies that have been found before it, and a later one
with those that are kept. Running on without a new body keeps it, and bodies may be dropped. -/
class Harvest (brings : Parser → List CallableBody → Parser → List CallableBody → Prop) : Prop where
  idle : ∀ {α : Type} {step : Step α} {parser later : Parser} {value : α},
    RunsIn (fun _ => True) step parser → step parser = .ok value later →
    ∀ found, brings parser found later found
  trans : ∀ {first second third : Parser} {found kept given : List CallableBody},
    brings first found second kept → brings second kept third given →
    brings first found third given
  fewer : ∀ {parser later : Parser} {found kept given : List CallableBody},
    brings parser found later kept → given.Subperm kept → brings parser found later given

variable {brings : Parser → List CallableBody → Parser → List CallableBody → Prop}

/-- Where bodies have been found, a step that gives a value leaves those that belong to it. -/
def Step.Harvests {α : Type}
    (brings : Parser → List CallableBody → Parser → List CallableBody → Prop)
    (found : List CallableBody) (step : Step α) (given : α → List CallableBody) : Prop :=
  ∀ ⦃parser later value⦄, step parser = .ok value later → brings parser found later (given value)

abbrev Step.Adds {α : Type}
    (brings : Parser → List CallableBody → Parser → List CallableBody → Prop)
    (step : Step α) (bodies : α → List CallableBody) : Prop :=
  ∀ found, Harvests brings found step fun value => found ++ bodies value

namespace Step.Harvests

variable [Harvest brings] {α β σ : Type} {found : List CallableBody}
  {kept : α → List CallableBody} {given : β → List CallableBody}

theorem idle {step : Step α} (orderly : Orderly (fun _ => True) step) :
    Harvests brings found step fun _ => found :=
  fun parser _ _ ran => Harvest.idle (orderly parser) ran found

theorem bind {first : Step α} {next : α → Step β} (here : Harvests brings found first kept)
    (onwards : ∀ value, Harvests brings (kept value) (next value) given) :
    Harvests brings found (first >>= next) given := by
  intro parser later result ran
  obtain ⟨value, between, ranFirst, ranNext⟩ := bind_ok ran
  exact Harvest.trans (here ranFirst) (onwards value ranNext)

theorem behind {first : Step α} {next : α → Step β} (orderly : Orderly (fun _ => True) first)
    (onwards : ∀ value, Harvests brings found (next value) given) :
    Harvests brings found (first >>= next) given :=
  (idle orderly).bind onwards

theorem pure {value : α} (fewer : (kept value).Subperm found) :
    Harvests brings found (Pure.pure value) kept := by
  intro parser later result ran
  have here : brings parser found later found := idle (.pure value) ran
  cases ran
  exact Harvest.fewer here fewer

theorem whole {value : α} (same : kept value = found) :
    Harvests brings found (Pure.pure value) kept :=
  pure (same ▸ .refl _)

omit [Harvest brings] in
theorem never {step : Step α} (never : ∀ {parser value later}, step parser ≠ .ok value later) :
    Harvests brings found step kept :=
  fun _ _ _ ran => absurd ran never

omit [Harvest brings] in
theorem ite {condition : Prop} [Decidable condition] {left right : Step α}
    (onTrue : Harvests brings found left kept) (onFalse : Harvests brings found right kept) :
    Harvests brings found (if condition then left else right) kept := by
  split
  · exact onTrue
  · exact onFalse

theorem loop {turn : σ → Step (ForInStep σ)} (held : σ → List CallableBody)
    (turns : ∀ state, Harvests brings (held state) (turn state) fun decision => held decision.value)
    (state : σ) : Harvests brings (held state) (Step.loop turn state) held := by
  intro parser later final ran
  rcases loop_ok ran with ran | ⟨next, between, ran, ⟨shorter, rest⟩ | ⟨-, rfl, rfl⟩⟩
  · exact turns state ran
  · have here : brings parser (held state) between (held next) := turns state ran
    exact Harvest.trans here (loop held turns next rest)
  · exact turns state ran
termination_by parser => parser.cursor.remaining

theorem recovering {step part : Step α} {instead : Span → α}
    (orderly : Orderly (fun _ => True) step) (here : Harvests brings found part kept)
    (skipped : ∀ span, (kept (instead span)).Subperm found)
    (cases : ∀ {parser later value}, step parser = .ok value later →
      part parser = .ok value later ∨ ∃ span, value = instead span) :
    Harvests brings found step kept := by
  intro parser later value ran
  rcases cases ran with ranPart | ⟨span, rfl⟩
  · exact here ranPart
  · exact Harvest.fewer (idle orderly ran) (skipped span)

/-- Nothing is kept of a part that is broken. -/
theorem orRecover {point : SyncPoint} {part : Step α} {instead : Span → α}
    (orderly : Orderly (fun _ => True) part) (here : Harvests brings found part kept)
    (skipped : ∀ span, (kept (instead span)).Subperm found) :
    Harvests brings found (Step.orRecover point part instead) kept := by
  refine recovering (fun parser => .orRecover (orderly parser) trivial) here skipped
    fun {parser} {later value} ran => ?_
  rcases orRecover_cases point part instead parser with
    ⟨_, _, ranPart, same⟩ | ⟨_, _, span, _, -, same, -⟩
  · exact .inl (ranPart.trans (same.symm.trans ran))
  · cases same.symm.trans ran
    exact .inr ⟨span, rfl⟩

theorem orSkip {part : Step α} {instead : Span → α}
    (orderly : Orderly (fun _ => True) part) (here : Harvests brings found part kept)
    (skipped : ∀ span, (kept (instead span)).Subperm found) :
    Harvests brings found (Step.orSkip part instead) kept := by
  refine recovering (fun parser => .orSkip (orderly parser) trivial) here skipped
    fun {parser} {later value} ran => ?_
  rcases orSkip_cases part instead parser with
    ⟨_, _, ranPart, same⟩ | ⟨_, _, span, _, -, same, -⟩
  · exact .inl (ranPart.trans (same.symm.trans ran))
  · cases same.symm.trans ran
    exact .inr ⟨span, rfl⟩

end Step.Harvests

namespace Step.Adds

variable [Harvest brings] {α β : Type} {bodies : α → List CallableBody}

theorem none {step : Step α} (orderly : Orderly (fun _ => True) step)
    (bare : Gives step fun value => bodies value = []) : Adds brings step bodies := by
  intro found parser later value ran
  change brings parser found later (found ++ bodies value)
  rw [bare ran, List.append_nil]
  exact Harvests.idle orderly ran

omit [Harvest brings] in
theorem mappedOf {step : Step α} {make : α → β} {others : β → List CallableBody}
    {holds : α → Prop} (adds : Adds brings step bodies) (gives : Gives step holds)
    (same : ∀ value, holds value → others (make value) = bodies value) :
    Adds brings (step >>= fun value => Pure.pure (make value)) others := by
  intro found parser later result ran
  obtain ⟨value, between, ranPart, ran⟩ := bind_ok ran
  cases ran
  change brings parser found _ (found ++ others (make value))
  rw [same value (gives ranPart)]
  exact adds found ranPart

theorem ifAt {kind : Kind} {part : Step α} (adds : Adds brings part bodies) :
    Adds brings (Step.ifAt kind part) (bodiesIfAny bodies) :=
  fun found => .behind (.check _) fun _ =>
    .ite ((adds found).bind fun _ => .whole rfl) (.whole (List.append_nil found))

theorem ifBehind {kind : Kind} {part : Step α} (adds : Adds brings part bodies) :
    Adds brings (Step.ifBehind kind part) (bodiesIfAny bodies) :=
  fun found => .behind (fun _ => Run.eat fun _ => trivial) fun _ =>
    .ite ((adds found).bind fun _ => .whole rfl) (.whole (List.append_nil found))

theorem whileAt {kind : Kind} {item : Step α} (adds : Adds brings item bodies) :
    Adds brings (Step.whileAt kind item) (List.flatMap bodies) := by
  intro found
  have all : Harvests brings _ (Step.loop (nextAt kind item) []) _ :=
    .loop (fun items => found ++ items.flatMap bodies) (fun items => .behind (.check _) fun _ =>
      .ite ((adds _).bind fun _ => .whole (by simp [ForInStep.value])) (.whole rfl)) []
  rwa [List.flatMap_nil, List.append_nil] at all

end Step.Adds

end ServiceLang
