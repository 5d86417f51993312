import ServiceLang.Proofs.Passing
import ServiceLang.Proofs.Run

set_option autoImplicit false

/-! Steps that respect the words that open a definition. Such a word is only
passed over right behind another token that asks for it, or by the definition
that it opens. Here are the steps that all rules are made of; every rule is then
shown to be orderly from its parts. -/

namespace ServiceLang

/-- The words that open a definition, wherever they stand. -/
def Kind.isBarrier : Kind → Bool
  | .keyword .serviceKw | .keyword .functionKw | .keyword .connectorKw | .keyword .structKw
  | .keyword .typemapperKw | .keyword .constKw | .keyword .annotationKw => true
  | _ => false

/-- The tokens that take such a word as a part of what they are in. -/
def Kind.sheltersBarrier (kind : Kind) : Bool :=
  kind ∈ [.keyword .nativeKw, .keyword .attachKw, .symbol .comma]

theorem Kind.startsDefinition_of_isBarrier {kind : Kind} (barrier : kind.isBarrier = true) :
    kind.startsDefinition = true := by
  cases kind with
  | keyword word => cases word <;> first | rfl | exact barrier
  | _ => exact barrier

def Cursor.IsSheltered (cursor : Cursor) : Prop :=
  ∃ token, cursor.previous = some token ∧ token.kind.sheltersBarrier = true

def Cursor.IsOpen (cursor : Cursor) : Prop :=
  cursor.peek.kind.isBarrier = false ∨ cursor.IsSheltered

theorem Cursor.isSheltered_advance {cursor : Cursor} {kind : Kind}
    (here : cursor.peek.kind = kind) (notEnd : kind ≠ .endOfFile)
    (shelters : kind.sheltersBarrier = true) : cursor.advance.IsSheltered := by
  refine ⟨cursor.peek, cursor.previous_advance fun empty => ?_, ?_⟩
  · exact notEnd (here.symm.trans (cursor.peek_isEnd_iff.mpr empty))
  · rw [here]
    exact shelters

theorem Cursor.IsOpen.of_kind {cursor : Cursor} {kind : Kind} (here : cursor.peek.kind = kind)
    (free : kind.isBarrier = false) : cursor.IsOpen :=
  .inl (by rw [here]; exact free)

/-- Two cursors between the same tokens. The comments that are left to take may
differ. -/
structure Cursor.SamePlace (left right : Cursor) : Prop where
  previous : right.previous = left.previous
  ahead : right.ahead = left.ahead
  final : right.final = left.final

theorem Cursor.SamePlace.refl (cursor : Cursor) : cursor.SamePlace cursor :=
  ⟨rfl, rfl, rfl⟩

class Permissive (legal : Cursor → Prop) : Prop where
  ofIsOpen : ∀ cursor, cursor.IsOpen → legal cursor
  ofSamePlace : ∀ left right : Cursor, left.SamePlace right → legal left → legal right

instance : Permissive (fun _ => True) :=
  ⟨fun _ _ => trivial, fun _ _ _ _ => trivial⟩

namespace Step

variable {α β σ : Type} {legal : Cursor → Prop}

abbrev RunsIn (legal : Cursor → Prop) (step : Step α) (parser : Parser) : Prop :=
  Run (fun _ => True) legal step parser

/-- A step whose runs pass over tokens at legal places only. -/
def Orderly (legal : Cursor → Prop) (step : Step α) : Prop :=
  ∀ parser, RunsIn legal step parser

/-- Where nothing has been reported in the end, nothing was reported before. -/
theorem Orderly.clean_of_ok {step : Step α} {parser later : Parser} {value : α}
    (orderly : Orderly (fun _ => True) step) (ran : step parser = .ok value later)
    (clean : later.Clean) : parser.Clean :=
  (orderly parser).clean_of_after (by rwa [after_of_ok ran])

/-- A step that passes over a token whenever it gives a value. -/
def Strict (step : Step α) : Prop :=
  ∀ ⦃parser later : Parser⦄ ⦃value : α⦄, step parser = .ok value later →
    later.cursor.remaining < parser.cursor.remaining

namespace Run

theorem remaining_le_of_ok {step : Step α} {parser later : Parser} {value : α}
    (run : RunsIn legal step parser) (ran : step parser = .ok value later) :
    later.cursor.remaining ≤ parser.cursor.remaining := by
  have shorter := Run.remaining_le run
  rwa [after_of_ok ran] at shorter

/-- A run that has not passed over any token is still where it began. -/
theorem samePlace {step : Step α} {parser : Parser} (run : RunsIn legal step parser)
    (still : (after step parser).cursor.remaining = parser.cursor.remaining) :
    parser.cursor.SamePlace (after step parser).cursor := by
  have moved := run.keeping
    (fun later => later.cursor.remaining < parser.cursor.remaining ∨
      parser.cursor.SamePlace later.cursor)
    (fun later place _ more => by
      left
      change later.cursor.advance.remaining < _
      rw [Cursor.remaining_advance]
      rcases place with less | same
      · omega
      · rw [Cursor.remaining, same.ahead] at more ⊢
        rw [Cursor.remaining]
        omega)
    (fun later place => place.imp id fun same => ⟨same.previous, same.ahead, same.final⟩)
    (fun later diagnostic place => by rw [Parser.cursor_report]; exact place)
    (.inr (.refl _))
  rcases moved.2 with less | same
  · omega
  · exact same

theorem ofLook {look : Step α} {parser : Parser} (value : α)
    (looks : ∀ other, parser.Alike other → look other = .ok value other) :
    RunsIn legal look parser :=
  .look value looks trivial

theorem lookThen {look : Step α} {next : α → Step β} {parser : Parser} {value : α}
    (looks : ∀ other, parser.Alike other → look other = .ok value other)
    (onwards : RunsIn legal (next value) parser) : RunsIn legal (look >>= next) parser := by
  refine .bind (.ofLook value looks) fun found later ran => ?_
  rw [looks parser (.refl parser)] at ran
  cases ran
  exact onwards

end Run

theorem isComplaint_wrongToken (found : Token) (wanted : String) :
    (wrongToken found wanted).IsComplaint := by
  rw [wrongToken]
  split <;> exact ⟨rfl, nofun⟩

/-! ### Looking -/

section Looking

variable {parser other : Parser} (alike : parser.Alike other)

include alike

theorem cursor_alike : cursor other = .ok parser.cursor other := by
  rw [cursor_eq, alike.cursor]

theorem options_alike : options other = .ok parser.options other := by
  rw [options_eq, alike.options]

theorem peek_alike : peek other = .ok parser.cursor.peek other := by
  rw [peek_eq, alike.cursor]

theorem current_alike : current other = .ok parser.cursor.peek.kind other := by
  rw [current_eq, alike.cursor]

theorem kindNth_alike (count : Nat) :
    kindNth count other = .ok (parser.cursor.peekNth count).kind other := by
  rw [kindNth_eq, alike.cursor]

theorem check_alike (kind : Kind) :
    check kind other = .ok (parser.cursor.peek.kind == kind) other := by
  rw [check_eq, alike.cursor]

theorem spanFrom_alike (start : Span) :
    spanFrom start other = .ok (parser.cursor.spanFrom start) other := by
  rw [spanFrom_eq, alike.cursor]

theorem isVarDef_alike :
    isVarDef other =
      .ok (startsVarDef (parser.options.maxDepth + 1) parser.cursor.kinds) other := by
  rw [isVarDef_eq, alike.cursor, alike.options]

theorem isInvocation_alike :
    isInvocation other = .ok (startsInvocation parser.cursor.kinds) other := by
  rw [isInvocation_eq, alike.cursor]

theorem isJoinCondition_alike :
    isJoinCondition other = .ok (startsJoinCondition parser.cursor.kinds) other := by
  rw [isJoinCondition_eq, alike.cursor]

theorem isCast_alike :
    isCast other =
      .ok (startsCast (parser.options.maxDepth + 1) parser.cursor.kinds) other := by
  rw [isCast_eq, alike.cursor, alike.options]

end Looking

namespace Orderly

/-! ### Steps one after another -/

theorem pure (value : α) : Orderly legal (Pure.pure value : Step α) :=
  fun _ => .ofLook value fun _ _ => rfl

theorem fail {diagnostic : Diagnostic} (complains : diagnostic.IsComplaint) :
    Orderly legal (Step.fail diagnostic : Step α) :=
  fun _ => .fail diagnostic complains (fun _ _ => rfl) trivial

theorem bind {first : Step α} {next : α → Step β} (here : Orderly legal first)
    (onwards : ∀ value, Orderly legal (next value)) : Orderly legal (first >>= next) :=
  fun parser => .bind (here parser) fun value later _ => onwards value later

theorem ite {condition : Prop} [Decidable condition] {left right : Step α}
    (onTrue : Orderly legal left) (onFalse : Orderly legal right) :
    Orderly legal (if condition then left else right) := by
  split
  · exact onTrue
  · exact onFalse

/-! ### Looking -/

theorem cursor : Orderly legal Step.cursor :=
  fun _ => .ofLook _ fun _ alike => cursor_alike alike

theorem peek : Orderly legal Step.peek :=
  fun _ => .ofLook _ fun _ alike => peek_alike alike

theorem current : Orderly legal Step.current :=
  fun _ => .ofLook _ fun _ alike => current_alike alike

theorem kindNth (count : Nat) : Orderly legal (Step.kindNth count) :=
  fun _ => .ofLook _ fun _ alike => kindNth_alike alike count

theorem check (kind : Kind) : Orderly legal (Step.check kind) :=
  fun _ => .ofLook _ fun _ alike => check_alike alike kind

theorem spanFrom (start : Span) : Orderly legal (Step.spanFrom start) :=
  fun _ => .ofLook _ fun _ alike => spanFrom_alike alike start

theorem isVarDef : Orderly legal Step.isVarDef :=
  fun _ => .ofLook _ fun _ alike => isVarDef_alike alike

theorem isInvocation : Orderly legal Step.isInvocation :=
  fun _ => .ofLook _ fun _ alike => isInvocation_alike alike

theorem isCast : Orderly legal Step.isCast :=
  fun _ => .ofLook _ fun _ alike => isCast_alike alike

/-! ### Failing and reporting -/

theorem failAt {other : Token → Diagnostic} (complains : ∀ token, (other token).IsComplaint) :
    Orderly legal (Step.failAt other : Step α) := by
  refine peek.bind fun token => fail ?_
  split
  · exact ⟨rfl, nofun⟩
  · exact complains token

theorem tooDeep : Orderly legal (Step.tooDeep : Step α) :=
  peek.bind fun _ => .bind (fun _ => .ofLook _ fun _ alike => options_alike alike) fun _ =>
    fail ⟨rfl, nofun⟩

theorem report {diagnostic : Diagnostic} (complains : diagnostic.IsComplaint) :
    Orderly legal (Step.report diagnostic) :=
  fun _ => .report diagnostic complains (fun _ _ => rfl) trivial

theorem assume (kind : Kind) : Orderly legal (Step.assume kind) :=
  cursor.bind fun _ => (report ((isComplaint_wrongToken _ _).withRecovery _)).bind fun _ => pure _

theorem takeComments : Orderly legal Step.takeComments :=
  fun _ => .takeComments trivial

end Orderly

/-! ### Consuming -/

namespace Run

variable {parser : Parser}

theorem advance (isLegal : 0 < parser.cursor.remaining → legal parser.cursor) :
    RunsIn legal Step.advance parser := by
  refine lookThen (fun other alike => peek_alike alike) ?_
  refine .bind (.move 1 (fun other alike => ?_) trivial fun passed less more => ?_) fun _ _ _ =>
    .ofLook _ fun _ _ => rfl
  · rw [← alike.cursor]
    rfl
  · obtain rfl : passed = 0 := by omega
    exact isLegal more

theorem advanceOf [permissive : Permissive legal] {kind : Kind} (here : parser.cursor.peek.kind = kind)
    (free : kind.isBarrier = false) : RunsIn legal Step.advance parser :=
  advance fun _ => permissive.ofIsOpen _ (.of_kind here free)

theorem expect {kind : Kind} (isLegal : parser.cursor.peek.kind = kind → legal parser.cursor) :
    RunsIn legal (Step.expect kind) parser := by
  refine lookThen (fun other alike => check_alike alike kind) ?_
  split
  · rename_i here
    exact advance fun _ => isLegal (by simpa using here)
  · exact lookThen (fun other alike => peek_alike alike)
      (Orderly.fail (isComplaint_wrongToken _ _) parser)

theorem eat? {kind : Kind} (isLegal : parser.cursor.peek.kind = kind → legal parser.cursor) :
    RunsIn legal (Step.eat? kind) parser := by
  refine lookThen (fun other alike => check_alike alike kind) ?_
  split
  · rename_i here
    exact .bind (advance fun _ => isLegal (by simpa using here)) fun _ later _ =>
      Orderly.pure _ later
  · exact Orderly.pure _ parser

theorem eat {kind : Kind} (isLegal : parser.cursor.peek.kind = kind → legal parser.cursor) :
    RunsIn legal (Step.eat kind) parser :=
  .bind (eat? isLegal) fun _ later _ => Orderly.pure _ later

end Run

namespace Orderly

variable [permissive : Permissive legal]

theorem expect {kind : Kind} (free : kind.isBarrier = false) :
    Orderly legal (Step.expect kind) :=
  fun _ => Run.expect fun here => permissive.ofIsOpen _ (.of_kind here free)

theorem symbol (symbol : Symbol) : Orderly legal (expectSymbol symbol) :=
  expect rfl

theorem eat? {kind : Kind} (free : kind.isBarrier = false) : Orderly legal (Step.eat? kind) :=
  fun _ => Run.eat? fun here => permissive.ofIsOpen _ (.of_kind here free)

theorem eat {kind : Kind} (free : kind.isBarrier = false) : Orderly legal (Step.eat kind) :=
  fun _ => Run.eat fun here => permissive.ofIsOpen _ (.of_kind here free)

theorem expectIdentifier : Orderly legal Step.expectIdentifier := by
  intro parser
  refine Run.lookThen (fun _ alike => check_alike alike .identifier) ?_
  split
  · rename_i here
    exact .bind (Run.advanceOf (by simpa using here) rfl) fun _ later _ => pure _ later
  · exact failAt (fun _ => ⟨rfl, by nofun⟩) parser

theorem closeBrace : Orderly legal Step.closeBrace := by
  refine (eat? rfl).bind fun found => ?_
  cases found with
  | some token => exact pure _
  | none => exact assume _

theorem endStatement : Orderly legal Step.endStatement := by
  refine (eat? rfl).bind fun found => ?_
  cases found with
  | some token => exact pure _
  | none =>
      refine current.bind fun kind => ite (assume _) ?_
      exact peek.bind fun _ => fail (isComplaint_wrongToken _ _)

end Orderly

/-! ### What passes over a token -/

theorem Strict.fail (diagnostic : Diagnostic) : Strict (Step.fail diagnostic : Step α) :=
  fun _ _ _ ran => absurd ran fail_ne_ok

theorem Strict.failAt (other : Token → Diagnostic) : Strict (Step.failAt other : Step α) :=
  fun _ _ _ ran => absurd ran failAt_ne_ok

theorem Strict.tooDeep : Strict (Step.tooDeep : Step α) :=
  fun _ _ _ ran => absurd ran tooDeep_ne_ok

end Step

theorem Parser.remaining_advance (parser : Parser)
    (more : parser.cursor.peek.kind ≠ .endOfFile) :
    parser.advance.cursor.remaining < parser.cursor.remaining := by
  have positive := parser.cursor.remaining_pos more
  change parser.cursor.advance.remaining < _
  rw [Cursor.remaining_advance]
  omega

namespace Step

variable {α β σ : Type} {legal : Cursor → Prop}

theorem Strict.expect {kind : Kind} (notEnd : kind ≠ .endOfFile) : Strict (Step.expect kind) := by
  intro parser later token ran
  obtain ⟨here, -, rfl⟩ := expect_ok ran
  exact parser.remaining_advance (by rw [here]; exact notEnd)

theorem Strict.expectIdentifier : Strict Step.expectIdentifier := by
  intro parser later name ran
  obtain ⟨here, -, rfl⟩ := expectIdentifier_ok ran
  exact parser.remaining_advance (by rw [here]; simp)

structure Eager (legal : Cursor → Prop) (step : Step α) : Prop where
  orderly : Orderly legal step
  strict : Strict step

namespace Eager

theorem bind {first : Step α} {next : α → Step β} (eager : Eager legal first)
    (onwards : ∀ value, Orderly legal (next value)) : Eager legal (first >>= next) := by
  refine ⟨eager.orderly.bind onwards, fun parser later result ran => ?_⟩
  obtain ⟨value, between, here, ran⟩ := bind_ok ran
  exact Nat.lt_of_le_of_lt ((onwards value between).remaining_le_of_ok ran) (eager.strict here)

theorem behind {first : Step α} {next : α → Step β} (here : Orderly legal first)
    (eager : ∀ value, Eager legal (next value)) : Eager legal (first >>= next) := by
  refine ⟨here.bind fun value => (eager value).orderly, fun parser later result ran => ?_⟩
  obtain ⟨value, between, ranHere, ran⟩ := bind_ok ran
  exact Nat.lt_of_lt_of_le ((eager value).strict ran) ((here parser).remaining_le_of_ok ranHere)

theorem ite {condition : Prop} [Decidable condition] {left right : Step α}
    (onTrue : Eager legal left) (onFalse : Eager legal right) :
    Eager legal (if condition then left else right) := by
  split
  · exact onTrue
  · exact onFalse

theorem fail {diagnostic : Diagnostic} (complains : diagnostic.IsComplaint) :
    Eager legal (Step.fail diagnostic : Step α) :=
  ⟨.fail complains, .fail diagnostic⟩

theorem failAt {other : Token → Diagnostic} (complains : ∀ token, (other token).IsComplaint) :
    Eager legal (Step.failAt other : Step α) :=
  ⟨.failAt complains, .failAt other⟩

theorem tooDeep : Eager legal (Step.tooDeep : Step α) :=
  ⟨.tooDeep, .tooDeep⟩

variable [permissive : Permissive legal]

theorem expect {kind : Kind} (free : kind.isBarrier = false) (notEnd : kind ≠ .endOfFile) :
    Eager legal (Step.expect kind) :=
  ⟨.expect free, .expect notEnd⟩

theorem symbol (symbol : Symbol) : Eager legal (expectSymbol symbol) :=
  expect rfl (by simp)

theorem keyword {word : Keyword} (free : (Kind.keyword word).isBarrier = false) :
    Eager legal (expectKeyword word) :=
  expect free (by simp)

theorem expectIdentifier : Eager legal Step.expectIdentifier :=
  ⟨.expectIdentifier, .expectIdentifier⟩

end Eager

structure EagerAt (legal : Cursor → Prop) (step : Step α) (parser : Parser) : Prop where
  run : RunsIn legal step parser
  advances : ∀ {later : Parser} {value : α}, step parser = .ok value later →
    later.cursor.remaining < parser.cursor.remaining

namespace EagerAt

variable {parser : Parser}

theorem of {step : Step α} (eager : Eager legal step) : EagerAt legal step parser :=
  ⟨eager.orderly parser, fun ran => eager.strict ran⟩

theorem lookThen {look : Step α} {next : α → Step β} {value : α}
    (looks : ∀ other, parser.Alike other → look other = .ok value other)
    (eager : EagerAt legal (next value) parser) : EagerAt legal (look >>= next) parser := by
  refine ⟨Run.lookThen looks eager.run, fun ran => ?_⟩
  rw [look_bind (looks parser (.refl parser))] at ran
  exact eager.advances ran

theorem bind {first : Step α} {next : α → Step β} (eager : EagerAt legal first parser)
    (onwards : ∀ value later, first parser = .ok value later →
      RunsIn legal (next value) later) : EagerAt legal (first >>= next) parser := by
  refine ⟨.bind eager.run onwards, fun ran => ?_⟩
  obtain ⟨value, between, here, ran⟩ := bind_ok ran
  exact Nat.lt_of_le_of_lt ((onwards value between here).remaining_le_of_ok ran)
    (eager.advances here)

theorem advance [Permissive legal] {kind : Kind} (here : parser.cursor.peek.kind = kind)
    (free : kind.isBarrier = false) (notEnd : kind ≠ .endOfFile) :
    EagerAt legal Step.advance parser := by
  refine ⟨Run.advanceOf here free, fun ran => ?_⟩
  rw [advance_eq] at ran
  cases ran
  exact parser.remaining_advance (by rw [here]; exact notEnd)

theorem expect {kind : Kind} (notEnd : kind ≠ .endOfFile)
    (isLegal : parser.cursor.peek.kind = kind → legal parser.cursor) :
    EagerAt legal (Step.expect kind) parser :=
  ⟨Run.expect isLegal, fun ran => Strict.expect notEnd ran⟩

theorem advanceThen [Permissive legal] {next : Token → Step β} {kind : Kind}
    (here : parser.cursor.peek.kind = kind) (free : kind.isBarrier = false)
    (notEnd : kind ≠ .endOfFile) (onwards : ∀ token, Orderly legal (next token)) :
    EagerAt legal (Step.advance >>= next) parser :=
  bind (advance here free notEnd) fun token later _ => onwards token later

end EagerAt

theorem Eager.ofAt {step : Step α} (eager : ∀ parser, EagerAt legal step parser) :
    Eager legal step :=
  ⟨fun parser => (eager parser).run, fun parser _ _ ran => (eager parser).advances ran⟩

/-! ### Repeating -/

/-- An orderly turn of a loop, which passes over a token unless it is the last. -/
structure Turn (legal : Cursor → Prop) (turn : Step (ForInStep σ)) : Prop where
  orderly : Orderly legal turn
  advances : ∀ ⦃next : σ⦄ ⦃parser later : Parser⦄, turn parser = .ok (.yield next) later →
    later.cursor.remaining < parser.cursor.remaining

namespace Turn

theorem done (state : σ) : Turn legal (Pure.pure (.done state) : Step (ForInStep σ)) :=
  ⟨.pure _, fun _ _ _ ran => by cases ran⟩

theorem eager {turn : Step (ForInStep σ)} (eager : Eager legal turn) : Turn legal turn :=
  ⟨eager.orderly, fun _ _ _ ran => eager.strict ran⟩

theorem behind {first : Step α} {next : α → Step (ForInStep σ)} (here : Orderly legal first)
    (turns : ∀ value, Turn legal (next value)) : Turn legal (first >>= next) := by
  refine ⟨here.bind fun value => (turns value).orderly, fun state parser later ran => ?_⟩
  obtain ⟨value, between, ranHere, ran⟩ := bind_ok ran
  exact Nat.lt_of_lt_of_le ((turns value).advances ran) ((here parser).remaining_le_of_ok ranHere)

theorem ite {condition : Prop} [Decidable condition] {left right : Step (ForInStep σ)}
    (onTrue : Turn legal left) (onFalse : Turn legal right) :
    Turn legal (if condition then left else right) := by
  split
  · exact onTrue
  · exact onFalse

/-- A turn that goes on behind a token that may stand here. -/
theorem eat? [Permissive legal] {kind : Kind} {next : Option Token → Step (ForInStep σ)}
    (free : kind.isBarrier = false) (notEnd : kind ≠ .endOfFile)
    (absent : Turn legal (next none)) (present : ∀ token, Orderly legal (next (some token))) :
    Turn legal (Step.eat? kind >>= next) := by
  refine ⟨.bind (.eat? free) fun found => ?_, fun state parser later ran => ?_⟩
  · cases found with
    | none => exact absent.orderly
    | some token => exact present token
  · by_cases here : parser.cursor.peek.kind = kind
    · rw [bind_of_ok (eat?_of_kind here)] at ran
      have passed := parser.remaining_advance (by rw [here]; exact notEnd)
      exact Nat.lt_of_le_of_lt ((present _ _).remaining_le_of_ok ran) passed
    · rw [bind_of_ok (eat?_of_other here)] at ran
      exact absent.advances ran

theorem nextAt {kind : Kind} {item : Step α} (eager : Eager legal item) (items : List α) :
    Turn legal (Step.nextAt kind item items) :=
  .behind (.check kind) fun _ => .ite (.eager (eager.bind fun _ => .pure _)) (.done _)

/-- The comma behind an item is what the turn passes over. -/
theorem nextListed [Permissive legal] {item : Step α} (orderly : Orderly legal item)
    (items : List α) : Turn legal (Step.nextListed item items) := by
  refine .behind orderly fun value => ?_
  refine ⟨.bind (.eat rfl) fun _ => .ite (.pure _) (.pure _), fun next parser later ran => ?_⟩
  by_cases comma : parser.cursor.peek.kind = .symbol .comma
  · rw [bind_of_ok (eat_of_kind comma)] at ran
    cases ran
    exact parser.remaining_advance (by rw [comma]; simp)
  · rw [bind_of_ok (eat_of_other comma)] at ran
    cases ran

end Turn

structure TurnAt (legal : Cursor → Prop) (turn : Step (ForInStep σ)) (parser : Parser) :
    Prop where
  run : RunsIn legal turn parser
  advances : ∀ {next : σ} {later : Parser}, turn parser = .ok (.yield next) later →
    later.cursor.remaining < parser.cursor.remaining

namespace TurnAt

variable {parser : Parser}

theorem done (state : σ) : TurnAt legal (Pure.pure (.done state) : Step (ForInStep σ)) parser :=
  ⟨Orderly.pure _ parser, fun ran => by cases ran⟩

theorem eager {turn : Step (ForInStep σ)} (eager : EagerAt legal turn parser) :
    TurnAt legal turn parser :=
  ⟨eager.run, fun ran => eager.advances ran⟩

theorem lookThen {look : Step α} {next : α → Step (ForInStep σ)} {value : α}
    (looks : ∀ other, parser.Alike other → look other = .ok value other)
    (turn : TurnAt legal (next value) parser) : TurnAt legal (look >>= next) parser := by
  refine ⟨Run.lookThen looks turn.run, fun ran => ?_⟩
  rw [look_bind (looks parser (.refl parser))] at ran
  exact turn.advances ran

end TurnAt

theorem Turn.ofAt {turn : Step (ForInStep σ)} (turns : ∀ parser, TurnAt legal turn parser) :
    Turn legal turn :=
  ⟨fun parser => (turns parser).run, fun _ parser _ ran => (turns parser).advances ran⟩

namespace Orderly

theorem loop {turn : σ → Step (ForInStep σ)} (turns : ∀ state, Turn legal (turn state))
    (state : σ) : Orderly legal (Step.loop turn state) := by
  intro parser
  refine .loop ((turns state).orderly parser) (fun next later ran => (turns state).advances ran)
    fun next later ran => ?_
  have shorter := (turns state).advances ran
  exact loop turns next later
termination_by parser => parser.cursor.remaining

end Orderly

theorem Eager.loop {turn : σ → Step (ForInStep σ)} (turns : ∀ state, Turn legal (turn state))
    {state : σ} (first : Eager legal (turn state)) : Eager legal (Step.loop turn state) := by
  refine ⟨.loop turns state, fun parser later final ran => ?_⟩
  rcases loop_ok ran with ran | ⟨next, between, ran, ⟨-, rest⟩ | ⟨-, rfl, rfl⟩⟩
  · exact first.strict ran
  · have onwards := (Orderly.loop turns next between).remaining_le_of_ok rest
    exact Nat.lt_of_le_of_lt onwards (first.strict ran)
  · exact first.strict ran

theorem Eager.commaSeparated [Permissive legal] {item : Step α} (eager : Eager legal item) :
    Eager legal (Step.commaSeparated item) :=
  .loop (.nextListed eager.orderly) <|
    .bind eager fun _ => .bind (.eat rfl) fun _ => .ite (.pure _) (.pure _)

namespace Orderly

variable [permissive : Permissive legal]

/-! ### Lists -/

theorem commaSeparated {item : Step α} (orderly : Orderly legal item) :
    Orderly legal (Step.commaSeparated item) :=
  loop (.nextListed orderly) []

omit permissive in
theorem whileAt {kind : Kind} {item : Step α} (eager : Eager legal item) :
    Orderly legal (Step.whileAt kind item) :=
  loop (.nextAt eager) []

theorem listBefore {close : Symbol} {item : Step α} (orderly : Orderly legal item) :
    Orderly legal (Step.listBefore close item) :=
  (check _).bind fun _ => ite (pure _) (commaSeparated orderly)

theorem closedList {close : Symbol} {item : Step α} (orderly : Orderly legal item) :
    Orderly legal (Step.closedList close item) :=
  (listBefore orderly).bind fun _ => (symbol close).bind fun _ => pure _

/-! ### Optional parts -/

omit permissive in
theorem ifAt {kind : Kind} {part : Step α} (orderly : Orderly legal part) :
    Orderly legal (Step.ifAt kind part) :=
  (check kind).bind fun _ => ite (orderly.bind fun _ => pure _) (pure _)

theorem ifBehind {kind : Kind} {part : Step α} (free : kind.isBarrier = false)
    (orderly : Orderly legal part) : Orderly legal (Step.ifBehind kind part) :=
  (eat free).bind fun _ => ite (orderly.bind fun _ => pure _) (pure _)

end Orderly

end Step

end ServiceLang
