import ServiceLang.Parse.Lookahead
import ServiceLang.Parse.Recovery
import ServiceLang.Proofs.Passing
import ServiceLang.Proofs.Reporting
import ServiceLang.Tree.Depth

set_option autoImplicit false

/-! The levels of a parse. A rule is given the number of levels that are left. When the levels
are counted in the state instead, the count goes up by one where a rule is entered and down where
it is left, by a value or by a failure, and at the limit the rule is refused. Both come to the
same as long as the count and the levels that are left make up the limit. What is read within so
many levels nests no deeper. -/

namespace ServiceLang

namespace Parser

/-- Two parsers that differ at most in how many levels are open. -/
structure Twin (left right : Parser) : Prop where
  cursor : right.cursor = left.cursor
  options : right.options = left.options
  diagnostics : right.diagnostics = left.diagnostics
  reportedAt : right.reportedAt = left.reportedAt
  limitHit : right.limitHit = left.limitHit

structure AsDeep (before after : Parser) : Prop where
  depth : after.depth = before.depth
  options : after.options = before.options

theorem Twin.refl (parser : Parser) : parser.Twin parser :=
  ⟨rfl, rfl, rfl, rfl, rfl⟩

theorem Twin.withDepth (parser : Parser) {depth : Nat} (within : depth ≤ parser.options.maxDepth) :
    parser.Twin { parser with depth := depth, depth_le := within } :=
  ⟨rfl, rfl, rfl, rfl, rfl⟩

theorem AsDeep.refl (parser : Parser) : parser.AsDeep parser :=
  ⟨rfl, rfl⟩

theorem AsDeep.trans {before between after : Parser} (first : before.AsDeep between)
    (second : between.AsDeep after) : before.AsDeep after :=
  ⟨second.depth.trans first.depth, second.options.trans first.options⟩

theorem AsDeep.limit {before after : Parser} {room : Nat} (same : before.AsDeep after)
    (limit : before.depth + room = before.options.maxDepth) :
    after.depth + room = after.options.maxDepth := by
  rw [same.depth, same.options, limit]

/-- What is entered and left again is as deep as before. -/
theorem AsDeep.left {before after : Parser} {below : before.depth < before.options.maxDepth}
    (same : (before.enter below).AsDeep after) : before.AsDeep after.leave :=
  ⟨congrArg (· - 1) same.depth, same.options⟩

theorem Twin.eq {left right : Parser} (twins : left.Twin right) (depth : right.depth = left.depth) :
    right = left := by
  obtain ⟨cursor, options, diagnostics, reportedAt, limitHit, open_, within⟩ := left
  obtain ⟨rfl, rfl, rfl, rfl, rfl⟩ := twins
  cases depth
  rfl

theorem asDeep_report (parser : Parser) (diagnostic : Diagnostic) :
    parser.AsDeep (parser.report diagnostic) := by
  simp only [report]
  split
  · exact .refl _
  · split
    · exact .refl _
    · split <;> split <;> first | exact ⟨rfl, rfl⟩ | (split <;> exact ⟨rfl, rfl⟩)

variable {left right : Parser} (twins : left.Twin right)

include twins

theorem Twin.enter (below : right.depth < right.options.maxDepth) :
    left.Twin (right.enter below) :=
  ⟨twins.cursor, twins.options, twins.diagnostics, twins.reportedAt, twins.limitHit⟩

theorem Twin.leave : left.Twin right.leave :=
  ⟨twins.cursor, twins.options, twins.diagnostics, twins.reportedAt, twins.limitHit⟩

theorem Twin.report (diagnostic : Diagnostic) :
    (left.report diagnostic).Twin (right.report diagnostic) := by
  by_cases hit : left.limitHit = true
  · rw [report_of_limitHit hit, report_of_limitHit (twins.limitHit.trans hit)]
    exact twins
  · by_cases repeated : left.Repeats diagnostic
    · have again : right.Repeats diagnostic := ⟨repeated.1, twins.reportedAt ▸ repeated.2⟩
      rw [report_of_repeats repeated, report_of_repeats again]
      exact twins
    · have isNew : ¬right.Repeats diagnostic := fun again =>
        repeated ⟨again.1, twins.reportedAt ▸ again.2⟩
      have below := Bool.eq_false_iff.mpr hit
      have bound : right.options.maxErrors = left.options.maxErrors := by rw [twins.options]
      have offsets : right.offsetsWith diagnostic = left.offsetsWith diagnostic := by
        rw [offsetsWith, offsetsWith, twins.reportedAt]
      rw [report_of_new below repeated, report_of_new (twins.limitHit.trans below) isNew, bound,
        offsets, twins.diagnostics]
      split
      · split
        · exact ⟨twins.cursor, twins.options, rfl, rfl, rfl⟩
        · exact ⟨twins.cursor, twins.options, rfl, rfl, twins.limitHit⟩
      · exact ⟨twins.cursor, twins.options, rfl, rfl, twins.limitHit⟩

theorem Twin.moved (cursor : Cursor) :
    { left with cursor := cursor }.Twin { right with cursor := cursor } :=
  ⟨rfl, twins.options, twins.diagnostics, twins.reportedAt, twins.limitHit⟩

end Parser

namespace Step

/-- Two outcomes that are the same but for how many levels are open, which is as many as before
on either side. -/
inductive Together {α : Type} (left right : Parser) :
    EStateM.Result Diagnostic Parser α → EStateM.Result Diagnostic Parser α → Prop
  | ok (value : α) {later other : Parser} (twins : later.Twin other) (here : left.AsDeep later)
      (there : right.AsDeep other) : Together left right (.ok value later) (.ok value other)
  | error (diagnostic : Diagnostic) {later other : Parser} (twins : later.Twin other)
      (here : left.AsDeep later) (there : right.AsDeep other) :
      Together left right (.error diagnostic later) (.error diagnostic other)

theorem Together.behind {α : Type} {left right leftLater rightLater : Parser}
    {outcome other : EStateM.Result Diagnostic Parser α}
    (both : Together leftLater rightLater outcome other) (here : left.AsDeep leftLater)
    (there : right.AsDeep rightLater) : Together left right outcome other := by
  cases both with
  | ok value twins keeps keepsThere => exact .ok value twins (here.trans keeps) (there.trans keepsThere)
  | error diagnostic twins keeps keepsThere =>
      exact .error diagnostic twins (here.trans keeps) (there.trans keepsThere)

/-- A step within so many levels, beside the same step with its levels counted in the state:
they do the same and leave the count as it was, and the values are as they should be. -/
structure Levels {α : Type} (room : Nat) (good : α → Prop) (step counted : Step α) : Prop where
  together : ∀ {left right : Parser}, left.Twin right →
    right.depth + room = right.options.maxDepth → Together left right (step left) (counted right)
  values : ∀ {parser later value}, step parser = .ok value later → good value

abbrev Level {α : Type} (room : Nat) (step : Step α) : Prop :=
  Levels room (fun _ => True) step step

end Step

namespace Step.Levels

variable {α β σ : Type} {room : Nat} {good : α → Prop} {fine : β → Prop}

theorem mono {step counted : Step α} {better : α → Prop} (levels : Levels room better step counted)
    (weaker : ∀ value, better value → good value) : Levels room good step counted :=
  ⟨levels.together, fun ran => weaker _ (levels.values ran)⟩

theorem level {step : Step α} (levels : Levels room good step step) : Level room step :=
  levels.mono fun _ _ => trivial

/-- With the count and the levels that are left making up the limit, the two forms of a step are
one, and leave as many levels open. -/
theorem eq {step counted : Step α} (levels : Levels room good step counted) {parser : Parser}
    (limit : parser.depth + room = parser.options.maxDepth) :
    counted parser = step parser ∧ parser.AsDeep (after counted parser) := by
  have both := levels.together (.refl parser) limit
  generalize step parser = outcome at both ⊢
  generalize ran : counted parser = other at both ⊢
  cases both with
  | ok value twins here there =>
      rw [twins.eq (there.depth.trans here.depth.symm), after_of_ok ran]
      exact ⟨rfl, there⟩
  | error diagnostic twins here there =>
      rw [twins.eq (there.depth.trans here.depth.symm), after_of_error ran]
      exact ⟨rfl, there⟩

/-- Where so many levels may be left, a step leaves as many open as before. -/
theorem asDeep {step counted : Step α} (levels : Levels room good step counted) {parser : Parser}
    (within : room ≤ parser.options.maxDepth) : parser.AsDeep (after step parser) := by
  have twins := Parser.Twin.withDepth parser (Nat.sub_le parser.options.maxDepth room)
  have both := levels.together twins (Nat.sub_add_cancel within)
  generalize ran : step parser = outcome at both
  generalize counted _ = other at both
  cases both with
  | ok value twins here there => exact after_of_ok ran ▸ here
  | error diagnostic twins here there => exact after_of_error ran ▸ here

/-! ### Steps one after another -/

theorem pure {value : α} (isGood : good value) :
    Levels room good (Pure.pure value : Step α) (Pure.pure value) :=
  ⟨fun twins _ => .ok value twins (.refl _) (.refl _), fun ran => by cases ran; exact isGood⟩

theorem look {look : Step α} (seen : Parser → α) (looks : ∀ parser, look parser = .ok (seen parser) parser)
    (common : ∀ {left right : Parser}, left.Twin right → seen right = seen left) :
    Level room look := by
  refine ⟨fun {left right} twins _ => ?_, fun _ => trivial⟩
  rw [looks, looks, common twins]
  exact .ok _ twins (.refl _) (.refl _)

theorem change {into : Parser → Parser}
    (alike : ∀ {left right : Parser}, left.Twin right → (into left).Twin (into right))
    (keeps : ∀ parser : Parser, parser.AsDeep (into parser)) : Level room (modify into : Step Unit) :=
  ⟨fun twins _ => .ok () (alike twins) (keeps _) (keeps _), fun _ => trivial⟩

theorem move (into : Cursor → Cursor) :
    Level room
      (modify fun parser => { parser with cursor := into parser.cursor } : Step Unit) :=
  .change (fun {left right} twins => by rw [twins.cursor]; exact twins.moved _) fun _ => ⟨rfl, rfl⟩

theorem fail {diagnostic : Diagnostic} :
    Levels room good (Step.fail diagnostic : Step α) (Step.fail diagnostic) :=
  ⟨fun twins _ => .error diagnostic twins (.refl _) (.refl _), fun ran => by cases ran⟩

theorem bind {first counted : Step α} {next behind : α → Step β}
    (here : Levels room good first counted)
    (onwards : ∀ value, good value → Levels room fine (next value) (behind value)) :
    Levels room fine (first >>= next) (counted >>= behind) := by
  refine ⟨fun {left right} twins limit => ?_, fun ran => ?_⟩
  · have both := here.together twins limit
    generalize ran : first left = outcome at both
    generalize ranCounted : counted right = other at both
    cases both with
    | ok value twins keeps keepsCounted =>
        rw [bind_of_ok ran, bind_of_ok ranCounted]
        exact ((onwards value (here.values ran)).together twins (keepsCounted.limit limit)).behind
          keeps keepsCounted
    | error diagnostic twins keeps keepsCounted =>
        rw [bind_of_error ran, bind_of_error ranCounted]
        exact .error diagnostic twins keeps keepsCounted
  · obtain ⟨value, between, ranFirst, ranNext⟩ := bind_ok ran
    exact (onwards value (here.values ranFirst)).values ranNext

theorem ite {condition : Prop} [Decidable condition] {first second counted other : Step α}
    (onTrue : Levels room good first counted) (onFalse : Levels room good second other) :
    Levels room good (if condition then first else second)
      (if condition then counted else other) := by
  split
  · exact onTrue
  · exact onFalse

theorem tryCatch {part counted : Step α} {handle behind : Diagnostic → Step α}
    (here : Levels room good part counted)
    (onwards : ∀ diagnostic, Levels room good (handle diagnostic) (behind diagnostic)) :
    Levels room good (MonadExcept.tryCatch part handle) (MonadExcept.tryCatch counted behind) := by
  refine ⟨fun {left right} twins limit => ?_, fun {parser later value} ran => ?_⟩
  · have both := here.together twins limit
    generalize ran : part left = outcome at both
    generalize ranCounted : counted right = other at both
    cases both with
    | ok value twins keeps keepsCounted =>
        rw [tryCatch_of_ok ran, tryCatch_of_ok ranCounted]
        exact .ok value twins keeps keepsCounted
    | error diagnostic twins keeps keepsCounted =>
        rw [tryCatch_of_error ran, tryCatch_of_error ranCounted]
        exact ((onwards diagnostic).together twins (keepsCounted.limit limit)).behind keeps
          keepsCounted
  · cases ranPart : part parser with
    | ok found between =>
        rw [tryCatch_of_ok ranPart] at ran
        cases ran
        exact here.values ranPart
    | error diagnostic between =>
        rw [tryCatch_of_error ranPart] at ran
        exact (onwards diagnostic).values ran

/-! ### Guarded rules -/

theorem refused {part : Step α} : Levels 0 good tooDeep (nested part) := by
  refine ⟨fun {left right} twins limit => ?_, fun ran => absurd ran tooDeep_ne_ok⟩
  have full : ¬right.depth < right.options.maxDepth := by omega
  rw [nested, dif_neg full, tooDeep_eq, tooDeep_eq, twins.cursor, twins.options]
  exact .error _ twins (.refl _) (.refl _)

theorem entered {part counted : Step α} (inside : Levels room good part counted) :
    Levels (room + 1) good part (nested counted) := by
  refine ⟨fun {left right} twins limit => ?_, inside.values⟩
  have below : right.depth < right.options.maxDepth := by omega
  have within : (right.enter below).depth + room = (right.enter below).options.maxDepth :=
    (Nat.succ_add_eq_add_succ _ _).trans limit
  have both := inside.together (twins.enter below) within
  rw [nested, dif_pos below]
  generalize part left = outcome at both ⊢
  generalize counted (right.enter below) = other at both ⊢
  cases both with
  | ok value twins keeps keepsCounted =>
      exact .ok value twins.leave keeps keepsCounted.left
  | error diagnostic twins keeps keepsCounted =>
      exact .error diagnostic twins.leave keeps keepsCounted.left

/-! ### Looking, failing and reporting -/

theorem cursor : Level room Step.cursor :=
  .look Parser.cursor cursor_eq fun twins => twins.cursor

theorem peek : Level room Step.peek :=
  .bind .cursor fun _ _ => .pure trivial

theorem current : Level room Step.current :=
  .bind .peek fun _ _ => .pure trivial

theorem kindNth (count : Nat) : Level room (Step.kindNth count) :=
  .bind .cursor fun _ _ => .pure trivial

theorem check (kind : Kind) : Level room (Step.check kind) :=
  .bind .current fun _ _ => .pure trivial

theorem spanFrom (start : Span) : Level room (Step.spanFrom start) :=
  .bind .cursor fun _ _ => .pure trivial

theorem report (diagnostic : Diagnostic) : Level room (Step.report diagnostic) :=
  .change (fun twins => twins.report diagnostic) fun _ => Parser.asDeep_report _ _

theorem failAt {diagnostic : Token → Diagnostic} :
    Levels room good (Step.failAt diagnostic : Step α) (Step.failAt diagnostic) :=
  .bind .peek fun _ _ => .fail

theorem isVarDef : Level room Step.isVarDef :=
  .look _ isVarDef_eq fun twins => by rw [twins.cursor, twins.options]

theorem isInvocation : Level room Step.isInvocation :=
  .bind .cursor fun _ _ => .pure trivial

theorem isJoinCondition : Level room Step.isJoinCondition :=
  .bind .cursor fun _ _ => .pure trivial

theorem isCast : Level room Step.isCast :=
  .look _ isCast_eq fun twins => by rw [twins.cursor, twins.options]

/-! ### Consuming -/

theorem advance : Level room Step.advance :=
  .bind .peek fun _ _ => .bind (.move Cursor.advance) fun _ _ => .pure trivial

theorem eat? (kind : Kind) : Level room (Step.eat? kind) :=
  .bind (.check kind) fun _ _ => .ite (.bind .advance fun _ _ => .pure trivial) (.pure trivial)

theorem eat (kind : Kind) : Level room (Step.eat kind) :=
  .bind (.eat? kind) fun _ _ => .pure trivial

theorem expect (kind : Kind) : Level room (Step.expect kind) :=
  .bind (.check kind) fun _ _ => .ite .advance
    (.bind .peek fun _ _ => .fail)

theorem symbol (symbol : Symbol) : Level room (expectSymbol symbol) :=
  expect _

theorem keyword (word : Keyword) : Level room (expectKeyword word) :=
  expect _

theorem expectIdentifier : Level room Step.expectIdentifier :=
  .bind (.check _) fun _ _ => .ite (.bind .advance fun _ _ => .pure trivial)
    .failAt

theorem assume (kind : Kind) : Level room (Step.assume kind) :=
  .bind .cursor fun _ _ => .bind (.report _) fun _ _ => .pure trivial

theorem closeBrace : Level room Step.closeBrace := by
  refine .bind (.eat? _) fun found _ => ?_
  cases found with
  | none => exact .assume _
  | some token => exact .pure trivial

theorem endStatement : Level room Step.endStatement := by
  refine .bind (.eat? _) fun found _ => ?_
  cases found with
  | none =>
      exact .bind .current fun _ _ => .ite (.assume _)
        (.bind .peek fun _ _ => .fail)
  | some token => exact .pure trivial

theorem takeComments : Level room Step.takeComments := by
  refine ⟨fun {left right} twins _ => ?_, fun _ => trivial⟩
  have keeps : right.options.keepComments = left.options.keepComments := by rw [twins.options]
  rw [takeComments_eq, takeComments_eq, keeps, twins.cursor]
  split
  · exact .ok _ (twins.moved _) ⟨rfl, rfl⟩ ⟨rfl, rfl⟩
  · exact .ok _ twins (.refl _) (.refl _)

/-! ### Repeating -/

section Loop

variable {turn counted : σ → Step (ForInStep σ)} {kept : σ → Prop}
  (turns : ∀ state, kept state →
    Levels room (fun decision => kept decision.value) (turn state) (counted state))

include turns

-- Both by induction on the tokens ahead: a turn that is not the last one has passed over one.
theorem together_of_loop {state : σ} (start : kept state) {left right : Parser}
    (twins : left.Twin right) (limit : right.depth + room = right.options.maxDepth) :
    Together left right (Step.loop turn state left) (Step.loop counted state right) := by
  have both := (turns state start).together twins limit
  generalize ran : turn state left = outcome at both
  generalize ranCounted : counted state right = other at both
  cases both with
  | error diagnostic twins keeps keepsCounted =>
      rw [loop_of_error ran, loop_of_error ranCounted]
      exact .error diagnostic twins keeps keepsCounted
  | @ok decision later other twinsLater keeps keepsCounted =>
      cases decision with
      | done final =>
          rw [loop_of_done ran, loop_of_done ranCounted]
          exact .ok final twinsLater keeps keepsCounted
      | yield next =>
          by_cases advances : later.cursor.remaining < left.cursor.remaining
          · have advancesCounted : other.cursor.remaining < right.cursor.remaining := by
              rw [twinsLater.cursor, twins.cursor]
              exact advances
            rw [loop_of_yield ran advances, loop_of_yield ranCounted advancesCounted]
            exact (together_of_loop ((turns state start).values ran) twinsLater
              (keepsCounted.limit limit)).behind keeps keepsCounted
          · have stillCounted : ¬other.cursor.remaining < right.cursor.remaining := by
              rw [twinsLater.cursor, twins.cursor]
              exact advances
            rw [loop_of_still ran advances, loop_of_still ranCounted stillCounted]
            exact .ok next twinsLater keeps keepsCounted
termination_by left.cursor.remaining

theorem kept_of_loop {state final : σ} (start : kept state) {parser later : Parser}
    (ran : Step.loop turn state parser = .ok final later) : kept final := by
  rcases loop_ok ran with ranTurn | ⟨next, between, ranTurn, ⟨shorter, ranLoop⟩ | ⟨-, rfl, -⟩⟩
  · exact (turns state start).values ranTurn
  · exact kept_of_loop ((turns state start).values ranTurn) ranLoop
  · exact (turns state start).values ranTurn
termination_by parser.cursor.remaining

theorem loop {state : σ} (start : kept state) :
    Levels room kept (Step.loop turn state) (Step.loop counted state) :=
  ⟨together_of_loop turns start, kept_of_loop turns start⟩

end Loop

section Items

variable {item counted : Step α} (levels : Levels room good item counted)

include levels

theorem nextListed {items : List α} (found : ∀ item ∈ items, good item) :
    Levels room (fun decision => ∀ item ∈ decision.value, good item)
      (Step.nextListed item items) (Step.nextListed counted items) := by
  refine .bind levels fun value isGood => .bind (.eat _) fun _ _ => ?_
  have longer : ∀ item ∈ items ++ [value], good item :=
    List.forall_mem_append.mpr ⟨found, List.forall_mem_singleton.mpr isGood⟩
  exact .ite (.pure longer) (.pure longer)

theorem commaSeparated :
    Levels room (fun items => ∀ item ∈ items, good item) (Step.commaSeparated item)
      (Step.commaSeparated counted) :=
  .loop (fun _ found => nextListed levels found) fun _ none => nomatch none

theorem whileAt (kind : Kind) :
    Levels room (fun items => ∀ item ∈ items, good item) (Step.whileAt kind item)
      (Step.whileAt kind counted) := by
  refine .loop (fun items found => .bind (.check kind) fun _ _ => .ite ?_ (.pure found))
    fun _ none => nomatch none
  exact .bind levels fun value isGood => .pure
    (List.forall_mem_append.mpr ⟨found, List.forall_mem_singleton.mpr isGood⟩)

theorem listBefore (close : Symbol) :
    Levels room (fun items => ∀ item ∈ items, good item) (Step.listBefore close item)
      (Step.listBefore close counted) :=
  .bind (.check _) fun _ _ => .ite (.pure fun _ none => nomatch none) (.commaSeparated levels)

theorem closedList (close : Symbol) :
    Levels room (fun list => ∀ item ∈ list.1, good item) (Step.closedList close item)
      (Step.closedList close counted) :=
  .bind (.listBefore levels close) fun _ found => .bind (.symbol close) fun _ _ => .pure found

theorem ifAt (kind : Kind) :
    Levels room (fun part => ∀ found ∈ part, good found) (Step.ifAt kind item)
      (Step.ifAt kind counted) :=
  .bind (.check kind) fun _ _ => .ite
    (.bind levels fun _ isGood => .pure fun _ found => by cases found; exact isGood)
    (.pure fun _ none => nomatch none)

theorem ifBehind (kind : Kind) :
    Levels room (fun part => ∀ found ∈ part, good found) (Step.ifBehind kind item)
      (Step.ifBehind kind counted) :=
  .bind (.eat kind) fun _ _ => .ite
    (.bind levels fun _ isGood => .pure fun _ found => by cases found; exact isGood)
    (.pure fun _ none => nomatch none)

end Items

/-! ### Recovering -/

theorem recover (point : SyncPoint) (start : Cursor) (diagnostic : Diagnostic) :
    Level room (Step.recover point start diagnostic) :=
  .bind .cursor fun _ _ => .bind (.move fun _ => _) fun _ _ => .bind (.report _) fun _ _ =>
    .pure trivial

theorem recoverDefinition (start : Cursor) (diagnostic : Diagnostic) :
    Level room (Step.recoverDefinition start diagnostic) :=
  .bind .cursor fun _ _ => .bind (.move fun _ => _) fun _ _ => .bind (.report _) fun _ _ =>
    .pure trivial

variable {part counted : Step α} {instead : Span → α}
  (levels : Levels room good part counted)
  (placeholders : ∀ span, good (instead span))

include levels placeholders

theorem orRecover (point : SyncPoint) : Levels room good (Step.orRecover point part instead)
    (Step.orRecover point counted instead) :=
  .bind .cursor fun _ _ => .tryCatch levels fun _ =>
    .bind (.recover point _ _) fun span _ => .pure (placeholders span)

theorem orSkip : Levels room good (Step.orSkip part instead)
    (Step.orSkip counted instead) :=
  .bind .cursor fun _ _ => .tryCatch levels fun _ =>
    .bind (.recoverDefinition _ _) fun span _ => .pure (placeholders span)

end Step.Levels

end ServiceLang
