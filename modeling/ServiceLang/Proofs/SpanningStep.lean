import ServiceLang.Proofs.OrderlyDefinition
import ServiceLang.Proofs.Spanning

set_option autoImplicit false

/-! What a step lays over the tokens that it passes over. A rule is followed through its
parts: each starts at the token where the one before it has stopped. -/

namespace ServiceLang

open Step

/-- The parser stands before the token with this index, and no comment ahead is empty. -/
structure Layout.Stands (layout : Layout) (index : Nat) (parser : Parser) : Prop where
  place : parser.cursor.At layout.buffer index
  comments : ∀ comment ∈ parser.cursor.comments,
    comment.span.start < comment.span.stop ∧ layout.fits comment.span

namespace Layout.Stands

variable {layout : Layout} {index : Nat} {parser : Parser}

theorem more (stands : layout.Stands index parser) (notEnd : parser.cursor.peek.kind ≠ .endOfFile) :
    index + 1 < layout.buffer.length := by
  have lengths := stands.place.length_eq
  have some := parser.cursor.remaining_pos notEnd
  omega

theorem startAt_eq (stands : layout.Stands index parser) :
    layout.startAt index = parser.cursor.peek.span.start := by
  have isPeek := stands.place.peek
  rw [List.getElem?_eq_getElem stands.place.inside] at isPeek
  rw [startAt, List.getElem?_eq_getElem stands.place.inside]
  exact congrArg (fun token => token.span.start) (Option.some.inj isPeek)

theorem stopAt_eq (stands : layout.Stands index parser) :
    layout.stopAt index = parser.cursor.peek.span.stop := by
  have isPeek := stands.place.peek
  rw [List.getElem?_eq_getElem stands.place.inside] at isPeek
  rw [stopAt, List.getElem?_eq_getElem stands.place.inside]
  exact congrArg (fun token => token.span.stop) (Option.some.inj isPeek)

theorem fits_peek (stands : layout.Stands index parser) : layout.fits parser.cursor.peek.span := by
  have isPeek := stands.place.peek
  rw [List.getElem?_eq_getElem stands.place.inside] at isPeek
  have fits := layout.fits_token _ (List.getElem_mem stands.place.inside)
  rwa [Option.some.inj isPeek] at fits

theorem over_peek (stands : layout.Stands index parser) (more : index + 1 < layout.buffer.length) :
    layout.Over index (index + 1) parser.cursor.peek.span := by
  constructor
  · omega
  · exact more
  · exact stands.startAt_eq.symm
  · exact stands.stopAt_eq.symm
  · exact stands.fits_peek

theorem comments_advance (stands : layout.Stands index parser)
    (more : parser.cursor.ahead ≠ []) :
    ∀ comment ∈ parser.cursor.advance.comments,
      comment.span.start < comment.span.stop ∧ layout.fits comment.span := by
  rw [Cursor.comments_advance _ more]
  apply layout.comments
  have member : (parser.cursor.ahead.tail.head?.getD parser.cursor.final) ∈
      parser.cursor.ahead ++ [parser.cursor.final] := by
    cases tail : parser.cursor.ahead.tail with
    | nil => exact List.mem_append_right _ List.mem_cons_self
    | cons next others =>
        apply List.mem_append_left
        apply List.mem_of_mem_tail
        rw [tail]
        exact List.mem_cons_self
  rw [stands.place.rest] at member
  exact List.mem_of_mem_drop member

theorem advance (stands : layout.Stands index parser)
    (notEnd : parser.cursor.peek.kind ≠ .endOfFile) : layout.Stands (index + 1) parser.advance := by
  have some := parser.cursor.remaining_pos notEnd
  constructor
  · exact stands.place.advance some
  · exact stands.comments_advance (List.length_pos_iff.mp some)

/-- Wherever a run ends, it ends before some token. -/
theorem of_run {α : Type} {legal : Cursor → Prop} {step : Step α}
    (stands : layout.Stands index parser) (run : RunsIn legal step parser) :
    ∃ behind, index ≤ behind ∧ layout.Stands behind (after step parser) := by
  apply (run.keeping (fun later => ∃ behind, index ≤ behind ∧ layout.Stands behind later) _ _ _
    ⟨index, Nat.le_refl _, stands⟩).2
  · intro later place _ more
    obtain ⟨behind, order, stands⟩ := place
    refine ⟨behind + 1, by omega, stands.place.advance more, ?_⟩
    exact stands.comments_advance (List.length_pos_iff.mp more)
  · intro later place
    obtain ⟨behind, order, stands⟩ := place
    exact ⟨behind, order, stands.place.dropComments, nofun⟩
  · intro later diagnostic place
    obtain ⟨behind, order, stands⟩ := place
    refine ⟨behind, order, ?_, ?_⟩
    · rw [Parser.cursor_report]
      exact stands.place
    · rw [Parser.cursor_report]
      exact stands.comments

end Layout.Stands

variable {α β σ : Type} {layout : Layout}

/-- From the token with an index on, a step that gives a value passes over some tokens, and
what it gives is laid over them as `lies` says. -/
def Layout.Spans (layout : Layout) (index : Nat) (step : Step α) (lies : Nat → α → Prop) : Prop :=
  ∀ ⦃parser later : Parser⦄ ⦃value : α⦄, layout.Stands index parser →
    step parser = .ok value later →
    ∃ behind, index ≤ behind ∧ layout.Stands behind later ∧ lies behind value

abbrev Layout.Node (layout : Layout) (outline : String → α → Outline) (first behind : Nat)
    (value : α) : Prop :=
  ∀ role, layout.Covers first behind (outline role value)

abbrev Layout.Nodes (layout : Layout) (outline : String → α → Outline) (first behind : Nat)
    (values : List α) : Prop :=
  ∀ role, layout.Row first behind (values.map (outline role))

abbrev Layout.Optional (layout : Layout) (outline : String → α → Outline) (first behind : Nat)
    (value : Option α) : Prop :=
  ∀ role, layout.Row first behind (Outline.optional outline role value)

section Lists

variable {outline : String → α → Outline} {first behind start stop : Nat} {value : α}
  {values : List α}

theorem Layout.Nodes.nil (order : first ≤ behind) : layout.Nodes outline first behind [] :=
  fun _ => Layout.Row.nil order

theorem Layout.Nodes.snoc {middle : Nat} (nodes : layout.Nodes outline first middle values)
    (node : layout.Node outline start stop value) (starts : middle ≤ start)
    (upTo : stop ≤ behind) : layout.Nodes outline first behind (values ++ [value]) := by
  intro role
  rw [List.map_append]
  exact (nodes role).append (Layout.Row.single (node role) starts upTo)

theorem Layout.Optional.none (order : first ≤ behind) :
    layout.Optional outline first behind none :=
  fun _ => Layout.Row.nil order

theorem Layout.Optional.some (node : layout.Node outline start stop value)
    (starts : first ≤ start) (upTo : stop ≤ behind) :
    layout.Optional outline first behind (some value) :=
  fun role => Layout.Row.single (node role) starts upTo

end Lists

namespace Layout.Spans

variable {index : Nat} {lies : Nat → β → Prop}

/-! ### Steps one after another -/

theorem of_never {step : Step α} {lies : Nat → α → Prop}
    (never : ∀ {parser value later}, step parser ≠ .ok value later) :
    layout.Spans index step lies :=
  fun _ _ _ _ ran => absurd ran never

theorem fail {lies : Nat → α → Prop} (diagnostic : Diagnostic) :
    layout.Spans index (Step.fail diagnostic) lies :=
  of_never fail_ne_ok

theorem failAt {lies : Nat → α → Prop} (other : Token → Diagnostic) :
    layout.Spans index (Step.failAt other) lies :=
  of_never failAt_ne_ok

theorem tooDeep {lies : Nat → α → Prop} : layout.Spans index Step.tooDeep lies :=
  of_never tooDeep_ne_ok

theorem pure {lies : Nat → α → Prop} {value : α} (here : lies index value) :
    layout.Spans index (Pure.pure value) lies := by
  intro parser later result stands ran
  cases ran
  exact ⟨index, Nat.le_refl _, stands, here⟩

theorem bind {first : Step α} {next : α → Step β} {between : Nat → α → Prop}
    (here : layout.Spans index first between)
    (onwards : ∀ behind value, index ≤ behind → between behind value →
      layout.Spans behind (next value) lies) : layout.Spans index (first >>= next) lies := by
  intro parser later result stands ran
  obtain ⟨value, middle, ranFirst, ranNext⟩ := bind_ok ran
  obtain ⟨behind, order, standsMiddle, isBetween⟩ := here stands ranFirst
  obtain ⟨last, orderLast, standsLast, isLast⟩ :=
    onwards behind value order isBetween standsMiddle ranNext
  exact ⟨last, Nat.le_trans order orderLast, standsLast, isLast⟩

theorem weaken {step : Step α} {lies other : Nat → α → Prop} (spans : layout.Spans index step lies)
    (onwards : ∀ behind value, index ≤ behind → lies behind value → other behind value) :
    layout.Spans index step other := by
  intro parser later value stands ran
  obtain ⟨behind, order, standsLater, isValue⟩ := spans stands ran
  exact ⟨behind, order, standsLater, onwards behind value order isValue⟩

theorem mapped {step : Step α} {make : α → β} {between : Nat → α → Prop}
    (spans : layout.Spans index step between)
    (onwards : ∀ behind value, index ≤ behind → between behind value → lies behind (make value)) :
    layout.Spans index (step >>= fun value => Pure.pure (make value)) lies :=
  .bind spans fun behind value order isValue => .pure (onwards behind value order isValue)

theorem ite {condition : Prop} [Decidable condition] {left right : Step α} {lies : Nat → α → Prop}
    (onTrue : condition → layout.Spans index left lies)
    (onFalse : ¬condition → layout.Spans index right lies) :
    layout.Spans index (if condition then left else right) lies := by
  split
  · exact onTrue ‹_›
  · exact onFalse ‹_›

theorem look {look : Step α} {next : α → Step β} (seen : Parser → α)
    (looks : ∀ parser, look parser = .ok (seen parser) parser)
    (onwards : ∀ parser, layout.Stands index parser →
      layout.Spans index (next (seen parser)) lies) :
    layout.Spans index (look >>= next) lies := by
  intro parser later value stands ran
  rw [look_bind (looks parser)] at ran
  exact onwards parser stands stands ran

theorem check {kind : Kind} {next : Bool → Step β}
    (onwards : ∀ here, layout.Spans index (next here) lies) :
    layout.Spans index (Step.check kind >>= next) lies :=
  look _ (fun parser => check_eq parser kind) fun _ _ => onwards _

theorem kindNth {count : Nat} {next : Kind → Step β}
    (onwards : ∀ kind, layout.Spans index (next kind) lies) :
    layout.Spans index (Step.kindNth count >>= next) lies :=
  look _ (fun parser => kindNth_eq parser count) fun _ _ => onwards _

theorem current {next : Kind → Step β} (onwards : ∀ kind,
    (kind ≠ .endOfFile → index + 1 < layout.buffer.length) →
    layout.Spans index (next kind) lies) : layout.Spans index (Step.current >>= next) lies :=
  look _ current_eq fun _ stands => onwards _ stands.more

theorem isVarDef {next : Bool → Step β} (onwards : ∀ here, layout.Spans index (next here) lies) :
    layout.Spans index (Step.isVarDef >>= next) lies :=
  look _ isVarDef_eq fun _ _ => onwards _

theorem peek {next : Token → Step β} (onwards : ∀ token : Token,
    (index + 1 < layout.buffer.length → layout.Over index (index + 1) token.span) →
    layout.Spans index (next token) lies) : layout.Spans index (Step.peek >>= next) lies :=
  look _ peek_eq fun _ stands => onwards _ stands.over_peek

theorem spanFrom {start : Span} {first behind : Nat} (placed : layout.Over first behind start)
    (upTo : behind ≤ index) : layout.Spans index (Step.spanFrom start)
      fun last span => last = index ∧ layout.Over first index span := by
  intro parser later span stands ran
  cases ran
  exact ⟨index, Nat.le_refl _, stands, rfl, placed.after stands.place upTo⟩

theorem spanFromPeek {start : Span} {first : Nat} (less : first < index)
    (isStart : first + 1 < layout.buffer.length → layout.Over first (first + 1) start) :
    layout.Spans index (Step.spanFrom start)
      fun last span => last = index ∧ layout.Over first index span := by
  intro parser later span stands ran
  have inside := stands.place.inside
  exact spanFrom (isStart (by omega)) less stands ran

/-! ### Consuming -/

theorem takes {step : Step α} (standsFor : Token → α → Prop)
    (only : ∀ {parser value later}, step parser = .ok value later →
      parser.cursor.peek.kind ≠ .endOfFile ∧ standsFor parser.cursor.peek value ∧
        later = parser.advance) :
    layout.Spans index step fun behind value => behind = index + 1 ∧
      ∃ token, standsFor token value ∧ layout.Over index behind token.span := by
  intro parser later value stands ran
  obtain ⟨notEnd, here, rfl⟩ := only ran
  exact ⟨index + 1, by omega, stands.advance notEnd, rfl, _, here,
    stands.over_peek (stands.more notEnd)⟩

theorem advance {next : Token → Step β}
    (refuses : ∀ {token : Token} {parser : Parser} {value : β} {later : Parser},
      token.kind = .endOfFile → next token parser ≠ .ok value later)
    (onwards : ∀ token : Token, layout.Over index (index + 1) token.span →
      layout.Spans (index + 1) (next token) lies) :
    layout.Spans index (Step.advance >>= next) lies := by
  intro parser later value stands ran
  rw [bind_of_ok (advance_eq parser)] at ran
  have notEnd : parser.cursor.peek.kind ≠ .endOfFile := fun ends => refuses ends ran
  obtain ⟨behind, order, standsLater, isValue⟩ :=
    onwards _ (stands.over_peek (stands.more notEnd)) (stands.advance notEnd) ran
  exact ⟨behind, by omega, standsLater, isValue⟩

theorem expect (kind : Kind) (notEnd : kind ≠ .endOfFile) :
    layout.Spans index (Step.expect kind) fun behind token =>
      behind = index + 1 ∧ layout.Over index behind token.span := by
  apply weaken (takes (fun token value => value = token) fun ran => ?_)
  · rintro behind value - ⟨rfl, token, rfl, placed⟩
    exact ⟨rfl, placed⟩
  · obtain ⟨here, rfl, rfl⟩ := expect_ok ran
    exact ⟨here ▸ notEnd, rfl, rfl⟩

theorem symbol (sign : Symbol) :
    layout.Spans index (expectSymbol sign) fun behind token =>
      behind = index + 1 ∧ layout.Over index behind token.span :=
  expect _ nofun

theorem keyword (word : Keyword) :
    layout.Spans index (expectKeyword word) fun behind token =>
      behind = index + 1 ∧ layout.Over index behind token.span :=
  expect _ nofun

theorem identifier : layout.Spans index expectIdentifier fun behind name =>
    behind = index + 1 ∧ layout.Node Identifier.outline index behind name := by
  apply weaken (takes (fun token name => name = ⟨token.lexeme, token.span⟩) fun ran => ?_)
  · rintro behind name - ⟨rfl, token, rfl, placed⟩
    exact ⟨rfl, fun role => .leaf placed⟩
  · obtain ⟨here, rfl, rfl⟩ := expectIdentifier_ok ran
    exact ⟨here ▸ nofun, rfl, rfl⟩

theorem eat? (kind : Kind) (notEnd : kind ≠ .endOfFile) :
    layout.Spans index (Step.eat? kind) fun behind found =>
      (found = none ∧ behind = index) ∨
        ∃ token, found = some token ∧ behind = index + 1 ∧ layout.Over index behind token.span := by
  intro parser later found stands ran
  by_cases here : parser.cursor.peek.kind = kind
  · have more : parser.cursor.peek.kind ≠ .endOfFile := here ▸ notEnd
    rw [eat?_of_kind here] at ran
    cases ran
    exact ⟨index + 1, by omega, stands.advance more, .inr ⟨_, rfl, rfl, stands.over_peek (stands.more more)⟩⟩
  · rw [eat?_of_other here] at ran
    cases ran
    exact ⟨index, Nat.le_refl _, stands, .inl ⟨rfl, rfl⟩⟩

theorem skipped {step : Step α} (orderly : Orderly (fun _ => True) step) :
    layout.Spans index step fun _ _ => True := by
  intro parser later value stands ran
  obtain ⟨behind, order, standsLater⟩ := stands.of_run (orderly parser)
  rw [after_of_ok ran] at standsLater
  exact ⟨behind, order, standsLater, trivial⟩

theorem eat (kind : Kind) (notEnd : kind ≠ .endOfFile) :
    layout.Spans index (Step.eat kind) fun behind _ => behind ≤ index + 1 := by
  apply mapped (eat? kind notEnd)
  rintro behind found - (⟨-, rfl⟩ | ⟨token, -, rfl, -⟩)
  · omega
  · exact Nat.le_refl _

/-! ### Repeating -/

def AfterTurn (holds ends : Nat → σ → Prop) (behind : Nat) : ForInStep σ → Prop
  | .done state => ends behind state
  | .yield state => holds behind state

/-- What holds before a loop and is kept by its turns leads to what holds behind it. -/
theorem loopTo {turn : σ → Step (ForInStep σ)} {holds ends : Nat → σ → Prop} {state : σ}
    (start : holds index state) (turns : ∀ behind state, index ≤ behind → holds behind state →
      layout.Spans behind (turn state) (AfterTurn holds ends))
    (last : ∀ behind state, holds behind state → ends behind state) :
    layout.Spans index (Step.loop turn state) ends := by
  intro parser later final stands ran
  induction less : parser.cursor.remaining using Nat.strongRecOn
    generalizing parser index state with
  | ind _ ih =>
    subst less
    have turned := turns index state (Nat.le_refl _) start
    rcases loop_ok ran with ranTurn | ⟨next, between, ranTurn, ⟨shorter, rest⟩ | ⟨-, rfl, rfl⟩⟩
    · exact turned stands ranTurn
    · obtain ⟨middle, order, standsBetween, holdsNext⟩ := turned stands ranTurn
      obtain ⟨behind, orderBehind, standsLater, holdsFinal⟩ := ih _ shorter holdsNext
        (fun behind state orderBehind => turns behind state (Nat.le_trans order orderBehind))
        standsBetween rest rfl
      exact ⟨behind, Nat.le_trans order orderBehind, standsLater, holdsFinal⟩
    · obtain ⟨middle, order, standsBetween, holdsNext⟩ := turned stands ranTurn
      exact ⟨middle, order, standsBetween, last middle _ holdsNext⟩

theorem loop {turn : σ → Step (ForInStep σ)} {holds : Nat → σ → Prop} {state : σ}
    (start : holds index state) (turns : ∀ behind state, index ≤ behind → holds behind state →
      layout.Spans behind (turn state) (AfterTurn holds holds)) :
    layout.Spans index (Step.loop turn state) holds :=
  loopTo start turns fun _ _ here => here

theorem done {holds ends : Nat → σ → Prop} {state : σ} (here : ends index state) :
    layout.Spans index (Pure.pure (ForInStep.done state)) (AfterTurn holds ends) :=
  .pure here

theorem yield {holds ends : Nat → σ → Prop} {state : σ} (here : holds index state) :
    layout.Spans index (Pure.pure (ForInStep.yield state)) (AfterTurn holds ends) :=
  .pure here

theorem yielded {holds ends : Nat → σ → Prop} {step : Step α} {make : α → σ}
    {between : Nat → α → Prop} (spans : layout.Spans index step between)
    (onwards : ∀ behind value, index ≤ behind → between behind value →
      holds behind (make value)) :
    layout.Spans index (step >>= fun value => Pure.pure (ForInStep.yield (make value)))
      (AfterTurn holds ends) :=
  mapped spans onwards

section Lists

variable {outline : String → α → Outline} {item : Step α}
  (spans : ∀ index, layout.Spans index item (layout.Node outline index))

include spans

theorem commaSeparated : layout.Spans index (Step.commaSeparated item)
    (layout.Nodes outline index) := by
  apply loop (Layout.Nodes.nil (Nat.le_refl _))
  intro behind items order nodes
  apply bind (spans behind)
  intro middle value orderMiddle node
  apply bind (eat (.symbol .comma) nofun)
  intro last more orderLast _
  exact ite (fun _ => .yield (nodes.snoc node (Nat.le_refl _) orderLast))
    fun _ => .done (nodes.snoc node (Nat.le_refl _) orderLast)

theorem whileAt {kind : Kind} : layout.Spans index (Step.whileAt kind item)
    (layout.Nodes outline index) := by
  apply loop (Layout.Nodes.nil (Nat.le_refl _))
  intro behind items order nodes
  apply check
  intro here
  refine ite (fun _ => ?_) fun _ => .done nodes
  exact .yielded (spans behind) fun last value orderLast node =>
    nodes.snoc node (Nat.le_refl _) (Nat.le_refl _)

theorem listBefore {close : Symbol} : layout.Spans index (Step.listBefore close item)
    (layout.Nodes outline index) := by
  apply check
  intro here
  exact ite (fun _ => .pure (Layout.Nodes.nil (Nat.le_refl _))) fun _ => commaSeparated spans

theorem closedList {close : Symbol} : layout.Spans index (Step.closedList close item)
    fun behind found => ∃ last, index ≤ last ∧ behind = last + 1 ∧
      layout.Nodes outline index last found.1 ∧ layout.Over last behind found.2.span := by
  apply bind (listBefore spans)
  intro last items order nodes
  apply mapped (symbol close)
  rintro behind token - ⟨rfl, placed⟩
  exact ⟨last, order, rfl, nodes, placed⟩

theorem ifAt {kind : Kind} : layout.Spans index (Step.ifAt kind item)
    (layout.Optional outline index) := by
  apply check
  intro here
  refine ite (fun _ => ?_) fun _ => .pure (Layout.Optional.none (Nat.le_refl _))
  exact mapped (spans index) fun behind value order node =>
    Layout.Optional.some node (Nat.le_refl _) (Nat.le_refl _)

theorem ifBehind {kind : Kind} (notEnd : kind ≠ .endOfFile) :
    layout.Spans index (Step.ifBehind kind item) (layout.Optional outline index) := by
  apply bind (weaken (eat kind notEnd) fun behind _ order _ => order)
  intro middle here order _
  refine ite (fun _ => ?_) fun _ => .pure (Layout.Optional.none order)
  exact mapped (spans middle) fun behind value _ node =>
    Layout.Optional.some node order (Nat.le_refl _)

end Lists

/-! ### Closing -/

/-- The mark of a closing brace lies behind what has been read, even when it was only
assumed. -/
theorem closeBrace : layout.Spans index Step.closeBrace fun behind marker =>
    ∀ role first, first < index → layout.Gathers first behind [marker.outline role] := by
  intro parser later marker stands ran
  by_cases here : parser.cursor.peek.kind = .symbol .rightBrace
  · have notEnd : parser.cursor.peek.kind ≠ .endOfFile := here ▸ nofun
    have more := stands.more notEnd
    rw [Step.closeBrace, bind_of_ok (eat?_of_kind here)] at ran
    cases ran
    refine ⟨index + 1, by omega, stands.advance notEnd, fun role first before => ?_⟩
    apply Layout.Gathers.of_row _ more
    exact Layout.Row.single (Layout.Covers.leaf (stands.over_peek more)) (Nat.le_of_lt before)
      (Nat.le_refl _)
  · rw [Step.closeBrace, bind_of_ok (eat?_of_other here)] at ran
    cases ran
    refine ⟨index, Nat.le_refl _, ⟨?_, ?_⟩, fun role first before => ?_⟩
    · rw [Parser.cursor_report]
      exact stands.place
    · rw [Parser.cursor_report]
      exact stands.comments
    · obtain ⟨slot, member, isPrevious, last⟩ := Layout.Over.previous stands.place (by omega)
      simp only [isPrevious]
      exact .assumed member last before

/-! ### Comments and recovery -/

theorem takeComments : layout.Spans index Step.takeComments fun behind comments =>
    behind = index ∧ ∀ comment ∈ comments,
      comment.span.start < comment.span.stop ∧ layout.fits comment.span := by
  intro parser later comments stands ran
  rw [takeComments_eq] at ran
  by_cases keep : parser.options.keepComments = true
  · rw [if_pos keep] at ran
    cases ran
    exact ⟨index, Nat.le_refl _, ⟨stands.place.dropComments, nofun⟩, rfl, stands.comments⟩
  · rw [if_neg keep] at ran
    cases ran
    exact ⟨index, Nat.le_refl _, stands, rfl, nofun⟩

/-- The span of what has been skipped goes over all of it. -/
theorem over_spanSince {parser later : Parser} {behind : Nat} (stands : layout.Stands index parser)
    (standsLater : layout.Stands behind later)
    (moved : later.cursor.remaining < parser.cursor.remaining) :
    layout.Over index behind (later.cursor.spanSince parser.cursor) := by
  have lengths := stands.place.length_eq
  have lengthsLater := standsLater.place.length_eq
  obtain ⟨slot, -, isPrevious, last⟩ := Layout.Over.previous standsLater.place (by omega)
  rw [Cursor.spanSince, if_neg (by omega), Cursor.previousToken, isPrevious]
  exact (stands.over_peek (by omega)).merge last (by omega) (by omega)

/-- A part whose errors are recovered from: what stands for a broken one is laid over what
has been skipped. -/
theorem recovering {step part : Step α} {instead : Span → α} {lies : Nat → α → Prop}
    (orderly : Orderly (fun _ => True) step) (spans : layout.Spans index part lies)
    (broken : ∀ behind span, layout.Over index behind span → lies behind (instead span))
    (cases : ∀ {parser value later}, layout.Stands index parser → step parser = .ok value later →
      part parser = .ok value later ∨ value = instead (later.cursor.spanSince parser.cursor) ∧
        later.cursor.remaining < parser.cursor.remaining) : layout.Spans index step lies := by
  intro parser later value stands ran
  rcases cases stands ran with ranPart | ⟨rfl, moved⟩
  · exact spans stands ranPart
  · obtain ⟨behind, order, standsLater⟩ := stands.of_run (orderly parser)
    rw [after_of_ok ran] at standsLater
    exact ⟨behind, order, standsLater, broken _ _ (over_spanSince stands standsLater moved)⟩

theorem orRecover {point : SyncPoint} {part : Step α} {instead : Span → α}
    {lies : Nat → α → Prop} (more : index + 1 < layout.buffer.length)
    (orderly : Orderly (fun _ => True) part) (spans : layout.Spans index part lies)
    (broken : ∀ behind span, layout.Over index behind span → lies behind (instead span)) :
    layout.Spans index (Step.orRecover point part instead) lies := by
  apply recovering (fun parser => .orRecover (orderly parser) trivial) spans broken
  intro parser value later stands ran
  cases outcome : part parser with
  | ok found between =>
      left
      rw [Step.orRecover, look_bind (cursor_eq parser), tryCatch_of_ok outcome] at ran
      exact ran
  | error diagnostic between =>
      right
      rw [Step.orRecover, look_bind (cursor_eq parser), tryCatch_of_error outcome] at ran
      cases ran
      have lengths := stands.place.length_eq
      have behind := Run.remaining_le (orderly parser)
      rw [after_of_error outcome] at behind
      rw [Parser.cursor_report]
      exact ⟨rfl, Cursor.remaining_sync_lt point behind (by omega)⟩

theorem orSkip {part : Step α} {instead : Span → α}
    {lies : Nat → α → Prop} (more : index + 1 < layout.buffer.length)
    (orderly : Orderly (fun _ => True) part) (spans : layout.Spans index part lies)
    (broken : ∀ behind span, layout.Over index behind span → lies behind (instead span)) :
    layout.Spans index (Step.orSkip part instead) lies := by
  apply recovering (fun parser => .orSkip (orderly parser) trivial) spans broken
  intro parser value later stands ran
  cases outcome : part parser with
  | ok found between =>
      left
      rw [Step.orSkip, look_bind (cursor_eq parser), tryCatch_of_ok outcome] at ran
      exact ran
  | error diagnostic between =>
      right
      rw [Step.orSkip, look_bind (cursor_eq parser), tryCatch_of_error outcome] at ran
      cases ran
      have lengths := stands.place.length_eq
      have behind := Run.remaining_le (orderly parser)
      rw [after_of_error outcome] at behind
      rw [Parser.cursor_report]
      exact ⟨rfl, Cursor.remaining_syncDefinition_lt behind (by omega)⟩

end Layout.Spans

end ServiceLang
