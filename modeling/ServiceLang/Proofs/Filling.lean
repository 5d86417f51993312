import ServiceLang.Proofs.Remarks
import ServiceLang.Proofs.Settling

set_option autoImplicit false

/-! How a body is filled. The comments before each of its statements and workers, and those
before its closing brace, become statements of it. They are the ones that stand between two
tokens, so that the statements of a body stand one behind the other, comments among them. -/

namespace ServiceLang

theorem Stmt.span_outline (statement : Stmt) (role : String) :
    (statement.outline role).span = statement.span := by
  cases statement <;> rfl

theorem Worker.span_outline (worker : Worker) (role : String) :
    (worker.outline role).span = worker.span := by
  cases worker
  rfl

/-- A body among the tokens of a source, from the token `first` on. Before each of the tokens
`places` a statement or a worker of it starts, or its closing brace stands: the last of them.
`exact` tells whether no comment may be missing. -/
structure CallableBody.Placed (layout : Layout) (exact : Prop) (first last : Nat)
    (places : List Nat) (body : CallableBody) : Prop where
  inside : last < layout.buffer.length
  sorted : places.Pairwise (· < ·)
  between : ∀ place ∈ places, first < place ∧ place ≤ last
  start : body.span.start = layout.startAt first
  stop : body.span.stop = layout.stopAt (if body.close.synthetic then last - 1 else last)
  held : body.remarks.Sublist (places.flatMap layout.remarksAt)
  whole : exact → body.remarks = places.flatMap layout.remarksAt
  closed : exact → body.close.synthetic = false
  starts : body.close.synthetic = false →
    ∀ start, start ∈ body.starts ↔ ∃ place ∈ places, layout.startAt place = start
  ordered : body.statements.Pairwise fun left right => left.span.stop ≤ right.span.start

def CallableBody.IsPlaced (layout : Layout) (exact : Prop) (body : CallableBody) : Prop :=
  ∃ first last places, body.Placed layout exact first last places

structure Layout.Takes (layout : Layout) (exact : Prop) (index : Nat) (comments : List Token) :
    Prop where
  held : comments.Sublist (layout.commentsAt index)
  whole : exact → comments = layout.commentsAt index

theorem Layout.exists_startAt_snoc (layout : Layout) (places : List Nat) (index start : Nat) :
    (∃ place ∈ places ++ [index], layout.startAt place = start) ↔
      (∃ place ∈ places, layout.startAt place = start) ∨ start = layout.startAt index := by
  simp [or_and_right, exists_or, eq_comm]

namespace Grammar

def BodyItems.starts (items : BodyItems) : List Nat :=
  Stmt.starts items.statements ++ items.workers.map fun worker => worker.span.start

namespace BodyItems

variable (items : BodyItems)

theorem starts_addComments (comments : List Token) :
    (items.addComments comments).starts = items.starts := by
  have none : Stmt.starts (comments.map fun token => .comment token.lexeme token.span) = [] := by
    simp [Stmt.starts, Stmt.remark?]
  simp only [starts, Stmt.starts, addComments] at none ⊢
  rw [List.filter_append, List.map_append, none, List.append_nil]

theorem mem_starts_addStatement {statement : Stmt} (unremarked : statement.remark? = none)
    (start : Nat) : start ∈ (items.addStatement statement).starts ↔
      start ∈ items.starts ∨ start = statement.span.start := by
  simp [starts, Stmt.starts, addStatement, unremarked, or_right_comm, ← or_assoc]

theorem mem_starts_addWorker (worker : Worker) (start : Nat) :
    start ∈ (items.addWorker worker).starts ↔
      start ∈ items.starts ∨ start = worker.span.start := by
  simp [starts, addWorker, or_assoc]

end BodyItems

/-- What a body holds so far: the comments before the tokens `commented`, and what starts at the
tokens `placed`. No statement stops behind `limit`. -/
structure BodyItems.Fill (layout : Layout) (exact : Prop) (commented placed : List Nat)
    (limit : Nat) (items : BodyItems) : Prop where
  sorted : commented.Pairwise (· < ·)
  held : (items.statements.filterMap Stmt.remark?).Sublist (commented.flatMap layout.remarksAt)
  whole : exact → items.statements.filterMap Stmt.remark? = commented.flatMap layout.remarksAt
  starts : ∀ start, start ∈ items.starts ↔ ∃ place ∈ placed, layout.startAt place = start
  ordered : items.statements.Pairwise fun left right => left.span.stop ≤ right.span.start
  before : ∀ statement ∈ items.statements, statement.span.stop ≤ limit

namespace BodyItems.Fill

variable {layout : Layout} {exact : Prop} {commented placed : List Nat} {limit index behind : Nat}
  {items : BodyItems}

theorem nil : Fill layout exact [] [] limit ⟨[], []⟩ where
  sorted := List.Pairwise.nil
  held := .slnil
  whole _ := rfl
  starts start := by simp [BodyItems.starts, Stmt.starts]
  ordered := List.Pairwise.nil
  before := nofun

theorem addComments {comments : List Token} (lined : layout.IsLined)
    (fill : items.Fill layout exact placed placed (layout.stopAt (index - 1)))
    (more : 0 < index) (inside : index < layout.buffer.length)
    (later : ∀ place ∈ placed, place < index) (takes : layout.Takes exact index comments) :
    (items.addComments comments).Fill layout exact (placed ++ [index]) placed
      (layout.startAt index) := by
  have ordered := (layout.ordered_commentsAt lined index).sublist takes.held
  have apart := layout.stopAt_le_startAt (index - 1) index (by omega) inside
  constructor
  · refine List.pairwise_append.mpr ⟨fill.sorted, List.pairwise_singleton _ _, ?_⟩
    intro place member other isIndex
    rw [List.mem_singleton.mp isIndex]
    exact later place member
  · rw [items.remarks_addComments, List.flatMap_append]
    refine fill.held.append ?_
    rw [List.flatMap_cons, List.flatMap_nil, List.append_nil]
    exact takes.held.map Token.remark
  · intro isExact
    rw [items.remarks_addComments, List.flatMap_append, fill.whole isExact, List.flatMap_cons,
      List.flatMap_nil, List.append_nil, takes.whole isExact]
    rfl
  · intro start
    rw [items.starts_addComments, fill.starts]
  · refine List.pairwise_append.mpr ⟨fill.ordered, List.pairwise_map.mpr ordered, ?_⟩
    intro statement member other isComment
    obtain ⟨comment, taken, rfl⟩ := List.mem_map.mp isComment
    exact Nat.le_trans (fill.before statement member)
      (layout.stopAt_le_start lined (takes.held.subset taken) (by omega))
  · intro statement member
    rcases List.mem_append.mp member with member | isComment
    · exact Nat.le_trans (fill.before statement member) apart
    · obtain ⟨comment, taken, rfl⟩ := List.mem_map.mp isComment
      exact layout.stop_le_startAt lined (takes.held.subset taken)

theorem addStatement {statement : Stmt}
    (fill : items.Fill layout exact commented placed (layout.startAt index))
    (unremarked : statement.remark? = none) (isStart : statement.span.start = layout.startAt index)
    (proper : statement.span.start ≤ statement.span.stop) (upTo : statement.span.stop ≤ limit) :
    (items.addStatement statement).Fill layout exact commented (placed ++ [index]) limit := by
  have remarks := items.remarks_addStatement unremarked
  constructor
  · exact fill.sorted
  · exact remarks ▸ fill.held
  · exact remarks ▸ fill.whole
  · intro start
    rw [items.mem_starts_addStatement unremarked, fill.starts, isStart, layout.exists_startAt_snoc]
  · refine List.pairwise_append.mpr ⟨fill.ordered, List.pairwise_singleton _ _, ?_⟩
    intro earlier member other isStatement
    rw [List.mem_singleton.mp isStatement, isStart]
    exact fill.before earlier member
  · intro other member
    rcases List.mem_append.mp member with member | isStatement
    · have bound := fill.before other member
      omega
    · rw [List.mem_singleton.mp isStatement]
      exact upTo

theorem addWorker {worker : Worker}
    (fill : items.Fill layout exact commented placed (layout.startAt index))
    (isStart : worker.span.start = layout.startAt index) (upTo : layout.startAt index ≤ limit) :
    (items.addWorker worker).Fill layout exact commented (placed ++ [index]) limit := by
  constructor
  · exact fill.sorted
  · exact fill.held
  · exact fill.whole
  · intro start
    rw [items.mem_starts_addWorker, fill.starts, isStart, layout.exists_startAt_snoc]
  · exact fill.ordered
  · exact fun other member => Nat.le_trans (fill.before other member) upTo

end BodyItems.Fill

/-! ### Filling a body -/

section Items

open Step

variable {layout : Layout} {exact : Prop} {room index first : Nat} {kind : BodyKind}
  {commented placed : List Nat} {items next : BodyItems} {parser later : Parser}

theorem itemRule_spans (room : Nat) (kind : BodyKind) :
    layout.Spans index (itemRule (.within room) kind) (layout.Leading Stmt.outline index) :=
  .ite (fun _ => transformItem_spans (StmtParts.within_areSpanned room)) fun _ =>
    statementWith_spans (StmtParts.within_areSpanned room)

/-- What is read of a body, or skipped, starts at the token before which the comments have been
taken. -/
theorem bodyItem_fills
    (fill : items.Fill layout exact commented placed (layout.startAt index)) :
    layout.Spans index (bodyItem (.within room) kind items) fun behind next => index < behind ∧
      next.Fill layout exact commented (placed ++ [index]) (layout.stopAt (behind - 1)) := by
  intro parser later next stands ran
  rcases bodyItem_ok ran with ⟨found, -, -, ranWorker, rfl⟩ | ⟨statement, -, ranItem, rfl⟩
  · obtain ⟨behind, order, standsLater, isWorker⟩ :=
      worker_spans (StmtParts.within_areSpanned room) stands ranWorker
    have isOver := (isWorker "").placed
    rw [Worker.span_outline] at isOver
    have proper := isOver.proper
    have isStart := isOver.start
    have isStop := isOver.stop
    exact ⟨behind, order, standsLater, isOver.less, fill.addWorker isStart (by omega)⟩
  · obtain ⟨behind, order, standsLater, last, upTo, isStatement⟩ :=
      itemRule_spans room kind stands ranItem
    have isOver := (isStatement "").placed
    rw [Stmt.span_outline] at isOver
    have less := isOver.less
    have inside := standsLater.place.inside
    have stops := layout.stopAt_mono (last - 1) (behind - 1) (by omega) (by omega)
    exact ⟨behind, order, standsLater, by omega, fill.addStatement
      (itemRule_unremarked kind ranItem) isOver.start (Nat.le_of_lt isOver.proper)
      (isOver.stop ▸ stops)⟩

theorem recoveredItem_fills
    (fill : items.Fill layout exact commented placed (layout.startAt index))
    (more : index + 1 < layout.buffer.length) :
    layout.Spans index (Step.orRecover .statement (bodyItem (.within room) kind items)
      fun span => items.addStatement (.broken span)) fun behind next => index < behind ∧
        next.Fill layout exact commented (placed ++ [index]) (layout.stopAt (behind - 1)) := by
  have eager : Eager (fun _ => True) (bodyItem (.within room) kind items) :=
    bodyItem_eager (StmtParts.within_areEager room) kind items
  refine .orRecover more eager.orderly (bodyItem_fills fill) fun behind span isOver => ?_
  exact ⟨isOver.less, fill.addStatement rfl isOver.start (Nat.le_of_lt isOver.proper)
    (Nat.le_of_eq isOver.stop)⟩

end Items

end Grammar

/-! ### Comments that can be taken -/

namespace Layout

open Step

variable {layout : Layout} {exact : Prop} {index : Nat} {parser later : Parser}

theorem Stands.commentsAt_eq (stands : layout.Stands index parser) :
    layout.commentsAt index = (parser.cursor.ahead.head?.getD parser.cursor.final).comments := by
  have rest := congrArg List.head? stands.place.rest
  rw [List.head?_drop] at rest
  rw [commentsAt, ← rest]
  cases parser.cursor.ahead <;> rfl

/-- A parser somewhere among the tokens. Of the comments before the current one all have been
taken, or none. Where nothing may be missing, comments are kept. -/
structure Ready (layout : Layout) (exact : Prop) (parser : Parser) : Prop where
  stands : ∃ index, layout.Stands index parser
  left : parser.cursor.comments = [] ∨ parser.cursor.IsFresh
  keeps : exact → parser.options.keepComments = true

theorem Ready.of_run {α : Type} {step : Step α} (ready : layout.Ready exact parser)
    (run : RunsIn (fun _ => True) step parser) : layout.Ready exact (after step parser) := by
  refine (run.keeping (layout.Ready exact) ?_ ?_ ?_ ready).2
  · intro later ready _ more
    obtain ⟨index, stands⟩ := ready.stands
    exact ⟨⟨index + 1, stands.place.advance more,
      stands.comments_advance (List.length_pos_iff.mp more)⟩, .inr (Cursor.isFresh_advance more),
      ready.keeps⟩
  · intro later ready
    obtain ⟨index, stands⟩ := ready.stands
    exact ⟨⟨index, stands.place.dropComments, nofun⟩, .inl rfl, ready.keeps⟩
  · intro later diagnostic ready
    obtain ⟨index, stands⟩ := ready.stands
    have same := later.cursor_report diagnostic
    exact ⟨⟨index, same ▸ stands.place, same ▸ stands.comments⟩, same ▸ ready.left,
      later.options_report diagnostic ▸ ready.keeps⟩

theorem Ready.of_ok {α : Type} {step : Step α} {value : α} (ready : layout.Ready exact parser)
    (orderly : Orderly (fun _ => True) step) (ran : step parser = .ok value later) :
    layout.Ready exact later :=
  after_of_ok ran ▸ ready.of_run (orderly parser)

theorem Ready.takes {comments : List Token} (ready : layout.Ready exact parser)
    (stands : layout.Stands index parser) (fresh : exact → parser.cursor.IsFresh)
    (ran : takeComments parser = .ok comments later) : layout.Takes exact index comments := by
  have whole (isFresh : parser.cursor.IsFresh) :
      parser.cursor.comments = layout.commentsAt index := isFresh.trans stands.commentsAt_eq.symm
  rw [takeComments_eq] at ran
  split at ran
  · cases ran
    refine ⟨?_, fun isExact => whole (fresh isExact)⟩
    rcases ready.left with none | isFresh
    · exact none ▸ List.nil_sublist _
    · exact whole isFresh ▸ .refl _
  · rename_i dropped
    cases ran
    exact ⟨List.nil_sublist _, fun isExact => absurd (ready.keeps isExact) dropped⟩

/-- The bodies that are read are placed among the tokens. Where no comment may be missing, this
is so as long as nothing is reported. -/
def Places (layout : Layout) (exact : Prop) (parser : Parser) (found : List CallableBody)
    (later : Parser) (given : List CallableBody) : Prop :=
  layout.Ready exact parser → layout.Ready exact later ∧
    ((exact → later.Clean) → (exact → parser.Clean) ∧
      ((∀ body ∈ found, body.IsPlaced layout exact) → ∀ body ∈ given, body.IsPlaced layout exact))

instance : Harvest (layout.Places exact) where
  idle run ran found ready := by
    refine ⟨after_of_ok ran ▸ ready.of_run run, fun calm => ⟨fun isExact => ?_, id⟩⟩
    exact run.clean_of_after (by rw [after_of_ok ran]; exact calm isExact)
  trans here onwards ready := by
    obtain ⟨readyBetween, placed⟩ := here ready
    obtain ⟨readyLater, placedLater⟩ := onwards readyBetween
    refine ⟨readyLater, fun calm => ?_⟩
    obtain ⟨calmBetween, keeps⟩ := placedLater calm
    obtain ⟨calmFirst, gives⟩ := placed calmBetween
    exact ⟨calmFirst, fun all => keeps (gives all)⟩
  fewer here subperm ready := by
    obtain ⟨readyLater, placed⟩ := here ready
    refine ⟨readyLater, fun calm => ?_⟩
    obtain ⟨calmFirst, gives⟩ := placed calm
    exact ⟨calmFirst, fun all body member => gives all body (subperm.subset member)⟩

end Layout

/-- A closing brace is passed over, or assumed with an error. -/
theorem Step.closeBrace_cases {parser later : Parser} {marker : TokenMarker}
    (ran : closeBrace parser = .ok marker later) :
    (parser.cursor.peek.kind = .symbol .rightBrace ∧
        marker = ⟨parser.cursor.peek.span, false⟩ ∧ later = parser.advance) ∨
      (marker.synthetic = true ∧ later.cursor = parser.cursor ∧ ¬later.Clean) := by
  by_cases here : parser.cursor.peek.kind = .symbol .rightBrace
  · rw [closeBrace_of_kind here] at ran
    cases ran
    exact .inl ⟨here, rfl, rfl⟩
  · rw [closeBrace, bind_of_ok (eat?_of_other here)] at ran
    have disturbed : ¬later.CleanWith later.options := not_calm_of_assume ran
    cases ran
    exact .inr ⟨rfl, Parser.cursor_report _ _, fun clean => disturbed ⟨clean, rfl⟩⟩

namespace Grammar

open Step

section Body

variable {layout : Layout} {exact : Prop} {room index first : Nat} {kind : BodyKind}
  {items : BodyItems} {parser later : Parser}

structure BodyItems.Fills (layout : Layout) (exact : Prop) (first index : Nat) (items : BodyItems)
    (parser : Parser) : Prop where
  ready : layout.Ready exact parser
  stands : layout.Stands index parser
  less : first < index
  fresh : exact → parser.cursor.IsFresh
  fill : ∃ placed, (∀ place ∈ placed, first < place ∧ place < index) ∧
    items.Fill layout exact placed placed (layout.stopAt (index - 1))

structure BodyItems.Filled (layout : Layout) (exact : Prop) (first index : Nat)
    (items : BodyItems) (parser : Parser) : Prop where
  ready : layout.Ready exact parser
  stands : layout.Stands index parser
  less : first < index
  fill : ∃ placed, (∀ place ∈ placed, first < place ∧ place < index) ∧
    items.Fill layout exact (placed ++ [index]) placed (layout.startAt index)

theorem nextBodyItem_fills (lined : layout.IsLined) {decision : ForInStep BodyItems}
    (fills : items.Fills layout exact first index parser)
    (ran : nextBodyItem (.within room) kind items parser = .ok decision later)
    (calm : exact → later.Clean) :
    (∃ final, decision = .done final ∧ final.Filled layout exact first index later) ∨
      ∃ next behind, decision = .yield next ∧ index < behind ∧
        next.Fills layout exact first behind later := by
  obtain ⟨placed, bounded, fill⟩ := fills.fill
  obtain ⟨comments, between, ranComments, ran⟩ := bind_ok ran
  have more : 0 < index := Nat.lt_of_le_of_lt (Nat.zero_le first) fills.less
  have taken := fill.addComments lined more fills.stands.place.inside
    (fun place member => (bounded place member).2)
    (fills.ready.takes fills.stands fills.fresh ranComments)
  have readyBetween := fills.ready.of_ok .takeComments ranComments
  obtain ⟨here, -, standsBetween, isIndex, -⟩ := Layout.Spans.takeComments fills.stands ranComments
  rw [isIndex] at standsBetween
  rw [look_bind (current_eq between)] at ran
  split at ran
  · cases ran
    exact .inl ⟨_, rfl, readyBetween, standsBetween, fills.less, placed, bounded, taken⟩
  · rename_i inside
    obtain ⟨next, last, ranItem, ran⟩ := bind_ok ran
    cases ran
    let taking := items.addComments comments
    have eager : Eager (fun _ => True) (bodyItem (.within room) kind taking) :=
      bodyItem_eager (StmtParts.within_areEager room) kind taking
    have settles : Settles False (Step.orRecover .statement (bodyItem (.within room) kind taking)
        fun span => taking.addStatement (.broken span)) :=
      .orRecover eager.orderly
        (bodyItem_settles (StmtParts.within_areEager room) (body_settles room) kind taking)
    obtain ⟨behind, order, standsLater, less, filled⟩ := recoveredItem_fills taken
      (standsBetween.more (startsDefinition_of_endsBody inside).2) standsBetween ranItem
    refine .inr ⟨next, behind, rfl, less, ?_, standsLater, Nat.lt_trans fills.less less, ?_,
      placed ++ [index], ?_, filled⟩
    · exact readyBetween.of_ok (fun parser => .orRecover (eager.orderly parser) trivial) ranItem
    · exact fun isExact => settles False.elim ranItem (calm isExact)
    · intro place member
      rcases List.mem_append.mp member with member | isIndex
      · exact ⟨(bounded place member).1, Nat.lt_trans (bounded place member).2 less⟩
      · rw [List.mem_singleton.mp isIndex]
        exact ⟨fills.less, less⟩

theorem bodyItems_filled {index : Nat} {items final : BodyItems} {parser later : Parser}
    (lined : layout.IsLined) (fills : items.Fills layout exact first index parser)
    (ran : Step.loop (nextBodyItem (.within room) kind) items parser = .ok final later)
    (calm : exact → later.Clean) : ∃ last, final.Filled layout exact first last later := by
  have turns (items : BodyItems) :
      Turn (fun _ => True) (nextBodyItem (.within room) kind items) :=
    nextBodyItem_turn (StmtParts.within_areEager room) kind items
  rcases loop_ok ran with ran | ⟨next, between, ran, ⟨shorter, rest⟩ | ⟨still, rfl, rfl⟩⟩
  · rcases nextBodyItem_fills lined fills ran calm with ⟨final, same, filled⟩ | ⟨_, _, same, -⟩
    · cases same
      exact ⟨index, filled⟩
    · cases same
  · have calmBetween (isExact : exact) : between.Clean :=
      (Orderly.loop turns next).clean_of_ok rest (calm isExact)
    rcases nextBodyItem_fills lined fills ran calmBetween with ⟨_, same, -⟩ | ⟨_, _, same, -, onwards⟩
    · cases same
    · cases same
      exact bodyItems_filled lined onwards rest calm
  · exact absurd ((turns items).advances ran) still
termination_by parser.cursor.remaining

/-- The closing brace is the last token of a body; where it is only assumed, the body stops at
the token before it. -/
theorem bodyWith_placed (lined : layout.IsLined) {body : CallableBody}
    (ready : layout.Ready exact parser)
    (ran : bodyWith (.within room) kind parser = .ok body later) (calm : exact → later.Clean) :
    body.IsPlaced layout exact := by
  obtain ⟨first, stands⟩ := ready.stands
  obtain ⟨open_, inside, ranOpen, ran⟩ := bind_ok ran
  obtain ⟨items, before, ranItems, ran⟩ := bind_ok ran
  obtain ⟨close, behind, ranClose, ran⟩ := bind_ok ran
  cases ran
  have readyInside := ready.of_ok (.symbol _) ranOpen
  obtain ⟨here, rfl, rfl⟩ := expect_ok ranOpen
  have notEnd : parser.cursor.peek.kind ≠ .endOfFile := here ▸ nofun
  have isOpen := stands.over_peek (stands.more notEnd)
  have fills : BodyItems.Fills layout exact first (first + 1) ⟨[], []⟩ parser.advance :=
    ⟨readyInside, stands.advance notEnd, by omega,
      fun _ => Cursor.isFresh_advance (parser.cursor.remaining_pos notEnd), [], nofun, .nil⟩
  have calmBefore (isExact : exact) : before.Clean :=
    Orderly.closeBrace.clean_of_ok ranClose (calm isExact)
  obtain ⟨last, filled⟩ := bodyItems_filled lined fills ranItems calmBefore
  obtain ⟨placed, bounded, fill⟩ := filled.fill
  have between (place : Nat) (member : place ∈ placed ++ [last]) : first < place ∧ place ≤ last := by
    rcases List.mem_append.mp member with member | isLast
    · exact ⟨(bounded place member).1, Nat.le_of_lt (bounded place member).2⟩
    · rw [List.mem_singleton.mp isLast]
      exact ⟨filled.less, Nat.le_refl _⟩
  rcases closeBrace_cases ranClose with ⟨isClose, rfl, rfl⟩ | ⟨assumed, sameCursor, disturbed⟩
  · have notEnd : before.cursor.peek.kind ≠ .endOfFile := isClose ▸ nofun
    have isOver := isOpen.after (filled.stands.advance notEnd).place (by have := filled.less; omega)
    refine ⟨first, last, placed ++ [last], filled.stands.place.inside, fill.sorted, between,
      isOver.start, isOver.stop, fill.held, fill.whole, fun _ => rfl, fun _ start => ?_,
      fill.ordered⟩
    rw [layout.exists_startAt_snoc, ← fill.starts, filled.stands.startAt_eq]
    exact List.mem_append.trans (or_congr_right List.mem_singleton)
  · have isOver := isOpen.after filled.stands.place filled.less
    rw [← sameCursor] at isOver
    refine ⟨first, last, placed ++ [last], filled.stands.place.inside, fill.sorted, between,
      isOver.start, ?_, fill.held, fill.whole, fun isExact => absurd (calm isExact) disturbed,
      fun real => ?_, fill.ordered⟩
    · rw [if_pos assumed]
      exact isOver.stop
    · rw [assumed] at real
      cases real

theorem bodyWith_places (lined : layout.IsLined) (room : Nat) (kind : BodyKind)
    (harvested : (StmtParts.within room).AreHarvested (layout.Places exact)) :
    Adds (layout.Places exact) (bodyWith (.within room) kind) CallableBody.bodies := by
  intro found parser later body ran ready
  obtain ⟨readyLater, below⟩ := bodyWith_below harvested kind found ran ready
  dsimp only at below ⊢
  refine ⟨readyLater, fun calm => ?_⟩
  obtain ⟨calmFirst, keeps⟩ := below calm
  refine ⟨calmFirst, fun all other member => ?_⟩
  have isPlaced := bodyWith_placed lined ready ran calm
  rw [CallableBody.bodies_eq] at member
  rcases List.mem_append.mp member with member | member
  · exact keeps all other (List.mem_append_left _ member)
  · rcases List.mem_cons.mp member with rfl | member
    · exact isPlaced
    · exact keeps all other (List.mem_append_right _ (by rwa [CallableBody.bodies_eq]))

/-- All bodies of a source are placed among its tokens. -/
theorem sourceUnit_places (lined : layout.IsLined) {unit : SourceUnit}
    (ready : layout.Ready exact parser) (ran : sourceUnit room parser = .ok unit later)
    (calm : exact → later.Clean) : ∀ body ∈ unit.bodies, body.IsPlaced layout exact :=
  ((sourceUnit_adds (bodyWith_places lined) room [] ran ready).2 calm).2 nofun

end Body

end Grammar

end ServiceLang
