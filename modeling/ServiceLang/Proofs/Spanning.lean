import ServiceLang.Proofs.OrderlyDefinition
import ServiceLang.Proofs.Place
import ServiceLang.Tree.Nesting

set_option autoImplicit false

/-! Where the nodes of a tree stand among the tokens of its source. A node goes from one
token to another one, and what is below it goes over tokens in between. -/

namespace ServiceLang

/-- The tokens of a source with the end of file as the last one. They stand one behind the
other, and only the end of file may be empty. Whatever fits their spans fits the spans that
are merged from them. -/
structure Layout where
  buffer : List Slot
  fits : Span → Prop
  apart : buffer.Pairwise fun left right => left.token.span.stop ≤ right.token.span.start
  proper : ∀ (index : Nat) (inside : index + 1 < buffer.length),
    buffer[index].token.span.start < buffer[index].token.span.stop
  sound : ∀ slot ∈ buffer, slot.token.span.start ≤ slot.token.span.stop
  comments : ∀ slot ∈ buffer, ∀ comment ∈ slot.comments,
    comment.span.start < comment.span.stop ∧ fits comment.span
  fits_token : ∀ slot ∈ buffer, fits slot.token.span
  fits_merge : ∀ left right, fits left → fits right → fits (left.merge right)

namespace Layout

variable (layout : Layout)

def startAt (index : Nat) : Nat :=
  (layout.buffer[index]?.map fun slot => slot.token.span.start).getD 0

def stopAt (index : Nat) : Nat :=
  (layout.buffer[index]?.map fun slot => slot.token.span.stop).getD 0

structure Over (first behind : Nat) (span : Span) : Prop where
  less : first < behind
  inside : behind < layout.buffer.length
  start : span.start = layout.startAt first
  stop : span.stop = layout.stopAt (behind - 1)
  fits : layout.fits span

/-- The span of a node fits, or the node is the mark of a token that was only assumed, right
behind another token. -/
def Holds (node : Outline) : Prop :=
  layout.fits node.span ∨
    node.isAssumed = true ∧ ∃ slot ∈ layout.buffer, node.span = slot.token.span.after

/-- A node over these tokens, below which spans nest. -/
structure Covers (first behind : Nat) (outline : Outline) : Prop where
  placed : layout.Over first behind outline.span
  nests : outline.Nests
  each : ∀ node ∈ outline.nodes, layout.Holds node

/-- Nodes one behind the other, within these tokens. -/
def Row : Nat → Nat → List Outline → Prop
  | first, behind, [] => first ≤ behind
  | first, behind, outline :: rest =>
      ∃ start stop, first ≤ start ∧ layout.Covers start stop outline ∧ Row stop behind rest

theorem startAt_lt_stopAt (index : Nat) (inside : index + 1 < layout.buffer.length) :
    layout.startAt index < layout.stopAt index := by
  have here : index < layout.buffer.length := by omega
  rw [startAt, stopAt, List.getElem?_eq_getElem here]
  exact layout.proper index inside

theorem startAt_le_stopAt (index : Nat) (inside : index < layout.buffer.length) :
    layout.startAt index ≤ layout.stopAt index := by
  rw [startAt, stopAt, List.getElem?_eq_getElem inside]
  exact layout.sound _ (List.getElem_mem inside)

theorem stopAt_le_startAt (left right : Nat) (before : left < right)
    (inside : right < layout.buffer.length) : layout.stopAt left ≤ layout.startAt right := by
  have insideLeft : left < layout.buffer.length := by omega
  rw [stopAt, startAt, List.getElem?_eq_getElem insideLeft, List.getElem?_eq_getElem inside]
  exact List.pairwise_iff_getElem.mp layout.apart left right insideLeft inside before

theorem startAt_mono (left right : Nat) (before : left ≤ right)
    (inside : right < layout.buffer.length) : layout.startAt left ≤ layout.startAt right := by
  rcases Nat.lt_or_eq_of_le before with less | rfl
  · have first := layout.startAt_lt_stopAt left (by omega)
    have second := layout.stopAt_le_startAt left right less inside
    omega
  · exact Nat.le_refl _

theorem stopAt_mono (left right : Nat) (before : left ≤ right)
    (inside : right + 1 < layout.buffer.length) : layout.stopAt left ≤ layout.stopAt right := by
  rcases Nat.lt_or_eq_of_le before with less | rfl
  · have first := layout.stopAt_le_startAt left right less (by omega)
    have second := layout.startAt_lt_stopAt right inside
    omega
  · exact Nat.le_refl _

theorem eq_of_stopAt_eq (left right : Nat) (inside : left + 1 < layout.buffer.length)
    (insideRight : right + 1 < layout.buffer.length)
    (same : layout.stopAt left = layout.stopAt right) : left = right := by
  have less (first second : Nat) (before : first < second)
      (inside : second + 1 < layout.buffer.length) : layout.stopAt first < layout.stopAt second :=
    Nat.lt_of_le_of_lt (layout.stopAt_le_startAt first second before (by omega))
      (layout.startAt_lt_stopAt second inside)
  rcases Nat.lt_trichotomy left right with before | here | behind
  · exact absurd same (Nat.ne_of_lt (less left right before insideRight))
  · exact here
  · exact absurd same.symm (Nat.ne_of_lt (less right left behind inside))

variable {layout}

namespace Over

variable {first behind start stop : Nat} {span other : Span}

theorem proper (placed : layout.Over first behind span) : span.start < span.stop := by
  obtain ⟨less, inside, isStart, isStop⟩ := placed
  have here := layout.startAt_lt_stopAt first (by omega)
  have later := layout.stopAt_mono first (behind - 1) (by omega) (by omega)
  omega

theorem contains (placed : layout.Over first behind span) (inner : layout.Over start stop other)
    (starts : first ≤ start) (upTo : stop ≤ behind) : span.contains other = true := by
  obtain ⟨less, inside, isStart, isStop⟩ := placed
  obtain ⟨lessInner, insideInner, isStartInner, isStopInner⟩ := inner
  have starts := layout.startAt_mono first start starts (by omega)
  have stops := layout.stopAt_mono (stop - 1) (behind - 1) (by omega) (by omega)
  rw [Span.contains, Bool.and_eq_true, decide_eq_true_eq, decide_eq_true_eq]
  omega

theorem before (placed : layout.Over first behind span) (next : layout.Over start stop other)
    (order : behind ≤ start) : span.stop ≤ other.start := by
  obtain ⟨less, inside, isStart, isStop⟩ := placed
  obtain ⟨lessNext, insideNext, isStartNext, isStopNext⟩ := next
  have apart := layout.stopAt_le_startAt (behind - 1) start (by omega) (by omega)
  omega

theorem merge (placed : layout.Over first behind span) (next : layout.Over start stop other)
    (starts : first ≤ start) (upTo : behind ≤ stop) :
    layout.Over first stop (span.merge other) := by
  obtain ⟨less, inside, isStart, isStop, fits⟩ := placed
  obtain ⟨lessNext, insideNext, isStartNext, isStopNext, fitsNext⟩ := next
  have starts := layout.startAt_mono first start starts (by omega)
  have stops := layout.stopAt_mono (behind - 1) (stop - 1) (by omega) (by omega)
  constructor
  · omega
  · exact insideNext
  · rw [Span.merge_start]
    omega
  · rw [Span.merge_stop]
    omega
  · exact layout.fits_merge _ _ fits fitsNext

theorem previous {cursor : Cursor} {index : Nat} (place : cursor.At layout.buffer index)
    (more : 0 < index) :
    ∃ slot ∈ layout.buffer, cursor.previous = some slot.token ∧
      layout.Over (index - 1) index slot.token.span := by
  have inside := place.inside
  have here : index - 1 < layout.buffer.length := by omega
  have isPrevious := place.previous
  rw [List.getLast?_take, if_neg (by omega), List.getElem?_eq_getElem here] at isPrevious
  have member := List.getElem_mem here
  refine ⟨_, member, isPrevious, by omega, inside, ?_, ?_, layout.fits_token _ member⟩
  · rw [startAt, List.getElem?_eq_getElem here]
    rfl
  · rw [stopAt, List.getElem?_eq_getElem here]
    rfl

theorem after {cursor : Cursor} {index : Nat} (placed : layout.Over first behind span)
    (place : cursor.At layout.buffer index) (upTo : behind ≤ index) :
    layout.Over first index (cursor.spanFrom span) := by
  have less := placed.less
  obtain ⟨slot, -, isPrevious, last⟩ := previous place (by omega)
  rw [Cursor.spanFrom, isPrevious]
  exact placed.merge last (by omega) upTo

end Over

/-! ### Rows -/

namespace Row

variable {first behind middle start stop : Nat} {outline : Outline} {row others : List Outline}

theorem nil (order : first ≤ behind) : layout.Row first behind [] :=
  order

theorem cons (covers : layout.Covers start stop outline) (starts : first ≤ start)
    (rest : layout.Row stop behind row) : layout.Row first behind (outline :: row) :=
  ⟨start, stop, starts, covers, rest⟩

theorem le (isRow : layout.Row first behind row) : first ≤ behind := by
  induction row generalizing first with
  | nil => exact isRow
  | cons outline rest ih =>
      obtain ⟨start, stop, starts, covers, others⟩ := isRow
      have less := covers.placed.less
      have upTo := ih others
      omega

theorem wider {first' behind' : Nat} (isRow : layout.Row first behind row) (starts : first' ≤ first)
    (upTo : behind ≤ behind') : layout.Row first' behind' row := by
  induction row generalizing first first' with
  | nil =>
      have order : first ≤ behind := isRow
      exact nil (by omega)
  | cons outline rest ih =>
      obtain ⟨start, stop, starts, covers, others⟩ := isRow
      exact cons covers (by omega) (ih others (Nat.le_refl _))

theorem append (isRow : layout.Row first middle row) (rest : layout.Row middle behind others) :
    layout.Row first behind (row ++ others) := by
  induction row generalizing first with
  | nil =>
      have order : first ≤ middle := isRow
      exact rest.wider order (Nat.le_refl _)
  | cons outline row ih =>
      obtain ⟨start, stop, starts, covers, more⟩ := isRow
      exact cons covers starts (ih more)

theorem single (covers : layout.Covers start stop outline) (starts : first ≤ start)
    (upTo : stop ≤ behind) : layout.Row first behind [outline] :=
  cons covers starts (nil upTo)

theorem sublist (isRow : layout.Row first behind row) (kept : others.Sublist row) :
    layout.Row first behind others := by
  induction kept generalizing first with
  | slnil => exact isRow
  | cons outline kept ih =>
      obtain ⟨start, stop, starts, covers, rest⟩ := isRow
      have less := covers.placed.less
      exact (ih rest).wider (by omega) (Nat.le_refl _)
  | cons_cons outline kept ih =>
      obtain ⟨start, stop, starts, covers, rest⟩ := isRow
      exact cons covers starts (ih rest)

theorem covers_of_mem (isRow : layout.Row first behind row) (member : outline ∈ row) :
    ∃ start stop, first ≤ start ∧ stop ≤ behind ∧ layout.Covers start stop outline := by
  induction row generalizing first with
  | nil => cases member
  | cons head rest ih =>
      obtain ⟨start, stop, starts, covers, others⟩ := isRow
      have less := covers.placed.less
      rcases List.mem_cons.mp member with rfl | member
      · exact ⟨start, stop, starts, le others, covers⟩
      · obtain ⟨start', stop', from', upTo, covers'⟩ := ih others member
        exact ⟨start', stop', by omega, upTo, covers'⟩

theorem pairwise (isRow : layout.Row first behind row) : row.Pairwise Outline.Before := by
  induction row generalizing first with
  | nil => exact List.Pairwise.nil
  | cons head rest ih =>
      obtain ⟨start, stop, -, covers, others⟩ := isRow
      apply List.Pairwise.cons _ (ih others)
      intro outline member
      obtain ⟨start', stop', from', -, covers'⟩ := covers_of_mem others member
      exact covers.placed.before covers'.placed from'

end Row

/-! ### Nodes -/

/-- Nodes within these tokens. Those in one role stand one behind the other, comments apart. -/
structure Gathers (layout : Layout) (first behind : Nat) (outlines : List Outline) : Prop where
  nests : ∀ child ∈ outlines, child.Nests
  within : ∀ child ∈ outlines, child.isComment = false →
    layout.startAt first ≤ child.span.start ∧ child.span.stop ≤ layout.stopAt (behind - 1)
  apart : ∀ role, (Outline.inRole role outlines).Pairwise Outline.Before
  each : ∀ child ∈ outlines, ∀ node ∈ child.nodes, layout.Holds node

namespace Gathers

variable {first behind : Nat} {outlines others : List Outline}

theorem of_row (isRow : layout.Row first behind outlines)
    (inside : behind < layout.buffer.length) : layout.Gathers first behind outlines := by
  constructor
  · intro child member
    obtain ⟨start, stop, -, -, covers⟩ := isRow.covers_of_mem member
    exact covers.nests
  · intro child member _
    obtain ⟨start, stop, starts, upTo, covers⟩ := isRow.covers_of_mem member
    obtain ⟨less, insideStop, isStart, isStop⟩ := covers.placed
    rw [isStart, isStop]
    exact ⟨layout.startAt_mono first start starts (by omega),
      layout.stopAt_mono (stop - 1) (behind - 1) (by omega) (by omega)⟩
  · intro role
    exact isRow.pairwise.sublist List.filter_sublist
  · intro child member
    obtain ⟨start, stop, -, -, covers⟩ := isRow.covers_of_mem member
    exact covers.each

theorem append (here : layout.Gathers first behind outlines)
    (there : layout.Gathers first behind others)
    (disjoint : ∀ left ∈ outlines, ∀ right ∈ others, left.role ≠ right.role) :
    layout.Gathers first behind (outlines ++ others) := by
  constructor
  · intro child member
    exact (List.mem_append.mp member).elim (here.nests child) (there.nests child)
  · intro child member
    exact (List.mem_append.mp member).elim (here.within child) (there.within child)
  · intro role
    rw [Outline.inRole_append, List.pairwise_append]
    refine ⟨here.apart role, there.apart role, fun left isLeft right isRight => ?_⟩
    have same := (Outline.role_of_mem_inRole isLeft).trans (Outline.role_of_mem_inRole isRight).symm
    exact absurd same
      (disjoint left (List.mem_filter.mp isLeft).1 right (List.mem_filter.mp isRight).1)
  · intro child member
    exact (List.mem_append.mp member).elim (here.each child) (there.each child)

/-- The mark of a token that was only assumed lies just behind the last token. -/
theorem assumed {index : Nat} {role : String} {slot : Slot} (member : slot ∈ layout.buffer)
    (last : layout.Over (index - 1) index slot.token.span) (order : first < index) :
    layout.Gathers first index [TokenMarker.outline role ⟨slot.token.span.after, true⟩] := by
  have less := last.less
  have inside := last.inside
  have isStart := last.start
  have isStop := last.stop
  have proper := last.proper
  have starts := layout.startAt_mono first (index - 1) (by omega) (by omega)
  constructor
  · intro child member
    obtain rfl := List.mem_singleton.mp member
    exact .node (Nat.le_refl _) (fun _ => .inr ⟨rfl, rfl⟩) nofun (fun _ => List.Pairwise.nil) nofun
  · intro child member _
    obtain rfl := List.mem_singleton.mp member
    change layout.startAt first ≤ slot.token.span.stop ∧ slot.token.span.stop ≤ _
    omega
  · intro role
    exact (List.pairwise_singleton _ _).sublist List.filter_sublist
  · intro child isChild
    obtain rfl := List.mem_singleton.mp isChild
    exact Outline.forall_mem_nodes (.inr ⟨rfl, slot, member, rfl⟩) nofun

end Gathers

namespace Covers

variable {first behind : Nat} {span : Span} {below : List Outline}

theorem node {role kind : String} {data : List Datum} (placed : layout.Over first behind span)
    (gathers : layout.Gathers first behind below) :
    layout.Covers first behind (.node role kind span data below) := by
  refine ⟨placed, .node (Nat.le_of_lt placed.proper) (fun empty => ?_) ?_ gathers.apart gathers.nests,
    Outline.forall_mem_nodes (.inl placed.fits) gathers.each⟩
  · exact absurd empty (Nat.ne_of_lt placed.proper)
  · intro child member notComment
    obtain ⟨starts, upTo⟩ := gathers.within child member notComment
    rw [Span.contains, Bool.and_eq_true, decide_eq_true_eq, decide_eq_true_eq, placed.start, placed.stop]
    exact ⟨starts, upTo⟩

theorem of_row {role kind : String} {data : List Datum} (placed : layout.Over first behind span)
    (isRow : layout.Row first behind below) :
    layout.Covers first behind (.node role kind span data below) :=
  node placed (.of_row isRow placed.inside)

theorem leaf {role kind : String} {data : List Datum} (placed : layout.Over first behind span) :
    layout.Covers first behind (Outline.leaf role kind span data) :=
  of_row placed (Row.nil (Nat.le_of_lt placed.less))

end Covers

end Layout

end ServiceLang
