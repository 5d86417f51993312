import ServiceLang.Proofs.Pointing

set_option autoImplicit false

/-! Merging more than two spans. What comes out reaches from the first start to the last stop and
lies where the first of the spans does, in whatever order and with whatever brackets they are
merged. This needs only that spans which start together agree on the line and the column there,
as those of one source do. -/

namespace ServiceLang

namespace Span

/-- Spans that start together start on the same line and column. -/
def StartsAgree (spans : List Span) : Prop :=
  ∀ left ∈ spans, ∀ right ∈ spans, left.start = right.start →
    left.line = right.line ∧ left.column = right.column

instance (spans : List Span) : Decidable (StartsAgree spans) :=
  inferInstanceAs (Decidable (∀ left ∈ spans, ∀ right ∈ spans, _ → _))

/-- A source has one line and column for each offset. -/
theorem startsAgree_of_fitsIn {source : String} {spans : List Span}
    (fit : ∀ span ∈ spans, span.FitsIn source) : StartsAgree spans := by
  intro left member right memberToo same
  obtain ⟨front, back, whole, start, line, column⟩ := (fit left member).place
  obtain ⟨other, behind, wholeToo, startToo, lineToo, columnToo⟩ := (fit right memberToo).place
  obtain rfl : front = other := eq_of_utf8Len_eq ⟨back, whole.symm⟩ ⟨behind, wholeToo.symm⟩
    (start.symm.trans (same.trans startToo))
  exact ⟨line.trans lineToo.symm, column.trans columnToo.symm⟩

/-! ### The hull of some spans -/

/-- The span starts as the first of these spans does, and stops where the last of them stops. -/
structure IsHull (spans : List Span) (whole : Span) : Prop where
  starts : ∃ span ∈ spans, (∀ other ∈ spans, span.start ≤ other.start) ∧
    whole.start = span.start ∧ whole.line = span.line ∧ whole.column = span.column
  stops : ∃ span ∈ spans, (∀ other ∈ spans, other.stop ≤ span.stop) ∧ whole.stop = span.stop

namespace IsHull

variable {spans others : List Span} {whole other : Span}

theorem single (span : Span) : IsHull [span] span where
  starts := ⟨span, List.mem_cons_self, by simp, rfl, rfl, rfl⟩
  stops := ⟨span, List.mem_cons_self, by simp, rfl⟩

/-- The merge of two hulls starts as one of them does: as the left one does, unless the right one
comes first. -/
theorem merge (here : IsHull spans whole) (there : IsHull others other) :
    IsHull (spans ++ others) (whole.merge other) := by
  obtain ⟨first, inside, least, start, line, column⟩ := here.starts
  obtain ⟨firstToo, insideToo, leastToo, startToo, lineToo, columnToo⟩ := there.starts
  obtain ⟨last, lastInside, greatest, stop⟩ := here.stops
  obtain ⟨lastToo, lastInsideToo, greatestToo, stopToo⟩ := there.stops
  constructor
  · rw [Span.merge]
    split
    · rename_i before
      rw [start, startToo] at before
      exact ⟨first, List.mem_append_left _ inside, List.forall_mem_append.mpr
        ⟨least, fun span member => before.trans (leastToo span member)⟩, start, line, column⟩
    · rename_i after
      rw [start, startToo, not_le] at after
      exact ⟨firstToo, List.mem_append_right _ insideToo, List.forall_mem_append.mpr
        ⟨fun span member => after.le.trans (least span member), leastToo⟩, startToo, lineToo,
        columnToo⟩
  · rw [merge_stop, stop, stopToo]
    rcases Nat.le_total last.stop lastToo.stop with shorter | longer
    · exact ⟨lastToo, List.mem_append_right _ lastInsideToo, List.forall_mem_append.mpr
        ⟨fun span member => (greatest span member).trans shorter, greatestToo⟩,
        Nat.max_eq_right shorter⟩
    · exact ⟨last, List.mem_append_left _ lastInside, List.forall_mem_append.mpr
        ⟨greatest, fun span member => (greatestToo span member).trans longer⟩,
        Nat.max_eq_left longer⟩

/-- Merging one span after the other to a hull keeps it one. -/
theorem foldl (here : IsHull spans whole) (more : List Span) :
    IsHull (spans ++ more) (more.foldl Span.merge whole) := by
  induction more generalizing spans whole with
  | nil =>
      rw [List.append_nil]
      exact here
  | cons next more ih =>
      rw [List.append_cons, List.foldl_cons]
      exact ih (here.merge (single next))

/-- Only which spans there are counts, not how they are listed. -/
theorem congr (hull : IsHull spans whole) (same : ∀ span, span ∈ spans ↔ span ∈ others) :
    IsHull others whole := by
  obtain ⟨first, inside, least, start⟩ := hull.starts
  obtain ⟨last, lastInside, greatest, stop⟩ := hull.stops
  exact ⟨⟨first, (same first).mp inside, fun span member => least span ((same span).mpr member),
      start⟩,
    ⟨last, (same last).mp lastInside, fun span member => greatest span ((same span).mpr member),
      stop⟩⟩

/-- Two spans that start first start together, so that spans which agree have one hull. -/
theorem unique (hull : IsHull spans whole) (hullToo : IsHull spans other)
    (agree : StartsAgree spans) : whole = other := by
  obtain ⟨first, inside, least, start, line, column⟩ := hull.starts
  obtain ⟨firstToo, insideToo, leastToo, startToo, lineToo, columnToo⟩ := hullToo.starts
  obtain ⟨last, lastInside, greatest, stop⟩ := hull.stops
  obtain ⟨lastToo, lastInsideToo, greatestToo, stopToo⟩ := hullToo.stops
  have sameStart : first.start = firstToo.start :=
    Nat.le_antisymm (least firstToo insideToo) (leastToo first inside)
  have sameStop : last.stop = lastToo.stop :=
    Nat.le_antisymm (greatestToo last lastInside) (greatest lastToo lastInsideToo)
  obtain ⟨sameLine, sameColumn⟩ := agree first inside firstToo insideToo sameStart
  calc whole = ⟨first.start, last.stop, first.line, first.column⟩ := by
        rw [← start, ← stop, ← line, ← column]
    _ = ⟨firstToo.start, lastToo.stop, firstToo.line, firstToo.column⟩ := by
        rw [sameStart, sameStop, sameLine, sameColumn]
    _ = other := by
        rw [← startToo, ← stopToo, ← lineToo, ← columnToo]

theorem contains (hull : IsHull spans whole) {span : Span} (member : span ∈ spans) :
    whole.contains span = true := by
  obtain ⟨first, -, least, start, -⟩ := hull.starts
  obtain ⟨last, -, greatest, stop⟩ := hull.stops
  rw [Span.contains, Bool.and_eq_true, decide_eq_true_eq, decide_eq_true_eq, start, stop]
  exact ⟨least span member, greatest span member⟩

theorem contained (hull : IsHull spans whole) {outer : Span}
    (holds : ∀ span ∈ spans, outer.contains span = true) : outer.contains whole = true := by
  simp only [Span.contains, Bool.and_eq_true, decide_eq_true_eq] at holds ⊢
  obtain ⟨first, inside, -, start, -⟩ := hull.starts
  obtain ⟨last, lastInside, -, stop⟩ := hull.stops
  rw [start, stop]
  exact ⟨(holds first inside).1, (holds last lastInside).2⟩

end IsHull

/-! ### Brackets -/

inductive Bracketing where
  | single (span : Span)
  | pair (left right : Bracketing)

namespace Bracketing

def spans : Bracketing → List Span
  | single span => [span]
  | pair left right => left.spans ++ right.spans

def merged : Bracketing → Span
  | single span => span
  | pair left right => left.merged.merge right.merged

theorem isHull (brackets : Bracketing) : IsHull brackets.spans brackets.merged := by
  induction brackets with
  | single span => exact .single span
  | pair left right here there => exact here.merge there

end Bracketing

/-- Merging a list of spans gives the same whatever the order and the brackets. It is the smallest
span over all of them, and lies where one of those does that start first. -/
theorem foldl_merge_unordered {first : Span} {rest : List Span}
    (agree : StartsAgree (first :: rest)) :
    let whole := rest.foldl merge first
    (∀ other others, (other :: others).Perm (first :: rest) → others.foldl merge other = whole) ∧
    (∀ brackets : Bracketing, brackets.spans.Perm (first :: rest) → brackets.merged = whole) ∧
    (∀ span ∈ first :: rest, whole.contains span = true) ∧
    (∀ outer : Span, (∀ span ∈ first :: rest, outer.contains span = true) →
      outer.contains whole = true) ∧
    ∃ span ∈ first :: rest, (∀ other ∈ first :: rest, span.start ≤ other.start) ∧
      whole.line = span.line ∧ whole.column = span.column := by
  have hull : IsHull (first :: rest) (rest.foldl merge first) := (IsHull.single first).foldl rest
  -- Any way to merge them gives a hull of the spans, and there is one hull only.
  refine ⟨fun other others reordered => ?_, fun brackets reordered => ?_,
    fun span => hull.contains, fun outer => hull.contained, ?_⟩
  · have hullToo := ((IsHull.single other).foldl others).congr fun _ => reordered.mem_iff
    exact hullToo.unique hull agree
  · exact (brackets.isHull.congr fun _ => reordered.mem_iff).unique hull agree
  · obtain ⟨span, inside, least, -, place⟩ := hull.starts
    exact ⟨span, inside, least, place⟩

/-- Of the spans of `x + y;`, the sum and its left operand start together. -/
theorem foldl_merge_unordered_sum :
    StartsAgree [⟨4, 5, 1, 5⟩, ⟨0, 5, 1, 1⟩, ⟨0, 1, 1, 1⟩, ⟨5, 6, 1, 6⟩] ∧
    (Bracketing.pair (.pair (.single ⟨5, 6, 1, 6⟩) (.single ⟨0, 1, 1, 1⟩))
      (.pair (.single ⟨4, 5, 1, 5⟩) (.single ⟨0, 5, 1, 1⟩))).merged = ⟨0, 6, 1, 1⟩ := by
  have agree : StartsAgree [⟨4, 5, 1, 5⟩, ⟨0, 5, 1, 1⟩, ⟨0, 1, 1, 1⟩, ⟨5, 6, 1, 6⟩] := by decide
  exact ⟨agree, (foldl_merge_unordered agree).2.1 _ (by decide)⟩

end Span

end ServiceLang
