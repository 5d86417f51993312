set_option autoImplicit false

/-! Byte ranges of a source text. A span remembers the line and column where it
starts; only the byte range takes part in merging and containment. -/

namespace ServiceLang

/-- The bytes `start ≤ i < stop` of a source. Lines and columns count from one,
columns in bytes. -/
structure Span where
  start : Nat
  stop : Nat
  line : Nat
  column : Nat
deriving DecidableEq, Repr, Inhabited

namespace Span

def point (offset line column : Nat) : Span :=
  ⟨offset, offset, line, column⟩

/-- The span of something that stands in no source. -/
def nowhere : Span :=
  point 0 0 0

def isEmpty (span : Span) : Bool :=
  span.start == span.stop

def length (span : Span) : Nat :=
  span.stop - span.start

/-- The empty span just behind this one, on the line where this one starts. -/
def after (span : Span) : Span :=
  ⟨span.stop, span.stop, span.line, span.column + span.length⟩

/-- The smallest span over both. Line and column come from the one that starts
first, and from the left one when both start together. -/
def merge (left right : Span) : Span :=
  let first := if left.start ≤ right.start then left else right
  ⟨first.start, max left.stop right.stop, first.line, first.column⟩

/-- Whether `inner` lies within `outer`, judged by bytes. -/
def contains (outer inner : Span) : Bool :=
  outer.start ≤ inner.start && inner.stop ≤ outer.stop

/-- A span is shown to a reader by its start, as `line:column`. -/
def text (span : Span) : String :=
  toString span.line ++ ":" ++ toString span.column

theorem merge_start (left right : Span) :
    (left.merge right).start = min left.start right.start := by
  simp only [merge]
  split <;> omega

theorem merge_stop (left right : Span) :
    (left.merge right).stop = max left.stop right.stop :=
  rfl

end Span

end ServiceLang
