import ServiceLang.Span

set_option autoImplicit false

/-! Places in a source text, and the span that a run of characters covers. -/

namespace ServiceLang

/-- A place between two characters: bytes before it, line and column, both
counted from one, columns in bytes. -/
structure Place where
  offset : Nat
  line : Nat
  column : Nat
deriving DecidableEq, Repr

namespace Place

def start : Place :=
  ⟨0, 1, 1⟩

/-- The place behind one more character. Only a newline starts a line. -/
def next (place : Place) (char : Char) : Place :=
  if char = '\n' then ⟨place.offset + 1, place.line + 1, 1⟩
  else ⟨place.offset + char.utf8Size, place.line, place.column + char.utf8Size⟩

def past (place : Place) (chars : List Char) : Place :=
  chars.foldl next place

def span (place : Place) (chars : List Char) : Span :=
  ⟨place.offset, (place.past chars).offset, place.line, place.column⟩

theorem past_append (place : Place) (front back : List Char) :
    place.past (front ++ back) = (place.past front).past back := by
  simp [past]

end Place

end ServiceLang
