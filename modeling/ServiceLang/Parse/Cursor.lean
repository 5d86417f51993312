import ServiceLang.Token

set_option autoImplicit false

/-! A place in a list of tokens. Comments stand beside the token that follows
them, so that looking ahead never meets one; invalid tokens are left out; and
behind the last token there is always an end of file, and only there. -/

namespace ServiceLang

/-- A token with the comments right before it. -/
structure Slot where
  token : Token
  comments : List Token
deriving DecidableEq, Repr

namespace Slot

/-- The slots of a token list up to its end of file, and the slot of that end.
The comments in `pending` go to the first slot. A list without an end gets
one. -/
def ofTokens (pending : List Token) : List Token → List Slot × Slot
  | [] => ([], ⟨.missingEnd, pending⟩)
  | token :: rest =>
      match token.kind with
      | .endOfFile => ([], ⟨token, pending⟩)
      | .comment => ofTokens (pending ++ [token]) rest
      | .invalid => ofTokens pending rest
      | _ =>
          let (slots, final) := ofTokens [] rest
          (⟨token, pending⟩ :: slots, final)

theorem ofTokens_kinds (pending tokens : List Token) :
    (∀ slot ∈ (ofTokens pending tokens).1, slot.token.kind ≠ .endOfFile) ∧
      (ofTokens pending tokens).2.token.kind = .endOfFile := by
  fun_induction ofTokens pending tokens with
  | case1 => simp [Token.missingEnd]
  | case2 pending token rest kind => simp [kind]
  | case3 pending token rest kind ih => exact ih
  | case4 pending token rest kind ih => exact ih
  | case5 pending token rest slots final cut notEnd notComment notInvalid ih =>
      rw [cut] at ih
      refine ⟨?_, ih.2⟩
      intro slot member
      rcases List.mem_cons.mp member with rfl | member
      · exact notEnd
      · exact ih.1 slot member

end Slot

@[ext] structure Cursor where
  /-- The token consumed last. -/
  previous : Option Token
  /-- The comments before the current token that have not been taken. -/
  comments : List Token
  /-- The current token and those behind it. -/
  ahead : List Slot
  final : Slot
  endOnlyFinal : ∀ slot ∈ ahead, slot.token.kind ≠ .endOfFile
  final_isEnd : final.token.kind = .endOfFile

namespace Cursor

def ofTokens (tokens : List Token) : Cursor :=
  let cut := Slot.ofTokens [] tokens
  { previous := none
    comments := (cut.1.head?.getD cut.2).comments
    ahead := cut.1
    final := cut.2
    endOnlyFinal := (Slot.ofTokens_kinds [] tokens).1
    final_isEnd := (Slot.ofTokens_kinds [] tokens).2 }

/-- The number of tokens ahead, without the end of file. -/
def remaining (cursor : Cursor) : Nat :=
  cursor.ahead.length

/-- The token that stands `count` tokens behind the current one; the end of file
when there are not so many. -/
def peekNth (cursor : Cursor) (count : Nat) : Token :=
  (cursor.ahead[count]?.getD cursor.final).token

def peek (cursor : Cursor) : Token :=
  (cursor.ahead.head?.getD cursor.final).token

def kinds (cursor : Cursor) : List Kind :=
  cursor.ahead.map (fun slot => slot.token.kind)

/-- The token consumed last, or the current one at the very start. -/
def previousToken (cursor : Cursor) : Token :=
  cursor.previous.getD cursor.peek

/-- Step over the current token. The end of file is never stepped over. -/
def advance (cursor : Cursor) : Cursor :=
  match split : cursor.ahead with
  | [] => cursor
  | slot :: rest =>
      { cursor with
        previous := some slot.token
        comments := (rest.head?.getD cursor.final).comments
        ahead := rest
        endOnlyFinal := fun other member =>
          cursor.endOnlyFinal other (split ▸ List.mem_cons_of_mem slot member) }

def advanceBy (cursor : Cursor) : Nat → Cursor
  | 0 => cursor
  | count + 1 => cursor.advance.advanceBy count

def consumedSince (cursor start : Cursor) : List Token :=
  (start.ahead.take (start.remaining - cursor.remaining)).map Slot.token

def spanFrom (cursor : Cursor) (start : Span) : Span :=
  match cursor.previous with
  | some token => start.merge token.span
  | none => start

theorem ahead_advance (cursor : Cursor) : cursor.advance.ahead = cursor.ahead.tail := by
  simp only [advance]
  split
  · rename_i split
    simp [split]
  · rename_i split
    simp [split]

theorem final_advance (cursor : Cursor) : cursor.advance.final = cursor.final := by
  simp only [advance]
  split <;> rfl

theorem peekNth_advance (cursor : Cursor) (count : Nat) :
    cursor.advance.peekNth count = cursor.peekNth (count + 1) := by
  rw [peekNth, peekNth, ahead_advance, final_advance, List.getElem?_tail]

theorem peek_eq_peekNth (cursor : Cursor) : cursor.peek = cursor.peekNth 0 := by
  rw [peek, peekNth, List.head?_eq_getElem?]

theorem peek_advance (cursor : Cursor) : cursor.advance.peek = cursor.peekNth 1 := by
  rw [peek_eq_peekNth, peekNth_advance]

theorem previous_advance (cursor : Cursor) (more : cursor.ahead ≠ []) :
    cursor.advance.previous = some cursor.peek := by
  simp only [advance, peek]
  split
  · contradiction
  · rename_i split
    simp [split]

theorem comments_advance (cursor : Cursor) (more : cursor.ahead ≠ []) :
    cursor.advance.comments = (cursor.ahead.tail.head?.getD cursor.final).comments := by
  simp only [advance]
  split
  · contradiction
  · rename_i split
    simp [split]

theorem remaining_advance (cursor : Cursor) :
    cursor.advance.remaining = cursor.remaining - 1 := by
  rw [remaining, ahead_advance, List.length_tail, remaining]

theorem advance_of_remaining_zero (cursor : Cursor) (empty : cursor.remaining = 0) :
    cursor.advance = cursor := by
  have nothing : cursor.ahead = [] := List.length_eq_zero_iff.mp empty
  simp only [advance]
  split
  · rfl
  · rename_i split
    rw [nothing] at split
    cases split

theorem advanceBy_add (cursor : Cursor) (first second : Nat) :
    cursor.advanceBy (first + second) = (cursor.advanceBy first).advanceBy second := by
  induction first generalizing cursor with
  | zero => rw [Nat.zero_add]; rfl
  | succ first ih => rw [Nat.succ_add, advanceBy, advanceBy, ih]

theorem ahead_advanceBy (cursor : Cursor) (count : Nat) :
    (cursor.advanceBy count).ahead = cursor.ahead.drop count := by
  induction count generalizing cursor with
  | zero => rfl
  | succ count ih => rw [advanceBy, ih, ahead_advance, List.drop_tail]

theorem previous_advanceBy (cursor : Cursor) {count : Nat} (more : count < cursor.remaining) :
    (cursor.advanceBy (count + 1)).previous = cursor.ahead[count]?.map Slot.token := by
  induction count generalizing cursor with
  | zero =>
      have nonempty : cursor.ahead ≠ [] := List.length_pos_iff.mp more
      obtain ⟨slot, rest, split⟩ := List.exists_cons_of_ne_nil nonempty
      change cursor.advance.previous = _
      rw [previous_advance cursor nonempty, peek, split]
      rfl
  | succ count ih =>
      have less : count < cursor.advance.remaining := by
        rw [remaining, ahead_advance, List.length_tail]
        rw [remaining] at more
        omega
      rw [advanceBy, ih cursor.advance less, ahead_advance, List.getElem?_tail]

theorem remaining_advanceBy (cursor : Cursor) (count : Nat) :
    (cursor.advanceBy count).remaining = cursor.remaining - count := by
  rw [remaining, ahead_advanceBy, List.length_drop, remaining]

/-- A token that is passed over is one of those that stood ahead. -/
theorem kind_mem_take (cursor : Cursor) {passed count : Nat} (less : passed < count)
    (more : 0 < (cursor.advanceBy passed).remaining) :
    (cursor.advanceBy passed).peek.kind ∈ cursor.kinds.take count := by
  rw [remaining_advanceBy] at more
  have inside : passed < cursor.ahead.length := by
    rw [remaining] at more
    omega
  rw [peek, ahead_advanceBy, List.head?_drop, List.getElem?_eq_getElem inside]
  rw [kinds, ← List.map_take]
  refine List.mem_map_of_mem (List.mem_take_iff_getElem.mpr ⟨passed, ?_, rfl⟩)
  omega

theorem peek_isEnd_iff (cursor : Cursor) :
    cursor.peek.kind = .endOfFile ↔ cursor.ahead = [] := by
  simp only [peek]
  constructor
  · intro atEnd
    match split : cursor.ahead with
    | [] => rfl
    | slot :: rest =>
        rw [split] at atEnd
        exact absurd atEnd (cursor.endOnlyFinal slot (split ▸ List.mem_cons_self))
  · intro empty
    rw [empty]
    exact cursor.final_isEnd

theorem remaining_pos (cursor : Cursor) (more : cursor.peek.kind ≠ .endOfFile) :
    0 < cursor.remaining :=
  List.length_pos_iff.mpr fun empty => more (cursor.peek_isEnd_iff.mpr empty)

theorem kind_peekNth (cursor : Cursor) (count : Nat) :
    (cursor.peekNth count).kind = cursor.kinds[count]?.getD .endOfFile := by
  rw [peekNth, kinds, List.getElem?_map]
  cases cursor.ahead[count]? with
  | none => exact cursor.final_isEnd
  | some slot => rfl

theorem kinds_advance (cursor : Cursor) : cursor.advance.kinds = cursor.kinds.tail := by
  rw [kinds, kinds, ahead_advance, List.map_tail]

theorem kinds_advanceBy (cursor : Cursor) (count : Nat) :
    (cursor.advanceBy count).kinds = cursor.kinds.drop count := by
  rw [kinds, kinds, ahead_advanceBy, List.map_drop]

theorem kind_previousToken_advanceBy (cursor : Cursor) {count : Nat}
    (more : count < cursor.remaining) :
    some (cursor.advanceBy (count + 1)).previousToken.kind = cursor.kinds[count]? := by
  rw [previousToken, previous_advanceBy cursor more, kinds, List.getElem?_map,
    List.getElem?_eq_getElem more]
  rfl

theorem kind_peek (cursor : Cursor) : cursor.peek.kind = cursor.kinds.head?.getD .endOfFile := by
  rw [peek_eq_peekNth, kind_peekNth, List.head?_eq_getElem?]

end Cursor

end ServiceLang
