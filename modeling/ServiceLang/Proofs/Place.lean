import ServiceLang.Proofs.Orderly

set_option autoImplicit false

/-! Places in the buffer of a parse: the tokens of its list, without comments and
invalid ones, and the end of file behind them. -/

namespace ServiceLang

/-- The slots of a token list with the end of file as the last one. -/
def Slot.buffer (tokens : List Token) : List Slot :=
  (ofTokens [] tokens).1 ++ [(ofTokens [] tokens).2]

/-- The tokens of the slots are tokens of the list, in its order. -/
theorem Slot.ofTokens_sublist (pending tokens : List Token) :
    ((Slot.ofTokens pending tokens).1.map Slot.token).Sublist tokens := by
  fun_induction Slot.ofTokens pending tokens with
  | case1 => exact .slnil
  | case2 pending token rest isEnd => exact List.nil_sublist _
  | case3 pending token rest comment ih => exact ih.cons token
  | case4 pending token rest invalid ih => exact ih.cons token
  | case5 pending token rest slots final cut notEnd notComment notInvalid ih =>
      rw [cut] at ih
      exact ih.cons_cons token

namespace Cursor

/-- The cursor stands at an index of the buffer. -/
structure At (buffer : List Slot) (index : Nat) (cursor : Cursor) : Prop where
  rest : cursor.ahead ++ [cursor.final] = buffer.drop index
  previous : cursor.previous = (buffer.take index).getLast?.map Slot.token

namespace At

variable {buffer : List Slot} {index : Nat} {cursor : Cursor}

theorem length_eq (place : cursor.At buffer index) :
    buffer.length = index + cursor.remaining + 1 := by
  have lengths := congrArg List.length place.rest
  rw [List.length_append, List.length_drop, List.length_singleton] at lengths
  rw [remaining]
  omega

theorem inside (place : cursor.At buffer index) : index < buffer.length := by
  have lengths := place.length_eq
  omega

theorem peek (place : cursor.At buffer index) :
    buffer[index]?.map Slot.token = some cursor.peek := by
  rw [← List.head?_drop, ← place.rest, Cursor.peek]
  cases cursor.ahead <;> rfl

/-- The token before is the one before the index. At the start it is the current
one. -/
theorem previousToken (place : cursor.At buffer index) :
    buffer[index - 1]?.map Slot.token = some cursor.previousToken := by
  cases index with
  | zero =>
      rw [Cursor.previousToken, place.previous]
      exact place.peek
  | succ index =>
      have inside : index < buffer.length := Nat.lt_of_succ_lt place.inside
      rw [Cursor.previousToken, place.previous, List.getLast?_take, if_neg (by simp),
        Nat.add_sub_cancel, List.getElem?_eq_getElem inside]
      rfl

theorem advance (place : cursor.At buffer index) (more : 0 < cursor.remaining) :
    cursor.advance.At buffer (index + 1) := by
  have notEmpty : cursor.ahead ≠ [] := List.length_pos_iff.mp more
  refine ⟨?_, ?_⟩
  · rw [ahead_advance, final_advance, ← List.tail_append_of_ne_nil notEmpty, place.rest,
      List.tail_drop]
  · rw [previous_advance cursor notEmpty, List.getLast?_take, if_neg (by simp),
      Nat.add_sub_cancel, ← place.peek, List.getElem?_eq_getElem place.inside]
    rfl

theorem dropComments (place : cursor.At buffer index) :
    { cursor with comments := [] }.At buffer index :=
  ⟨place.rest, place.previous⟩

theorem ahead {tokens : List Token} (place : cursor.At (Slot.buffer tokens) index) :
    cursor.ahead = (Slot.ofTokens [] tokens).1.drop index := by
  have inside := place.inside
  have rest := place.rest
  rw [Slot.buffer, List.length_append, List.length_singleton] at inside
  rw [Slot.buffer, List.drop_append_of_le_length (by omega)] at rest
  exact (List.append_inj' rest rfl).1

theorem final {tokens : List Token} (place : cursor.At (Slot.buffer tokens) index) :
    cursor.final = (Slot.ofTokens [] tokens).2 := by
  have inside := place.inside
  have rest := place.rest
  rw [Slot.buffer, List.length_append, List.length_singleton] at inside
  rw [Slot.buffer, List.drop_append_of_le_length (by omega)] at rest
  exact List.singleton_inj.mp (List.append_inj' rest rfl).2

theorem ofTokens (tokens : List Token) : (Cursor.ofTokens tokens).At (Slot.buffer tokens) 0 :=
  ⟨rfl, rfl⟩

end At

/-- The cursor stands somewhere in the buffer, and the tokens that can be seen
from it without going on are tokens of the buffer. -/
def IsIn (buffer : List Slot) (cursor : Cursor) : Prop :=
  ∃ index, cursor.At buffer index ∧ buffer[index]?.map Slot.token = some cursor.peek ∧
    buffer[index - 1]?.map Slot.token = some cursor.previousToken

theorem isIn_iff {buffer : List Slot} {cursor : Cursor} :
    cursor.IsIn buffer ↔ ∃ index, cursor.At buffer index :=
  ⟨fun ⟨index, place, _⟩ => ⟨index, place⟩,
    fun ⟨index, place⟩ => ⟨index, place, place.peek, place.previousToken⟩⟩

end Cursor

/-- A parse that has been kept within its buffer at every step. -/
theorem Step.Run.isIn {α : Type} {legal : Cursor → Prop} {step : Step α} {parser : Parser}
    {buffer : List Slot} (run : RunsIn legal step parser) (start : parser.cursor.IsIn buffer) :
    Run (fun parser => parser.cursor.IsIn buffer) legal step parser ∧
      (after step parser).cursor.IsIn buffer :=
  run.keeping (fun parser => parser.cursor.IsIn buffer)
    (fun parser place _ more => by
      obtain ⟨index, place⟩ := Cursor.isIn_iff.mp place
      exact Cursor.isIn_iff.mpr ⟨index + 1, place.advance more⟩)
    (fun parser place => by
      obtain ⟨index, place⟩ := Cursor.isIn_iff.mp place
      exact Cursor.isIn_iff.mpr ⟨index, place.dropComments⟩)
    (fun parser diagnostic place => by rw [Parser.cursor_report]; exact place)
    start

end ServiceLang
