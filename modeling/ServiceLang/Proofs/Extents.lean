import Mathlib.Data.List.TakeWhile
import ServiceLang.Lexical.Quoted

set_option autoImplicit false

/-! What reaches no further than so much of a text does not hang on the text behind it. Runs of
characters have to be ended by the next one; strings and templates end by themselves. -/

namespace ServiceLang

/-! ### Runs of characters -/

theorem runLength_append_eq (among : Char → Bool) (front back : List Char) :
    runLength among (front ++ back) =
      if runLength among front = front.length then front.length + runLength among back
      else runLength among front := by
  unfold runLength
  rw [List.takeWhile_append]
  split
  · exact List.length_append
  · rfl

theorem runLength_of_head {among : Char → Bool} {tail : List Char}
    (ends : ∀ char ∈ tail.head?, among char = false) : runLength among tail = 0 := by
  cases tail with
  | nil => rfl
  | cons char tail =>
      rw [runLength, List.takeWhile_cons_of_neg (by simp [ends char rfl])]
      rfl

theorem take_runLength (among : Char → Bool) (chars : List Char) :
    chars.take (runLength among chars) = chars.takeWhile among :=
  (List.prefix_iff_eq_take.mp (List.takeWhile_prefix among)).symm

theorem drop_runLength (among : Char → Bool) (chars : List Char) :
    chars.drop (runLength among chars) = chars.dropWhile among := by
  have split := List.takeWhile_append_dropWhile (p := among) (l := chars)
  rw [← take_runLength] at split
  exact List.append_cancel_left ((List.take_append_drop _ _).trans split.symm)

theorem head_drop_runLength (among : Char → Bool) (chars : List Char) :
    ∀ char ∈ (chars.drop (runLength among chars)).head?, among char = false := by
  rw [drop_runLength]
  intro char first
  have notAmong := List.head?_dropWhile_not among chars
  rw [Option.mem_def.mp first] at notAmong
  exact notAmong

theorem runLength_append {among : Char → Bool} {front tail : List Char}
    (all : runLength among front = front.length) (ends : ∀ char ∈ tail.head?, among char = false) :
    runLength among (front ++ tail) = front.length := by
  rw [runLength_append_eq, if_pos all, runLength_of_head ends]
  rfl

variable {among : Char → Bool} {front back : List Char}

theorem runLength_swap {tail : List Char} (within : runLength among (front ++ back) ≤ front.length)
    (ends : ∀ char ∈ tail.head?, among char = false) :
    runLength among (front ++ tail) = runLength among (front ++ back) := by
  rw [runLength_append_eq] at within
  rw [runLength_append_eq, runLength_append_eq, runLength_of_head ends]
  split at within
  · rename_i all
    rw [if_pos all, if_pos all]
    omega
  · rename_i short
    rw [if_neg short, if_neg short]

/-- A run that ends before the text does ends there whatever stands behind. -/
theorem runLength_swap_of_lt (within : runLength among (front ++ back) < front.length)
    (tail : List Char) : runLength among (front ++ tail) = runLength among (front ++ back) := by
  rw [runLength_append_eq] at within
  rw [runLength_append_eq, runLength_append_eq]
  split at within
  · omega
  · rename_i short
    rw [if_neg short, if_neg short]

theorem min_runLength_swap {limit : Nat}
    (within : min limit (runLength among (front ++ back)) < front.length) (tail : List Char) :
    min limit (runLength among (front ++ tail)) = min limit (runLength among (front ++ back)) := by
  rw [runLength_append_eq] at within
  rw [runLength_append_eq, runLength_append_eq]
  split at within
  · rename_i all
    rw [if_pos all, if_pos all]
    omega
  · rename_i short
    rw [if_neg short, if_neg short]

/-! ### Strings -/

/-- An escape that ends before the text does is the same whatever stands behind. -/
theorem Escape.read_swap {chars back : List Char} (nonempty : chars ≠ [])
    (within : ∀ length, read (chars ++ back) = .known length → length < chars.length)
    (tail : List Char) : read (chars ++ tail) = read (chars ++ back) := by
  cases chars with
  | nil => contradiction
  | cons char rest =>
      rw [List.cons_append, List.cons_append, read, read]
      rw [List.cons_append, read] at within
      by_cases plain : char ∈ ['b', 't', 'n', 'f', 'r', '"', '\'', '\\']
      · rw [if_pos plain, if_pos plain]
      rw [if_neg plain] at within
      rw [if_neg plain, if_neg plain]
      by_cases octal : isOctalDigit char = true
      · rw [if_pos octal] at within
        have inside := within _ rfl
        rw [List.length_cons] at inside
        have digits : min 2 (runLength isOctalDigit (rest ++ back)) < rest.length := by omega
        rw [if_pos octal, if_pos octal, min_runLength_swap digits]
      rw [if_neg octal] at within
      rw [if_neg octal, if_neg octal]
      by_cases unicode : char = 'u'
      · rw [if_pos unicode] at within
        have inside := within _ rfl
        rw [List.length_cons] at inside
        have marks : runLength (· == 'u') (rest ++ back) < rest.length := by omega
        have dropped (other : List Char) :
            (rest ++ other).drop (runLength (· == 'u') (rest ++ back)) =
              rest.drop (runLength (· == 'u') (rest ++ back)) ++ other :=
          List.drop_append_of_le_length (Nat.le_of_lt marks)
        have digits : min 4 (runLength isHexDigit
            (rest.drop (runLength (· == 'u') (rest ++ back)) ++ back)) <
              (rest.drop (runLength (· == 'u') (rest ++ back))).length := by
          rw [dropped] at inside
          rw [List.length_drop]
          omega
        simp only [if_pos unicode, runLength_swap_of_lt marks, dropped, min_runLength_swap digits]
      · rw [if_neg unicode, if_neg unicode]

theorem Escape.read_swap_of_known {chars back : List Char} {length : Nat}
    (known : read (chars ++ back) = .known length) (short : length < chars.length)
    (tail : List Char) : read (chars ++ tail) = .known length := by
  rw [read_swap (List.ne_nil_of_length_pos (Nat.zero_lt_of_lt short)) ?_ tail, known]
  intro other same
  rw [known] at same
  cases same
  exact short

theorem Escape.read_swap_of_unknown {chars back : List Char} {char : Char}
    (unknown : read (chars ++ back) = .unknown char) (nonempty : chars ≠ [])
    (tail : List Char) : read (chars ++ tail) = .unknown char := by
  rw [read_swap nonempty ?_ tail, unknown]
  intro length known
  rw [unknown] at known
  cases known

theorem le_length_stringExtent (index skip : Nat) (chars : List Char) :
    index ≤ (stringExtent index skip chars).length := by
  fun_induction stringExtent index skip chars with
  | case1 index => exact Nat.le_refl _
  | case2 index skip char rest ih => omega
  | case3 index => exact Nat.le_refl _
  | case4 index => exact Nat.le_succ _
  | case5 index rest length known notEnd notQuote ih => omega
  | case6 index rest other unknown tail notEnd notQuote ih => exact Nat.le_of_succ_le ih
  | case7 index char rest notEnd notQuote notEscape ih => omega

theorem length_stringExtent_le (index skip : Nat) (chars : List Char) :
    (stringExtent index skip chars).length ≤ index + chars.length := by
  fun_induction stringExtent index skip chars with
  | case1 index => exact Nat.le_refl _
  | case3 index => exact Nat.le_add_right _ _
  | case4 index rest => exact Nat.add_le_add_left (Nat.le_add_left 1 _) index
  | case6 index rest other unknown tail notEnd notQuote ih =>
      exact Nat.le_trans ih (Nat.le_of_eq (Nat.succ_add_eq_add_succ index rest.length))
  | case2 _ _ _ _ ih | case5 _ _ _ _ _ _ ih | case7 _ _ _ _ _ _ ih =>
      rw [List.length_cons]
      omega

/-- A string that is closed has its closing quote at the end, behind what belongs to an escape. -/
theorem lt_length_stringExtent {index skip : Nat} {chars : List Char}
    (closed : (stringExtent index skip chars).closed = true) :
    index + skip < (stringExtent index skip chars).length := by
  fun_induction stringExtent index skip chars with
  | case1 | case3 => cases closed
  | case4 index => exact Nat.lt_succ_self _
  | case6 index rest other unknown tail notEnd notQuote ih =>
      exact Nat.lt_of_succ_lt (Nat.lt_of_succ_lt (ih closed))
  | case2 _ _ _ _ ih | case5 _ _ _ _ _ _ ih | case7 _ _ _ _ _ _ ih =>
      have behind := ih closed
      omega

/-- A string that is closed within a text ends there whatever stands behind. -/
theorem stringExtent_swap {index skip : Nat} {chars back : List Char}
    (closed : (stringExtent index skip (chars ++ back)).closed = true)
    (within : (stringExtent index skip (chars ++ back)).length ≤ index + chars.length)
    (tail : List Char) :
    stringExtent index skip (chars ++ tail) = stringExtent index skip (chars ++ back) := by
  induction chars generalizing index skip with
  | nil =>
      have behind := lt_length_stringExtent closed
      rw [List.length_nil] at within
      omega
  | cons char rest ih =>
      have inside {index skip : Nat} {extent : Quoted}
          (same : extent = stringExtent (index + 1) skip (rest ++ back))
          (closed : extent.closed = true)
          (within : extent.length ≤ index + (rest.length + 1)) :
          skip < rest.length ∧
            stringExtent (index + 1) skip (rest ++ tail) = extent := by
        subst same
        have behind := lt_length_stringExtent closed
        exact ⟨by omega, ih closed (by omega)⟩
      rw [List.length_cons] at within
      cases skip with
      | succ skip =>
          exact (inside rfl closed within).2
      | zero =>
          rw [List.cons_append] at closed within
          rw [List.cons_append, List.cons_append, stringExtent, stringExtent]
          rw [stringExtent] at closed within
          by_cases lineEnd : isLineEnd char = true
          · rw [if_pos lineEnd] at closed
            cases closed
          rw [if_neg lineEnd] at closed within
          rw [if_neg lineEnd, if_neg lineEnd]
          by_cases quote : char = '"'
          · rw [if_pos quote, if_pos quote]
          rw [if_neg quote] at closed within
          rw [if_neg quote, if_neg quote]
          by_cases escape : char = '\\'
          · rw [if_pos escape] at closed within
            rw [if_pos escape, if_pos escape]
            cases read : Escape.read (rest ++ back) with
            | known length =>
                rw [read] at closed within
                obtain ⟨short, same⟩ := inside rfl closed within
                rw [Escape.read_swap_of_known read short]
                exact same
            | unknown other =>
                rw [read] at closed within
                obtain ⟨short, same⟩ := inside rfl closed within
                have nonempty : rest ≠ [] := List.ne_nil_of_length_pos (Nat.zero_lt_of_lt short)
                rw [Escape.read_swap_of_unknown read nonempty]
                dsimp only
                rw [same]
          · rw [if_neg escape] at closed within
            rw [if_neg escape, if_neg escape]
            exact (inside rfl closed within).2

/-- A string that is closed ends there whatever is added. -/
theorem stringExtent_append {index skip : Nat} {chars : List Char}
    (closed : (stringExtent index skip chars).closed = true) (tail : List Char) :
    stringExtent index skip (chars ++ tail) = stringExtent index skip chars := by
  have swapped := @stringExtent_swap index skip chars []
  rw [List.append_nil] at swapped
  exact swapped closed (length_stringExtent_le index skip chars) tail

/-! ### Templates -/

theorem templateLength?_le {chars : List Char} {length : Nat}
    (found : templateLength? chars = some length) : 0 < length ∧ length ≤ chars.length := by
  fun_induction templateLength? chars generalizing length with
  | case1 => cases found
  | case2 rest =>
      cases found
      exact ⟨Nat.zero_lt_one, Nat.le_add_left 1 _⟩
  | case3 _ _ ih | case4 _ _ _ _ ih =>
      obtain ⟨inner, isInner, rfl⟩ := Option.map_eq_some_iff.mp found
      have bounds := ih isInner
      simp only [List.length_cons]
      omega

/-- A template that is closed within a text ends there whatever stands behind. -/
theorem templateLength?_swap {chars back : List Char} {length : Nat}
    (found : templateLength? (chars ++ back) = some length) (within : length ≤ chars.length)
    (tail : List Char) : templateLength? (chars ++ tail) = some length := by
  fun_induction templateLength? chars generalizing length with
  | case1 =>
      have bounds := templateLength?_le found
      rw [List.length_nil] at within
      omega
  | case2 rest => exact found
  | case3 char rest ih =>
      obtain ⟨inner, isInner, rfl⟩ := Option.map_eq_some_iff.mp found
      simp only [List.length_cons] at within
      exact Option.map_eq_some_iff.mpr ⟨inner, ih isInner (by omega), rfl⟩
  | case4 char rest notEnd notEscape ih =>
      by_cases escape : char = '\\'
      -- A backslash at the end of the text would take a character with it from behind.
      · obtain rfl : rest = [] := by
          cases rest with
          | nil => rfl
          | cons second rest => exact (notEscape second rest escape rfl).elim
        subst escape
        cases back with
        | nil => cases found
        | cons second back =>
            obtain ⟨inner, -, rfl⟩ := Option.map_eq_some_iff.mp found
            rw [List.length_singleton] at within
            omega
      · have step (other : List Char) : templateLength? (char :: rest ++ other) =
            (templateLength? (rest ++ other)).map (· + 1) := by
          rw [List.cons_append, templateLength?.eq_4 _ _ notEnd]
          rintro second more rfl
          contradiction
        rw [step] at found
        obtain ⟨inner, isInner, rfl⟩ := Option.map_eq_some_iff.mp found
        rw [List.length_cons] at within
        rw [step]
        exact Option.map_eq_some_iff.mpr ⟨inner, ih isInner (by omega), rfl⟩

end ServiceLang
