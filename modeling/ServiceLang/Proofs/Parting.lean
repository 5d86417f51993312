import ServiceLang.Proofs.Tiling

set_option autoImplicit false

/-! Lexemes in front of a blank. A lexeme that is a token is the same in front of a blank as in
front of whatever it was cut from. -/

namespace ServiceLang

/-- A space or a newline opens this text, if anything does. -/
def OpensBlank (tail : List Char) : Prop :=
  ∀ char ∈ tail.head?, char = ' ' ∨ char = '\n'

theorem OpensBlank.ends {among : Char → Bool} {tail : List Char} (blank : OpensBlank tail)
    (space : among ' ' = false) (newline : among '\n' = false) :
    ∀ char ∈ tail.head?, among char = false := by
  intro char first
  rcases blank char first with rfl | rfl
  · exact space
  · exact newline

/-! ### Radix marks -/

inductive Radix where
  | hexadecimal | binary | octal | decimal
deriving DecidableEq, Repr

namespace Radix

def isDigit : Radix → Char → Bool
  | hexadecimal => isHexDigit
  | binary => isBinaryDigit
  | octal => isOctalDigit
  | decimal => ServiceLang.isDigit

def isMarked : Radix → Bool
  | hexadecimal | binary => true
  | octal | decimal => false

/-- The radix of a literal and what stands behind the mark that tells it. A zero in front that
is no part of a mark tells it too. -/
def split : List Char → Radix × List Char
  | '0' :: mark :: rest =>
      if mark = 'x' ∨ mark = 'X' then (hexadecimal, rest)
      else if mark = 'b' ∨ mark = 'B' then (binary, rest)
      else (octal, '0' :: mark :: rest)
  | ['0'] => (octal, ['0'])
  | text => (decimal, text)

theorem isDigit_blank (radix : Radix) :
    radix.isDigit ' ' = false ∧ radix.isDigit '\n' = false := by
  cases radix <;> exact ⟨rfl, rfl⟩

end Radix

namespace Lexeme

variable {chars back tail : List Char}

/-! ### The parts of numbers -/

theorem startsWithDigit_of_blank (blank : OpensBlank tail) : startsWithDigit tail = false := by
  cases tail with
  | nil => rfl
  | cons char tail =>
      have ends : ∀ first ∈ (char :: tail).head?, isDigit first = false := blank.ends rfl rfl
      exact ends char rfl

theorem runLength_of_startsWithDigit (digit : startsWithDigit chars = true) :
    0 < runLength isDigitOrUnderscore chars := by
  cases chars with
  | nil => cases digit
  | cons first chars =>
      have isDigit : isDigit first = true := digit
      rw [runLength, List.takeWhile_cons_of_pos (by simp [isDigitOrUnderscore, isDigit])]
      exact Nat.zero_lt_succ _

theorem fractionLength_le (chars : List Char) : fractionLength chars ≤ chars.length := by
  unfold fractionLength
  split
  · rename_i rest
    have run := runLength_le isDigitOrUnderscore rest
    split
    · rw [List.length_cons]
      omega
    · exact Nat.zero_le _
  · exact Nat.zero_le _

theorem fractionLength_of_head (noPoint : '.' ∉ chars.head?) : fractionLength chars = 0 := by
  unfold fractionLength
  split
  · exact absurd rfl noPoint
  · rfl

theorem fractionLength_swap (within : fractionLength (chars ++ back) ≤ chars.length)
    (blank : OpensBlank tail) : fractionLength (chars ++ tail) = fractionLength (chars ++ back) := by
  have noPoint : '.' ∉ tail.head? := fun point => by
    rcases blank '.' point with same | same <;> cases same
  cases chars with
  | nil =>
      rw [List.nil_append, fractionLength_of_head noPoint]
      exact (Nat.le_zero.mp within).symm
  | cons char rest =>
      by_cases point : char = '.'
      · subst point
        simp only [List.cons_append, fractionLength, List.length_cons] at within ⊢
        have digits : startsWithDigit (rest ++ tail) = startsWithDigit (rest ++ back) := by
          cases rest with
          | nil =>
              rw [List.nil_append, List.nil_append, startsWithDigit_of_blank blank]
              by_contra digit
              have digit : startsWithDigit back = true := by simpa using digit
              have run := runLength_of_startsWithDigit digit
              rw [List.nil_append, if_pos digit, List.length_nil] at within
              omega
          | cons second rest => rfl
        rw [digits]
        split at within
        · rename_i digit
          have run : runLength isDigitOrUnderscore (rest ++ back) ≤ rest.length := by omega
          rw [if_pos digit, if_pos digit, runLength_swap run (blank.ends rfl rfl)]
        · rename_i noDigit
          rw [if_neg noDigit, if_neg noDigit]
      · have none (other : List Char) : fractionLength (char :: rest ++ other) = 0 :=
          fractionLength_of_head fun first => point (Option.some.inj first)
        rw [none, none]

def Exponent.length : Exponent → Nat
  | .present length => length
  | _ => 0

def signLength : List Char → Nat
  | '+' :: _ | '-' :: _ => 1
  | _ => 0

theorem signLength_le (chars : List Char) : signLength chars ≤ chars.length := by
  unfold signLength
  split
  · exact Nat.le_add_left 1 _
  · exact Nat.le_add_left 1 _
  · exact Nat.zero_le _

theorem signLength_cons (char : Char) (rest : List Char) :
    signLength (char :: rest) = signLength [char] := by
  unfold signLength
  split <;> simp_all

theorem Exponent.read_cons (char : Char) (rest : List Char) :
    read (char :: rest) =
      if char = 'e' ∨ char = 'E' then
        if runLength isDigit (rest.drop (signLength rest)) = 0 then .broken
        else .present (1 + signLength rest + runLength isDigit (rest.drop (signLength rest)))
      else .absent :=
  rfl

theorem Exponent.length_read_le (chars : List Char) : (read chars).length ≤ chars.length := by
  cases chars with
  | nil => exact Nat.zero_le _
  | cons char rest =>
      rw [read_cons]
      split
      · split
        · exact Nat.zero_le _
        · have run := runLength_le isDigit (rest.drop (signLength rest))
          have sign := signLength_le rest
          rw [List.length_drop] at run
          rw [Exponent.length, List.length_cons]
          omega
      · exact Nat.zero_le _

theorem Exponent.read_swap (unbroken : read (chars ++ back) ≠ .broken)
    (within : (read (chars ++ back)).length ≤ chars.length) (blank : OpensBlank tail) :
    read (chars ++ tail) = read (chars ++ back) := by
  have absent : read tail = .absent := by
    cases tail with
    | nil => rfl
    | cons char tail => rcases blank char rfl with rfl | rfl <;> rfl
  cases chars with
  | nil =>
      rw [List.nil_append, absent]
      cases back with
      | nil => rfl
      | cons char back =>
          rw [List.nil_append, read_cons] at unbroken within
          rw [List.nil_append, read_cons]
          split
          · rename_i letter
            rw [if_pos letter] at unbroken within
            split at within
            · rename_i noDigits
              exact absurd (if_pos noDigits) unbroken
            · rw [Exponent.length, List.length_nil] at within
              omega
          · rfl
  | cons char rest =>
      rw [List.cons_append, read_cons] at unbroken within
      rw [List.cons_append, List.cons_append, read_cons, read_cons]
      split
      · rename_i letter
        rw [if_pos letter] at unbroken within
        split at within
        · rename_i noDigits
          exact absurd (if_pos noDigits) unbroken
        · rename_i digits
          rw [Exponent.length, List.length_cons] at within
          cases rest with
          | nil =>
              rw [List.length_nil] at within
              omega
          | cons second rest =>
              have sign (other : List Char) :
                  signLength (second :: rest ++ other) = signLength [second] :=
                signLength_cons second (rest ++ other)
              have fits : signLength [second] ≤ (second :: rest).length :=
                Nat.le_trans (signLength_le [second]) (Nat.le_add_left 1 _)
              rw [sign] at within
              rw [List.drop_append_of_le_length fits] at within
              rw [sign, sign, List.drop_append_of_le_length fits,
                List.drop_append_of_le_length fits, runLength_swap ?_ (blank.ends rfl rfl)]
              rw [List.length_drop]
              omega
      · rfl

theorem integerSuffix_swap (within : integerSuffix (chars ++ back) ≤ chars.length)
    (blank : OpensBlank tail) : integerSuffix (chars ++ tail) = integerSuffix (chars ++ back) := by
  cases chars with
  | nil =>
      refine Eq.trans ?_ (Nat.le_zero.mp within).symm
      cases tail with
      | nil => rfl
      | cons char tail =>
          rcases blank char rfl with rfl | rfl <;> rfl
  | cons char rest => rfl

theorem integerSuffix_le (chars : List Char) : integerSuffix chars ≤ chars.length := by
  unfold integerSuffix
  split
  · split
    · exact Nat.le_add_left 1 _
    · exact Nat.zero_le _
  · exact Nat.le_refl _

/-! ### Decimal numbers -/

def wholeLength (chars : List Char) : Nat :=
  runLength isDigitOrUnderscore chars

def mantissaLength (chars : List Char) : Nat :=
  wholeLength chars + fractionLength (chars.drop (wholeLength chars))

def exponentOf (chars : List Char) : Exponent :=
  Exponent.read (chars.drop (mantissaLength chars))

def scaledLength (chars : List Char) : Nat :=
  mantissaLength chars + (exponentOf chars).length

def isScientific (chars : List Char) : Bool :=
  fractionLength (chars.drop (wholeLength chars)) != 0 || exponentOf chars != .absent

/-- The length of a suffix at the front, and whether the number in front of it is a floating
one. -/
def numberSuffix (scientific : Bool) (chars : List Char) : Nat × Bool :=
  match chars with
  | char :: _ =>
      if char ∈ ['f', 'F', 'd', 'D'] then (1, true)
      else if scientific then (0, true)
      else (integerSuffix chars, false)
  | [] => (0, scientific)

def suffixOf (chars : List Char) : Nat × Bool :=
  numberSuffix (isScientific chars) (chars.drop (scaledLength chars))

def decimalLength (chars : List Char) : Nat :=
  scaledLength chars + (suffixOf chars).1

theorem numberSuffix_le (scientific : Bool) (chars : List Char) :
    (numberSuffix scientific chars).1 ≤ chars.length := by
  unfold numberSuffix
  split
  · split
    · exact Nat.le_add_left 1 _
    · split
      · exact Nat.zero_le _
      · exact integerSuffix_le (_ :: _)
  · exact Nat.le_refl _

theorem numberSuffix_swap {scientific : Bool}
    (within : (numberSuffix scientific (chars ++ back)).1 ≤ chars.length)
    (blank : OpensBlank tail) :
    numberSuffix scientific (chars ++ tail) = numberSuffix scientific (chars ++ back) := by
  have none : numberSuffix scientific tail = (0, scientific) := by
    cases tail with
    | nil => rfl
    | cons char tail => rcases blank char rfl with rfl | rfl <;> cases scientific <;> rfl
  cases chars with
  | nil =>
      rw [List.nil_append, none]
      cases back with
      | nil => rfl
      | cons char back =>
          rw [List.nil_append, numberSuffix] at within ⊢
          split at within
          · cases within
          · rename_i noSuffix
            rw [if_neg noSuffix]
            cases scientific with
            | true => rfl
            | false => exact Prod.ext (Nat.le_zero.mp within).symm rfl
  | cons char rest => rfl

theorem mantissaLength_le (chars : List Char) : mantissaLength chars ≤ chars.length := by
  have whole : wholeLength chars ≤ chars.length := runLength_le _ _
  have fraction := fractionLength_le (chars.drop (wholeLength chars))
  rw [List.length_drop] at fraction
  rw [mantissaLength]
  omega

theorem scaledLength_le (chars : List Char) : scaledLength chars ≤ chars.length := by
  have mantissa := mantissaLength_le chars
  have exponent := Exponent.length_read_le (chars.drop (mantissaLength chars))
  rw [List.length_drop] at exponent
  rw [scaledLength, exponentOf]
  omega

theorem decimalLength_le (chars : List Char) : decimalLength chars ≤ chars.length := by
  have scaled := scaledLength_le chars
  have suffix := numberSuffix_le (isScientific chars) (chars.drop (scaledLength chars))
  rw [List.length_drop] at suffix
  rw [decimalLength, suffixOf]
  omega

theorem decimal_eq (chars : List Char) :
    decimal chars =
      if exponentOf chars = .broken then
        .bad (.malformedNumber "missing exponent digits") (mantissaLength chars)
      else if runLength isNamePart (chars.drop (decimalLength chars)) ≠ 0 then
        .bad (.malformedNumber "unexpected characters after number")
          (decimalLength chars + runLength isNamePart (chars.drop (decimalLength chars)) - 1)
      else .good (if (suffixOf chars).2 then .floating else .integer) (decimalLength chars - 1) := by
  have isRead : Exponent.read (chars.drop (runLength isDigitOrUnderscore chars +
      fractionLength (chars.drop (runLength isDigitOrUnderscore chars)))) = exponentOf chars := rfl
  unfold decimal decimalLength suffixOf scaledLength isScientific
  dsimp only
  rw [isRead]
  cases exponentOf chars <;> rfl

theorem decimal_sound (sound : (decimal chars).fault = none) :
    exponentOf chars ≠ .broken ∧ runLength isNamePart (chars.drop (decimalLength chars)) = 0 := by
  rw [decimal_eq] at sound
  split at sound
  · cases sound
  · split at sound
    · cases sound
    · rename_i unbroken ends
      exact ⟨unbroken, Decidable.not_not.mp ends⟩

theorem more_decimal (sound : (decimal chars).fault = none) :
    (decimal chars).more = decimalLength chars - 1 := by
  obtain ⟨unbroken, ends⟩ := decimal_sound sound
  rw [decimal_eq, if_neg unbroken, if_neg (not_not.mpr ends)]
  rfl

/-- A decimal number that takes no more than this text is the same in front of a blank. -/
theorem decimal_swap (sound : (decimal (chars ++ back)).fault = none)
    (within : decimalLength (chars ++ back) ≤ chars.length) (blank : OpensBlank tail) :
    decimal (chars ++ tail) = decimal (chars ++ back) := by
  obtain ⟨unbroken, ends⟩ := decimal_sound sound
  have dropped {length : Nat} (short : length ≤ chars.length) (other : List Char) :
      (chars ++ other).drop length = chars.drop length ++ other :=
    List.drop_append_of_le_length short
  have whole : wholeLength (chars ++ tail) = wholeLength (chars ++ back) := by
    refine runLength_swap ?_ (blank.ends rfl rfl)
    unfold decimalLength scaledLength mantissaLength wholeLength at within
    omega
  have fraction : fractionLength ((chars ++ tail).drop (wholeLength (chars ++ tail))) =
      fractionLength ((chars ++ back).drop (wholeLength (chars ++ back))) := by
    unfold decimalLength scaledLength mantissaLength at within
    rw [dropped (by omega)] at within
    rw [whole, dropped (by omega), dropped (by omega)]
    refine fractionLength_swap ?_ blank
    rw [List.length_drop]
    omega
  have mantissa : mantissaLength (chars ++ tail) = mantissaLength (chars ++ back) := by
    rw [mantissaLength, fraction, whole, mantissaLength]
  have exponent : exponentOf (chars ++ tail) = exponentOf (chars ++ back) := by
    unfold decimalLength scaledLength at within
    unfold exponentOf at unbroken within ⊢
    rw [dropped (by omega)] at unbroken within
    rw [mantissa, dropped (by omega), dropped (by omega)]
    refine Exponent.read_swap unbroken ?_ blank
    rw [List.length_drop]
    omega
  have scaled : scaledLength (chars ++ tail) = scaledLength (chars ++ back) := by
    rw [scaledLength, mantissa, exponent, scaledLength]
  have suffix : suffixOf (chars ++ tail) = suffixOf (chars ++ back) := by
    have scientific : isScientific (chars ++ tail) = isScientific (chars ++ back) := by
      rw [isScientific, fraction, exponent, isScientific]
    unfold decimalLength at within
    unfold suffixOf at within ⊢
    rw [dropped (by omega)] at within
    rw [scientific, scaled, dropped (by omega), dropped (by omega)]
    refine numberSuffix_swap ?_ blank
    rw [List.length_drop]
    omega
  have length : decimalLength (chars ++ tail) = decimalLength (chars ++ back) := by
    rw [decimalLength, scaled, suffix, decimalLength]
  have nothing : runLength isNamePart ((chars ++ tail).drop (decimalLength (chars ++ tail))) =
      runLength isNamePart ((chars ++ back).drop (decimalLength (chars ++ back))) := by
    rw [dropped within] at ends
    rw [length, dropped within, dropped within]
    exact runLength_swap (ends ▸ Nat.zero_le _) (blank.ends rfl rfl)
  rw [decimal_eq, decimal_eq, exponent, mantissa, nothing, length, suffix]

/-! ### Lexemes -/

variable {first : Char} {text : List Char}

/-- What this reads at the front of a text and its continuation is a token, and reaches as far as
the text. -/
structure EndsAt (reader : List Char → Lexeme) (text back : List Char) : Prop where
  sound : (reader (text ++ back)).fault = none
  more : (reader (text ++ back)).more = text.length

/-- A reader that hands over to another one, here and in front of a blank. -/
theorem EndsAt.swap {reader other : List Char → Lexeme} (ends : EndsAt reader text back)
    (here : reader (text ++ back) = other (text ++ back))
    (again : reader (text ++ tail) = other (text ++ tail))
    (swap : EndsAt other text back → other (text ++ tail) = other (text ++ back)) :
    reader (text ++ tail) = reader (text ++ back) := by
  rw [here, again]
  exact swap ⟨here ▸ ends.sound, here ▸ ends.more⟩

theorem decimal_swap_behind (ends : EndsAt (fun rest => decimal (first :: rest)) text back)
    (blank : OpensBlank tail) :
    decimal (first :: (text ++ tail)) = decimal (first :: (text ++ back)) := by
  have more := ends.more
  rw [more_decimal ends.sound] at more
  have within : decimalLength (first :: text ++ back) ≤ (first :: text).length := by
    change decimalLength (first :: (text ++ back)) ≤ text.length + 1
    omega
  exact decimal_swap ends.sound within blank

theorem radix_sound {isRadixDigit : Char → Bool} (sound : (radix isRadixDigit chars).fault = none) :
    runLength (fun char => isRadixDigit char || char == '_') chars ≠ 0 ∧
      radix isRadixDigit chars =
        .good .integer (1 + runLength (fun char => isRadixDigit char || char == '_') chars +
          integerSuffix (chars.drop (runLength (fun char => isRadixDigit char || char == '_')
            chars))) := by
  rw [radix] at sound ⊢
  split at sound
  · cases sound
  · rename_i digits
    exact ⟨digits, if_neg digits⟩

theorem radix_swap {isRadixDigit : Char → Bool}
    (sound : (radix isRadixDigit (text ++ back)).fault = none)
    (more : (radix isRadixDigit (text ++ back)).more = text.length + 1)
    (space : isRadixDigit ' ' = false) (newline : isRadixDigit '\n' = false)
    (blank : OpensBlank tail) :
    radix isRadixDigit (text ++ tail) = radix isRadixDigit (text ++ back) := by
  rw [(radix_sound sound).2] at more
  change 1 + _ + _ = _ at more
  have digits : runLength (fun char => isRadixDigit char || char == '_') (text ++ tail) =
      runLength (fun char => isRadixDigit char || char == '_') (text ++ back) :=
    runLength_swap (by omega) (blank.ends (by simp [space]) (by simp [newline]))
  have suffix : integerSuffix ((text ++ tail).drop
        (runLength (fun char => isRadixDigit char || char == '_') (text ++ back))) =
      integerSuffix ((text ++ back).drop
        (runLength (fun char => isRadixDigit char || char == '_') (text ++ back))) := by
    rw [List.drop_append_of_le_length (by omega)] at more
    rw [List.drop_append_of_le_length (by omega), List.drop_append_of_le_length (by omega)]
    refine integerSuffix_swap ?_ blank
    rw [List.length_drop]
    omega
  rw [radix, radix, digits, suffix]

theorem number_of_noMark {rest : List Char}
    (noMark : ∀ char ∈ rest.head?, char ∉ ['x', 'X', 'b', 'B']) :
    number first rest = decimal (first :: rest) := by
  unfold number
  split
  · rename_i mark digits
    have other := noMark mark rfl
    simp only [List.mem_cons, List.not_mem_nil, or_false, not_or] at other
    rw [if_neg (by simp [other]), if_neg (by simp [other])]
  · rfl

theorem number_of_notZero (notZero : first ≠ '0') (rest : List Char) :
    number first rest = decimal (first :: rest) := by
  unfold number
  split
  · contradiction
  · rfl

/-- A mark behind a zero tells the radix. -/
theorem number_of_radix {mark : Char} (isMark : mark ∈ ['x', 'X', 'b', 'B']) :
    ∃ radix : Radix, radix.isMarked = true ∧
      (∀ rest, Radix.split ('0' :: mark :: rest) = (radix, rest)) ∧
      ∀ rest, number '0' (mark :: rest) = Lexeme.radix radix.isDigit rest := by
  simp only [List.mem_cons, List.not_mem_nil, or_false] at isMark
  rcases isMark with rfl | rfl | rfl | rfl
  · exact ⟨.hexadecimal, rfl, fun _ => rfl, fun _ => rfl⟩
  · exact ⟨.hexadecimal, rfl, fun _ => rfl, fun _ => rfl⟩
  · exact ⟨.binary, rfl, fun _ => rfl, fun _ => rfl⟩
  · exact ⟨.binary, rfl, fun _ => rfl, fun _ => rfl⟩

theorem number_swap (ends : EndsAt (number first) text back) (blank : OpensBlank tail) :
    number first (text ++ tail) = number first (text ++ back) := by
  have decimalSwap (isDecimal : number first (text ++ back) = decimal (first :: (text ++ back)))
      (again : number first (text ++ tail) = decimal (first :: (text ++ tail))) :
      number first (text ++ tail) = number first (text ++ back) :=
    ends.swap isDecimal again
      fun (ends : EndsAt (fun rest => decimal (first :: rest)) text back) =>
        decimal_swap_behind ends blank
  have noMark : ∀ char ∈ tail.head?, char ∉ ['x', 'X', 'b', 'B'] := by
    intro char head
    rcases blank char head with rfl | rfl <;> decide
  by_cases zero : first = '0'
  · subst zero
    obtain ⟨sound, more⟩ := ends
    cases text with
    | nil =>
        refine decimalSwap (number_of_noMark fun mark head isMark => ?_) (number_of_noMark noMark)
        -- The mark would be part of the number.
        obtain ⟨radix, -, -, isRadix⟩ := number_of_radix isMark
        obtain ⟨rest, rfl⟩ := List.head?_eq_some_iff.mp head
        rw [List.nil_append, isRadix] at sound more
        rw [(radix_sound sound).2] at more
        change 1 + _ + _ = 0 at more
        omega
    | cons mark text =>
        by_cases isMark : mark ∈ ['x', 'X', 'b', 'B']
        · obtain ⟨radix, -, -, isRadix⟩ := number_of_radix isMark
          rw [List.cons_append, isRadix] at sound more
          rw [List.cons_append, List.cons_append, isRadix, isRadix]
          exact radix_swap sound more radix.isDigit_blank.1 radix.isDigit_blank.2 blank
        · have decimals (other : List Char) : number '0' (mark :: text ++ other) =
              decimal ('0' :: (mark :: text ++ other)) :=
            number_of_noMark fun char head => Option.some.inj head ▸ isMark
          exact decimalSwap (decimals back) (decimals tail)
  · exact decimalSwap (number_of_notZero zero _) (number_of_notZero zero _)

theorem word_swap (ends : EndsAt (word first) text back) (blank : OpensBlank tail) :
    word first (text ++ tail) = word first (text ++ back) := by
  have run : runLength isNamePart (text ++ back) = text.length := ends.more
  have same : runLength isNamePart (text ++ tail) = runLength isNamePart (text ++ back) :=
    runLength_swap (Nat.le_of_eq run) (blank.ends rfl rfl)
  rw [word, word, same, run, List.take_left, List.take_left]

theorem symbol_swap (ends : EndsAt (symbol first) text back) (blank : OpensBlank tail) :
    symbol first (text ++ tail) = symbol first (text ++ back) := by
  cases text with
  | nil =>
      have alone : ∀ char ∈ back.head?, double? first char = none := by
        intro char head
        cases double : double? first char with
        | none => rfl
        | some sign =>
            have more := ends.more
            rw [List.nil_append, symbol, Option.mem_def.mp head, Option.bind_some, double] at more
            cases more
      have blankAlone : ∀ char ∈ tail.head?, double? first char = none := by
        intro char head
        rcases blank char head with rfl | rfl <;> (unfold double?; split <;> simp_all)
      rw [List.nil_append, List.nil_append, symbol, symbol, Option.bind_eq_none_iff.mpr alone,
        Option.bind_eq_none_iff.mpr blankAlone]
  | cons second text => rfl

theorem quoted_swap (ends : EndsAt quoted text back) (tail : List Char) :
    quoted (text ++ tail) = quoted (text ++ back) := by
  obtain ⟨sound, more⟩ := ends
  have closed : (stringExtent 0 0 (text ++ back)).closed = true := by
    by_contra stillOpen
    rw [quoted] at sound
    simp only [if_neg stillOpen] at sound
    cases sound
  rw [quoted] at more
  simp only [if_pos closed] at more
  rw [quoted, quoted, stringExtent_swap closed (by omega) tail]

theorem template_swap (ends : EndsAt template text back) (tail : List Char) :
    template (text ++ tail) = template (text ++ back) := by
  obtain ⟨sound, more⟩ := ends
  rw [template] at sound more
  split at sound
  · rename_i length found
    rw [found] at more
    have within : length ≤ text.length := Nat.le_of_eq more
    rw [template, template, found, templateLength?_swap found within tail]
  · cases sound

theorem read_slash {rest : List Char} (noComment : ∀ char ∈ rest.head?, char ≠ '/' ∧ char ≠ '*') :
    read '/' rest = symbol '/' rest := by
  cases rest with
  | nil => rfl
  | cons second rest =>
      obtain ⟨noLine, noBlock⟩ := noComment second rfl
      unfold read
      split <;> simp_all [isDigit, isNameStart]

theorem read_slash_swap (ends : EndsAt (read '/') text back) (blank : OpensBlank tail)
    (newline : (read '/' (text ++ back)).kind = .comment → ∀ char ∈ tail.head?, char = '\n') :
    read '/' (text ++ tail) = read '/' (text ++ back) := by
  have symbolSwap (noComment : ∀ other, other = back ∨ other = tail →
      ∀ char ∈ (text ++ other).head?, char ≠ '/' ∧ char ≠ '*') :
      read '/' (text ++ tail) = read '/' (text ++ back) :=
    ends.swap (read_slash (noComment back (.inl rfl))) (read_slash (noComment tail (.inr rfl)))
      fun ends => symbol_swap ends blank
  obtain ⟨sound, more⟩ := ends
  cases text with
  | nil =>
      refine symbolSwap ?_
      rintro other (rfl | rfl) char head
      · cases other with
        | nil => cases head
        | cons second rest =>
            cases head
            constructor
            · -- The second slash would be part of the comment.
              rintro rfl
              have long : runLength (fun char => !isLineEnd char) ('/' :: rest) = 0 := more
              rw [runLength, List.takeWhile_cons_of_pos rfl] at long
              cases long
            · rintro rfl
              cases sound
      · rcases blank char head with rfl | rfl <;> decide
  | cons second text =>
      by_cases line : second = '/'
      · subst line
        have run : runLength (fun char => !isLineEnd char) ('/' :: text ++ back) =
            ('/' :: text).length := more
        have stops : ∀ char ∈ tail.head?, (!isLineEnd char) = false := by
          intro char head
          rw [newline rfl char head]
          rfl
        have same := runLength_swap (Nat.le_of_eq run) stops
        change good .comment (runLength _ ('/' :: text ++ tail)) =
          good .comment (runLength _ ('/' :: text ++ back))
        rw [same]
      · by_cases block : second = '*'
        · subst block
          cases sound
        · refine symbolSwap fun other _ char head => ?_
          cases head
          exact ⟨line, block⟩

theorem read_dot_swap (ends : EndsAt (read '.') text back) (blank : OpensBlank tail) :
    read '.' (text ++ tail) = read '.' (text ++ back) := by
  have isRead (rest : List Char) : read '.' rest =
      if startsWithDigit rest then number '.' rest else symbol '.' rest :=
    rfl
  have isNumber {rest : List Char} (digit : startsWithDigit rest = true) :
      read '.' rest = number '.' rest := by
    rw [isRead, if_pos digit]
  have isSymbol {rest : List Char} (noDigit : startsWithDigit rest = false) :
      read '.' rest = symbol '.' rest := by
    rw [isRead, if_neg (by simp [noDigit])]
  have numberSwap (here : startsWithDigit (text ++ back) = true)
      (again : startsWithDigit (text ++ tail) = true) :=
    ends.swap (isNumber here) (isNumber again) fun ends => number_swap ends blank
  have symbolSwap (here : startsWithDigit (text ++ back) = false)
      (again : startsWithDigit (text ++ tail) = false) :=
    ends.swap (isSymbol here) (isSymbol again) fun ends => symbol_swap ends blank
  obtain ⟨sound, more⟩ := ends
  cases text with
  | nil =>
      refine symbolSwap ?_ (startsWithDigit_of_blank blank)
      by_contra digit
      have digit : startsWithDigit back = true := by simpa using digit
      -- The digits would be part of the number.
      have isDecimal : read '.' back = decimal ('.' :: back) := isNumber digit
      rw [List.nil_append, isDecimal] at sound more
      rw [more_decimal sound] at more
      have run := runLength_of_startsWithDigit digit
      have fraction : fractionLength (('.' :: back).drop (wholeLength ('.' :: back))) =
          1 + runLength isDigitOrUnderscore back := if_pos digit
      unfold decimalLength scaledLength mantissaLength at more
      rw [fraction, List.length_nil] at more
      omega
  | cons second text =>
      by_cases digit : isDigit second = true
      · exact numberSwap digit digit
      · exact symbolSwap (Bool.not_eq_true _ ▸ digit) (Bool.not_eq_true _ ▸ digit)

/-- A token is read again in front of a blank. A comment has to be ended by a line end. -/
theorem read_swap (ends : EndsAt (read first) text back) (blank : OpensBlank tail)
    (newline : (read first (text ++ back)).kind = .comment → ∀ char ∈ tail.head?, char = '\n') :
    read first (text ++ tail) = read first (text ++ back) := by
  by_cases slash : first = '/'
  · subst slash
    exact read_slash_swap ends blank newline
  by_cases quote : first = '"'
  · subst quote
    exact quoted_swap ends tail
  by_cases backtick : first = '`'
  · subst backtick
    exact template_swap ends tail
  by_cases dot : first = '.'
  · subst dot
    exact read_dot_swap ends blank
  have isRead (rest : List Char) : read first rest =
      if isDigit first then number first rest
      else if isNameStart first then word first rest
      else symbol first rest := by
    unfold read
    split <;> simp_all
  by_cases digit : isDigit first = true
  · have isNumber (rest : List Char) : read first rest = number first rest := by
      rw [isRead, if_pos digit]
    exact ends.swap (isNumber _) (isNumber _) fun ends => number_swap ends blank
  by_cases starts : isNameStart first = true
  · have isWord (rest : List Char) : read first rest = word first rest := by
      rw [isRead, if_neg digit, if_pos starts]
    exact ends.swap (isWord _) (isWord _) fun ends => word_swap ends blank
  · have isSymbol (rest : List Char) : read first rest = symbol first rest := by
      rw [isRead, if_neg digit, if_neg starts]
    exact ends.swap (isSymbol _) (isSymbol _) fun ends => symbol_swap ends blank

/-! ### How far tokens reach -/

theorem more_number_le {rest : List Char} (sound : (number first rest).fault = none) :
    (number first rest).more ≤ rest.length := by
  have decimals (sound : (decimal (first :: rest)).fault = none) :
      (decimal (first :: rest)).more ≤ rest.length := by
    rw [more_decimal sound]
    exact Nat.sub_le_of_le_add (decimalLength_le (first :: rest))
  by_cases zero : first = '0'
  · subst zero
    by_cases isMark : ∃ mark ∈ rest.head?, mark ∈ ['x', 'X', 'b', 'B']
    · obtain ⟨mark, head, isMark⟩ := isMark
      obtain ⟨digits, rfl⟩ := List.head?_eq_some_iff.mp head
      obtain ⟨radix, -, -, isRead⟩ := number_of_radix isMark
      rw [isRead] at sound ⊢
      rw [(radix_sound sound).2]
      have run := runLength_le (fun char => radix.isDigit char || char == '_') digits
      have suffix := integerSuffix_le
        (digits.drop (runLength (fun char => radix.isDigit char || char == '_') digits))
      rw [List.length_drop] at suffix
      change 1 + _ + _ ≤ digits.length + 1
      omega
    · have isDecimal : number '0' rest = decimal ('0' :: rest) :=
        number_of_noMark fun char head isMark' => isMark ⟨char, head, isMark'⟩
      rw [isDecimal] at sound ⊢
      exact decimals sound
  · rw [number_of_notZero zero] at sound ⊢
    exact decimals sound

theorem more_symbol_le (first : Char) (rest : List Char) :
    (symbol first rest).more ≤ rest.length := by
  unfold symbol
  split
  · rename_i sign double
    cases rest with
    | nil => cases double
    | cons second rest => exact Nat.le_add_left 1 _
  · split <;> exact Nat.zero_le _

theorem more_read_le {rest : List Char} (sound : (read first rest).fault = none) :
    (read first rest).more ≤ rest.length := by
  unfold read at sound ⊢
  split at sound
  · exact runLength_le _ _
  · cases sound
  · rw [quoted_more]
    exact Nat.le_trans (length_stringExtent_le 0 0 rest) (Nat.le_of_eq (Nat.zero_add _))
  · rw [template] at sound ⊢
    split at sound
    · rename_i found
      exact (templateLength?_le found).2
    · cases sound
  · split at sound
    · rename_i digit
      rw [if_pos digit]
      exact more_number_le sound
    · rename_i noDigit
      rw [if_neg noDigit]
      exact more_symbol_le _ rest
  · split at sound
    · rename_i digit
      rw [if_pos digit]
      exact more_number_le sound
    · rename_i noDigit
      rw [if_neg noDigit]
      split
      · exact runLength_le _ _
      · exact more_symbol_le first rest

end Lexeme

end ServiceLang
