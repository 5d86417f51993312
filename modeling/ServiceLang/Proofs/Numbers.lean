import ServiceLang.Proofs.Faults
import ServiceLang.Proofs.Ledger
import ServiceLang.Proofs.Parting

set_option autoImplicit false

/-! How numbers end and what they are made of. A number without a radix mark is never followed
by a part of a name, and an integer has decimal digits. Behind a radix mark the digits are those
of the radix, but nothing is asked of the text behind the literal, and underscores alone will do
for digits. -/

namespace ServiceLang

/-! ### Integer literals -/

theorem Kind.valid_of_isNumber {kind : Kind} (isNumber : kind.isNumber = true) :
    kind ≠ .invalid := by
  rintro rfl
  cases isNumber

namespace Numeral

/-- The text without the letter that may stand at the end of an integer literal. -/
def withoutSuffix (text : List Char) : List Char :=
  if text.getLast? = some 'l' ∨ text.getLast? = some 'L' then text.dropLast else text

def body (text : List Char) : List Char :=
  withoutSuffix (Radix.split text).2

def digits (text : List Char) : List Char :=
  (body text).filter (· != '_')

def HasDigits (isDigit : Char → Bool) (text : List Char) : Prop :=
  digits text ≠ [] ∧ ∀ digit ∈ digits text, isDigit digit = true

def EndsNumber (behind : List Char) : Prop :=
  ∀ next ∈ behind.head?, isNamePart next = false

/-- A complete literal: it ends where it has to, and an integer has digits of its radix. -/
def IsComplete (kind : Kind) (text behind : List Char) : Prop :=
  EndsNumber behind ∧ (kind = .integer → HasDigits (Radix.split text).1.isDigit text)

structure IsCut (kind : Kind) (text behind : List Char) : Prop where
  /-- A number that starts with neither a zero nor a mark is complete. -/
  decimal : (Radix.split text).1 = .decimal → IsComplete kind text behind
  /-- With a zero in front the digits are decimal ones, and may be no octal ones. -/
  octal : (Radix.split text).1 = .octal →
    EndsNumber behind ∧ (kind = .integer → HasDigits isDigit text)
  /-- Behind a mark there are digits of the radix or underscores, as many as there are, and a
  suffix. -/
  marked : (Radix.split text).1.isMarked = true →
    kind = .integer ∧ body text ≠ [] ∧
      (∀ digit ∈ digits text, (Radix.split text).1.isDigit digit = true) ∧
      (body text = (Radix.split text).2 → ∀ next ∈ behind.head?,
        (Radix.split text).1.isDigit next = false ∧ next ∉ ['_', 'l', 'L'])

theorem IsCut.ofUnmarked {kind : Kind} {text behind : List Char}
    (unmarked : (Radix.split text).1.isMarked = false) (ends : EndsNumber behind)
    (hasDigits : kind = .integer → HasDigits isDigit text) : IsCut kind text behind where
  decimal isDecimal := ⟨ends, fun isInteger => by rw [isDecimal]; exact hasDigits isInteger⟩
  octal _ := ⟨ends, hasDigits⟩
  marked isMarked := by rw [unmarked] at isMarked; cases isMarked

theorem IsCut.ofMarked {text behind : List Char}
    (isMarked : (Radix.split text).1.isMarked = true) (nonempty : body text ≠ [])
    (hasDigits : ∀ digit ∈ digits text, (Radix.split text).1.isDigit digit = true)
    (ends : body text = (Radix.split text).2 → ∀ next ∈ behind.head?,
      (Radix.split text).1.isDigit next = false ∧ next ∉ ['_', 'l', 'L']) :
    IsCut .integer text behind where
  decimal isDecimal := by rw [isDecimal] at isMarked; cases isMarked
  octal isOctal := by rw [isOctal] at isMarked; cases isMarked
  marked _ := ⟨rfl, nonempty, hasDigits, ends⟩

/-! ### Runs of digits and suffixes -/

def IsSuffix (suffix : List Char) : Prop :=
  suffix = [] ∨ suffix = ['l'] ∨ suffix = ['L']

theorem withoutSuffix_append {run suffix : List Char} (isSuffix : IsSuffix suffix)
    (noSuffix : ∀ char ∈ run, char ∉ ['l', 'L']) : withoutSuffix (run ++ suffix) = run := by
  unfold withoutSuffix
  rcases isSuffix with rfl | rfl | rfl
  · rw [List.append_nil, if_neg]
    rintro (last | last) <;> exact noSuffix _ (List.mem_of_getLast? last) (by decide)
  · rw [List.getLast?_concat, if_pos (.inl rfl), List.dropLast_concat]
  · rw [List.getLast?_concat, if_pos (.inr rfl), List.dropLast_concat]

theorem isSuffix_take (chars : List Char) :
    IsSuffix (chars.take (Lexeme.integerSuffix chars)) := by
  cases chars with
  | nil => exact .inl rfl
  | cons char rest =>
      rw [Lexeme.integerSuffix]
      split
      · rename_i isLetter
        rcases isLetter with rfl | rfl
        · exact .inr (.inl rfl)
        · exact .inr (.inr rfl)
      · exact .inl rfl

theorem noSuffix_of_take {chars : List Char}
    (nothing : chars.take (Lexeme.integerSuffix chars) = []) :
    chars.drop (Lexeme.integerSuffix chars) = chars ∧
      ∀ next ∈ chars.head?, next ∉ ['l', 'L'] := by
  cases chars with
  | nil => exact ⟨rfl, nofun⟩
  | cons char rest =>
      rw [Lexeme.integerSuffix] at nothing ⊢
      split at nothing
      · cases nothing
      · rename_i noLetter
        rw [if_neg noLetter]
        refine ⟨rfl, fun next head => ?_⟩
        cases head
        exact fun letter => noLetter (List.mem_pair.mp letter)

/-- The digits of a run of digits and underscores. -/
theorem isDigit_of_filter {isDigit : Char → Bool} {run : List Char}
    (isRun : ∀ char ∈ run, (isDigit char || char == '_') = true) :
    ∀ digit ∈ run.filter (· != '_'), isDigit digit = true := by
  intro digit member
  obtain ⟨inside, noUnderscore⟩ := List.mem_filter.mp member
  have digitOrUnderscore := isRun digit inside
  rwa [beq_eq_false_iff_ne.mpr (bne_iff_ne.mp noUnderscore), Bool.or_false] at digitOrUnderscore

theorem split_of_noMark {first : Char} {rest : List Char}
    (noMark : first = '0' → ∀ mark ∈ rest.head?, mark ∉ ['x', 'X', 'b', 'B']) :
    (Radix.split (first :: rest)).1.isMarked = false ∧
      (Radix.split (first :: rest)).2 = first :: rest := by
  unfold Radix.split
  split
  · rename_i mark digits same
    cases same
    have other := noMark rfl mark rfl
    simp only [List.mem_cons, List.not_mem_nil, or_false, not_or] at other
    rw [if_neg (by simp [other]), if_neg (by simp [other])]
    exact ⟨rfl, rfl⟩
  · rename_i same
    exact ⟨rfl, same.symm⟩
  · exact ⟨rfl, rfl⟩

end Numeral

open Numeral

namespace Lexeme

/-! ### Decimal numbers -/

theorem numberSuffix_of_integer {scientific : Bool} {chars : List Char}
    (isInteger : (numberSuffix scientific chars).2 = false) :
    scientific = false ∧ (numberSuffix scientific chars).1 = integerSuffix chars := by
  unfold numberSuffix at isInteger ⊢
  split at isInteger
  · split at isInteger
    · cases isInteger
    · rename_i noLetter
      rw [if_neg noLetter]
      cases scientific with
      | true => cases isInteger
      | false => exact ⟨rfl, rfl⟩
  · exact ⟨isInteger, rfl⟩

/-- An integer has neither a point nor an exponent: it is a run of digits and a suffix. -/
theorem decimalLength_of_integer {chars : List Char} (isInteger : (suffixOf chars).2 = false) :
    fractionLength (chars.drop (wholeLength chars)) = 0 ∧
      decimalLength chars =
        wholeLength chars + integerSuffix (chars.drop (wholeLength chars)) := by
  obtain ⟨notScientific, suffix⟩ := numberSuffix_of_integer isInteger
  rw [isScientific, Bool.or_eq_false_iff, bne_eq_false_iff_eq, bne_eq_false_iff_eq]
    at notScientific
  obtain ⟨noFraction, noExponent⟩ := notScientific
  have scaled : scaledLength chars = wholeLength chars := by
    rw [scaledLength, mantissaLength, noFraction, noExponent]
    rfl
  rw [decimalLength, suffixOf, suffix, scaled]
  exact ⟨noFraction, rfl⟩

def StartsNumber (first : Char) (rest : List Char) : Prop :=
  isDigit first = true ∨ (first = '.' ∧ startsWithDigit rest = true)

variable {first : Char} {rest : List Char}

theorem mantissaLength_pos (starts : StartsNumber first rest) :
    0 < mantissaLength (first :: rest) := by
  rw [mantissaLength]
  rcases starts with digit | ⟨rfl, digit⟩
  · have whole : 0 < wholeLength (first :: rest) := runLength_of_startsWithDigit digit
    omega
  · have noWhole : wholeLength ('.' :: rest) = 0 := runLength_of_head fun char first => by
      cases first
      rfl
    have fraction : fractionLength ('.' :: rest) = 1 + runLength isDigitOrUnderscore rest :=
      if_pos digit
    rw [noWhole, List.drop_zero, fraction]
    omega

theorem decimal_of_valid {chars : List Char} (valid : (decimal chars).kind ≠ .invalid) :
    EndsNumber (chars.drop (decimalLength chars)) ∧
      decimal chars =
        .good (if (suffixOf chars).2 then .floating else .integer) (decimalLength chars - 1) := by
  obtain ⟨unbroken, ends⟩ := decimal_sound ((isJudged_decimal chars).sound valid)
  constructor
  · have next := head_drop_runLength isNamePart (chars.drop (decimalLength chars))
    rwa [ends, List.drop_zero] at next
  · rw [decimal_eq, if_neg unbroken, if_neg (not_not.mpr ends)]

/-- The digits of an integer that is all literal. -/
theorem hasDigits_decimal (starts : StartsNumber first rest)
    (isInteger : (suffixOf (first :: rest)).2 = false) {text : List Char}
    (isText : text = (first :: rest).take (decimalLength (first :: rest)))
    (allLiteral : (Radix.split text).2 = text) : HasDigits isDigit text := by
  obtain ⟨noFraction, length⟩ := decimalLength_of_integer isInteger
  have whole : 0 < wholeLength (first :: rest) := by
    have mantissa := mantissaLength_pos starts
    rw [mantissaLength, noFraction] at mantissa
    omega
  have run : (first :: rest).take (wholeLength (first :: rest)) =
      (first :: rest).takeWhile isDigitOrUnderscore := take_runLength _ _
  have isRun : ∀ char ∈ (first :: rest).take (wholeLength (first :: rest)),
      isDigitOrUnderscore char = true := by
    rw [run]
    exact fun char => List.mem_takeWhile_imp
  have isBody : body text = (first :: rest).take (wholeLength (first :: rest)) := by
    rw [body, allLiteral, isText, length, List.take_add]
    refine withoutSuffix_append (isSuffix_take _) fun char member letter => ?_
    have digit := isRun char member
    rcases List.mem_pair.mp letter with rfl | rfl <;> cases digit
  have isDigits : ∀ digit ∈ digits text, isDigit digit = true := by
    rw [digits, isBody]
    exact isDigit_of_filter isRun
  have inside : first ∈ (first :: rest).take (wholeLength (first :: rest)) := by
    rw [← Nat.succ_pred_eq_of_pos whole, List.take_succ_cons]
    exact List.mem_cons_self
  have isFirst : first ∈ digits text := by
    rw [digits, isBody]
    refine List.mem_filter.mpr ⟨inside, ?_⟩
    rcases starts with digit | ⟨rfl, -⟩
    · exact bne_iff_ne.mpr fun same => by rw [same] at digit; cases digit
    · rfl
  exact ⟨List.ne_nil_of_mem isFirst, isDigits⟩

theorem isCut_decimal (starts : StartsNumber first rest)
    (noMark : first = '0' → ∀ mark ∈ rest.head?, mark ∉ ['x', 'X', 'b', 'B'])
    (valid : (decimal (first :: rest)).kind ≠ .invalid) :
    IsCut (decimal (first :: rest)).kind (first :: rest.take (decimal (first :: rest)).more)
      (rest.drop (decimal (first :: rest)).more) := by
  obtain ⟨ends, isGood⟩ := decimal_of_valid valid
  have positive : 0 < decimalLength (first :: rest) := by
    have mantissa := mantissaLength_pos starts
    rw [decimalLength, scaledLength]
    omega
  rw [isGood]
  change IsCut (if (suffixOf (first :: rest)).2 then .floating else .integer)
    (first :: rest.take (decimalLength (first :: rest) - 1))
    (rest.drop (decimalLength (first :: rest) - 1))
  have isText : first :: rest.take (decimalLength (first :: rest) - 1) =
      (first :: rest).take (decimalLength (first :: rest)) := by
    rw [← List.take_succ_cons, Nat.sub_add_cancel positive]
  have isBehind : rest.drop (decimalLength (first :: rest) - 1) =
      (first :: rest).drop (decimalLength (first :: rest)) := by
    rw [← List.drop_succ_cons, Nat.sub_add_cancel positive]
  have stillNoMark : first = '0' →
      ∀ mark ∈ (rest.take (decimalLength (first :: rest) - 1)).head?,
        mark ∉ ['x', 'X', 'b', 'B'] := by
    intro zero mark head
    rw [List.head?_take] at head
    split at head
    · cases head
    · exact noMark zero mark head
  have unmarked := split_of_noMark stillNoMark
  rw [isBehind]
  refine .ofUnmarked unmarked.1 ends fun isInteger => ?_
  have integral : (suffixOf (first :: rest)).2 = false := by
    cases isFloat : (suffixOf (first :: rest)).2 with
    | false => rfl
    | true => rw [isFloat] at isInteger; cases isInteger
  exact hasDigits_decimal starts integral isText unmarked.2

/-! ### Numbers behind a mark -/

theorem isDigit_suffix {radix : Radix} (char : Char) (letter : char ∈ ['l', 'L']) :
    (radix.isDigit char || char == '_') = false := by
  rcases List.mem_pair.mp letter with rfl | rfl <;> cases radix <;> rfl

theorem isCut_radix {mark : Char} {radix : Radix} (isMarked : radix.isMarked = true)
    (isSplit : ∀ rest, Radix.split ('0' :: mark :: rest) = (radix, rest))
    (valid : (Lexeme.radix radix.isDigit rest).kind ≠ .invalid) :
    IsCut (Lexeme.radix radix.isDigit rest).kind
      ('0' :: (mark :: rest).take (Lexeme.radix radix.isDigit rest).more)
      ((mark :: rest).drop (Lexeme.radix radix.isDigit rest).more) := by
  obtain ⟨some, isGood⟩ := radix_sound ((isJudged_radix _ rest).sound valid)
  rw [isGood]
  have nonempty : rest.take (runLength (fun char => radix.isDigit char || char == '_') rest) ≠ [] :=
    fun nothing => (List.take_eq_nil_iff.mp nothing).elim some fun empty => some (by rw [empty]; rfl)
  have isRun : ∀ char ∈ rest.takeWhile fun char => radix.isDigit char || char == '_',
      (radix.isDigit char || char == '_') = true := fun char => List.mem_takeWhile_imp
  have next := head_drop_runLength (fun char => radix.isDigit char || char == '_') rest
  rw [← take_runLength] at isRun
  generalize runLength (fun char => radix.isDigit char || char == '_') rest = run
    at nonempty isRun next
  change IsCut .integer
    ('0' :: (mark :: rest).take (1 + run + integerSuffix (rest.drop run)))
    ((mark :: rest).drop (1 + run + integerSuffix (rest.drop run)))
  rw [Nat.add_assoc, Nat.add_comm 1, List.take_succ_cons, List.drop_succ_cons, List.take_add,
    ← List.drop_drop]
  have isBody : body ('0' :: mark :: (rest.take run ++
      (rest.drop run).take (integerSuffix (rest.drop run)))) = rest.take run := by
    rw [body, isSplit]
    refine withoutSuffix_append (isSuffix_take _) fun char member letter => ?_
    cases (isDigit_suffix char letter).symm.trans (isRun char member)
  apply IsCut.ofMarked
  · rw [isSplit]
    exact isMarked
  · rw [isBody]
    exact nonempty
  · rw [digits, isBody, isSplit]
    exact isDigit_of_filter isRun
  · rw [isBody, isSplit]
    intro noSuffix char head
    obtain ⟨same, noLetter⟩ := noSuffix_of_take (List.self_eq_append_right.mp noSuffix)
    rw [same] at head
    obtain ⟨noDigit, noUnderscore⟩ := Bool.or_eq_false_iff.mp (next char head)
    refine ⟨noDigit, fun member => ?_⟩
    rcases List.mem_cons.mp member with rfl | letter
    · cases noUnderscore
    · exact noLetter char head letter

/-! ### Numbers at the front of a text -/

theorem isCut_number (starts : StartsNumber first rest)
    (valid : (number first rest).kind ≠ .invalid) :
    IsCut (number first rest).kind (first :: rest.take (number first rest).more)
      (rest.drop (number first rest).more) := by
  by_cases marked : first = '0' ∧ ∃ mark ∈ rest.head?, mark ∈ ['x', 'X', 'b', 'B']
  · obtain ⟨rfl, mark, head, isMark⟩ := marked
    obtain ⟨chars, rfl⟩ := List.head?_eq_some_iff.mp head
    obtain ⟨radix, isMarked, isSplit, isRead⟩ := number_of_radix isMark
    rw [isRead] at valid ⊢
    exact isCut_radix isMarked isSplit valid
  · have noMark : first = '0' → ∀ mark ∈ rest.head?, mark ∉ ['x', 'X', 'b', 'B'] :=
      fun zero mark head isMark => marked ⟨zero, mark, head, isMark⟩
    have isDecimal : number first rest = decimal (first :: rest) := by
      by_cases zero : first = '0'
      · exact number_of_noMark (noMark zero)
      · exact number_of_notZero zero rest
    rw [isDecimal] at valid ⊢
    exact isCut_decimal starts noMark valid

theorem symbol_isNumber (first : Char) (rest : List Char) :
    (symbol first rest).kind.isNumber = false := by
  unfold symbol
  split
  · rfl
  · split <;> rfl

theorem word_isNumber (first : Char) (rest : List Char) :
    (word first rest).kind.isNumber = false := by
  change ((Kind.ofWord? _).getD .identifier).isNumber = false
  unfold Kind.ofWord?
  split
  · rfl
  · split
    · rfl
    · cases Keyword.ofText? _ <;> rfl

/-- A number is read where a digit stands, or a point and a digit. -/
theorem read_of_number (isNumber : (read first rest).kind.isNumber = true) :
    StartsNumber first rest ∧ read first rest = number first rest := by
  have notSymbol (first : Char) (isNumber : (symbol first rest).kind.isNumber = true) : False := by
    rw [symbol_isNumber] at isNumber
    cases isNumber
  unfold read at isNumber ⊢
  split at isNumber
  · cases isNumber
  · cases isNumber
  · rcases kind_quoted rest with isString | isInvalid
    · rw [isString] at isNumber
      cases isNumber
    · rw [isInvalid] at isNumber
      cases isNumber
  · unfold template at isNumber
    split at isNumber <;> cases isNumber
  · split at isNumber
    · rename_i digit
      exact ⟨.inr ⟨rfl, digit⟩, if_pos digit⟩
    · exact (notSymbol _ isNumber).elim
  · split at isNumber
    · rename_i digit
      exact ⟨.inl digit, if_pos digit⟩
    · split at isNumber
      · rw [word_isNumber] at isNumber
        cases isNumber
      · exact (notSymbol _ isNumber).elim

theorem isCut_read (isNumber : (read first rest).kind.isNumber = true) :
    IsCut (read first rest).kind (first :: rest.take (read first rest).more)
      (rest.drop (read first rest).more) := by
  obtain ⟨starts, isRead⟩ := read_of_number isNumber
  rw [isRead] at isNumber ⊢
  exact isCut_number starts (Kind.valid_of_isNumber isNumber)

end Lexeme

/-! ### The numbers of a source -/

/-- What is sure of a token that is a number: it is cut from the source where its span says. -/
def Token.IsCutFrom (token : Token) (source : List Char) : Prop :=
  ∃ front behind, source = front ++ token.lexeme.toList ++ behind ∧
    token.span = Span.behind front token.lexeme.toList ∧
    IsCut token.kind token.lexeme.toList behind

namespace TokenStream

variable {stream : TokenStream} {source front : List Char}

theorem isCutFrom_of_next? (isBehind : stream.IsBehind source front) {token : Token}
    {later : TokenStream} (step : stream.next? = some (token, later))
    (isNumber : token.kind.isNumber = true) : token.IsCutFrom source := by
  obtain ⟨gap, first, rest, text, -, -, rfl, whole, rfl, rfl⟩ := isBehind.lexeme step
  refine ⟨front ++ gap, rest.drop (Lexeme.read first rest).more, ?_, ?_, ?_⟩
  · rwa [String.toList_ofList]
  · rw [String.toList_ofList]
  · rw [String.toList_ofList]
    exact Lexeme.isCut_read isNumber

theorem isCutFrom_of_tokens (isBehind : stream.IsBehind source front) :
    ∀ token ∈ stream.tokens.1, token.kind.isNumber = true → token.IsCutFrom source :=
  forall_tokens _ (fun behind step => isCutFrom_of_next? behind step) (fun _ _ => nofun) isBehind

end TokenStream

/-- Every number of a source is a complete literal, as far as it is checked. One that starts
with neither a zero nor a radix mark ends where it has to, and as an integer it has decimal
digits. Behind a zero the digits are decimal ones. Behind a mark they are those of the radix,
unless there are only underscores, but a part of a name may follow. -/
theorem number_of_tokenize (source : String) {token : Token}
    (inside : token ∈ (tokenize source).1) (isNumber : token.kind.isNumber = true) :
    token.IsCutFrom source.toList := by
  obtain ⟨mark, -, isBehind⟩ := TokenStream.isBehind_ofSource source
  exact TokenStream.isCutFrom_of_tokens isBehind token inside isNumber

/-- An integer with an underscore and a suffix. -/
theorem number_of_tokenize_suffix :
    (⟨.integer, "1_0L", ⟨0, 4, 1, 1⟩⟩ : Token) ∈ (tokenize "1_0L;").1 ∧
      (⟨.integer, "1_0L", ⟨0, 4, 1, 1⟩⟩ : Token).IsCutFrom "1_0L;".toList := by
  have inside : (⟨.integer, "1_0L", ⟨0, 4, 1, 1⟩⟩ : Token) ∈ (tokenize "1_0L;").1 := by
    decide +kernel
  exact ⟨inside, number_of_tokenize "1_0L;" inside rfl⟩

/-- A literal behind a mark is not complete where a letter follows that is no digit of its
radix. It is cut off there, and nothing is reported. -/
theorem not_isComplete_hexName :
    (tokenize "0x1Fg").2 = [] ∧
      ∃ token ∈ (tokenize "0x1Fg").1, token.kind = .integer ∧
        ∃ front behind, "0x1Fg".toList = front ++ token.lexeme.toList ++ behind ∧
          token.span = Span.behind front token.lexeme.toList ∧
          ¬Numeral.IsComplete token.kind token.lexeme.toList behind := by
  have inside : (⟨.integer, "0x1F", ⟨0, 4, 1, 1⟩⟩ : Token) ∈ (tokenize "0x1Fg").1 := by
    decide +kernel
  refine ⟨by decide +kernel, _, inside, rfl, [], ['g'], by decide +kernel, by decide +kernel, ?_⟩
  rintro ⟨ends, -⟩
  cases ends 'g' rfl

/-- Underscores do for digits behind a mark, and any digit does behind a zero. -/
example : (tokenize "0x_ 08").1.map (fun token => (token.kind, token.lexeme)) =
    [(.integer, "0x_"), (.integer, "08"), (.endOfFile, "")] := by
  decide +kernel

end ServiceLang
