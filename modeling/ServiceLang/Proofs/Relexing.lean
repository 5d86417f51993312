import ServiceLang.Proofs.Extents
import ServiceLang.Proofs.Spelling

set_option autoImplicit false

/-! Words that are written one behind the other, without blanks. Each of them is cut off where
it ends if the text behind it does not go on with it. -/

namespace ServiceLang

/-! ### Characters -/

/-- The codes of `$`, `_` and the letters. -/
theorem code_of_isNameStart {char : Char} (starts : isNameStart char = true) :
    char.toNat = 36 ∨ char.toNat = 95 ∨ (65 ≤ char.toNat ∧ char.toNat ≤ 90) ∨
      (97 ≤ char.toNat ∧ char.toNat ≤ 122) := by
  simp only [isNameStart, Char.le_def, UInt32.le_iff_toNat_le, Bool.or_eq_true, Bool.and_eq_true,
    decide_eq_true_eq, beq_iff_eq] at starts
  rcases starts with ((lower | upper) | rfl) | rfl
  · exact .inr (.inr (.inr lower))
  · exact .inr (.inr (.inl upper))
  · exact .inr (.inl rfl)
  · exact .inl rfl

theorem isDigit_of_isNameStart {char : Char} (starts : isNameStart char = true) :
    isDigit char = false := by
  have code := code_of_isNameStart starts
  simp only [isDigit, Char.le_def, UInt32.le_iff_toNat_le, Bool.and_eq_false_iff,
    decide_eq_false_iff_not]
  change ¬ 48 ≤ char.toNat ∨ ¬ char.toNat ≤ 57
  omega

theorem isBlank_of_isNameStart {char : Char} (starts : isNameStart char = true) :
    isBlank char = false := by
  have code := code_of_isNameStart starts
  simp only [isBlank, whiteSpaceRanges, List.any_cons, List.any_nil, Bool.or_false,
    Bool.or_eq_false_iff, Bool.and_eq_false_iff, decide_eq_false_iff_not]
  omega

/-! ### Single lexemes -/

def Kind.Opens (kind : Kind) (first : Char) : Prop :=
  match kind with
  | .identifier | .keyword _ | .boolean | .null => isNameStart first = true
  | .string => first = '"'
  | .template => first = '`'
  | .integer | .floating => isDigit first = true ∨ first = '.'
  | .comment => first = '/'
  | .symbol sign => sign.text.toList.head? = some first
  | .endOfFile => False
  | .invalid => True

/-- The text of the word is one lexeme of its kind, with nothing wrong in it. -/
def Word.IsLexeme (word : Word) : Prop :=
  match word.text.toList with
  | [] => False
  | first :: rest => Lexeme.read first rest = .good word.kind rest.length

instance (word : Word) : Decidable word.IsLexeme := by
  unfold Word.IsLexeme
  split <;> infer_instance

theorem Word.IsLexeme.split {word : Word} (isLexeme : word.IsLexeme) :
    ∃ first rest, word.text.toList = first :: rest ∧
      Lexeme.read first rest = .good word.kind rest.length := by
  unfold IsLexeme at isLexeme
  split at isLexeme
  · contradiction
  · rename_i first rest split
    exact ⟨first, rest, split, isLexeme⟩

/-- No name goes on at the front of this text. -/
def EndsWord (tail : List Char) : Prop :=
  ∀ char ∈ tail.head?, isNamePart char = false


namespace Lexeme

theorem read_of_nameStart {first : Char} (starts : isNameStart first = true) (rest : List Char) :
    read first rest = word first rest := by
  unfold read
  split
  · cases starts
  · cases starts
  · cases starts
  · cases starts
  · cases starts
  · simp [isDigit_of_isNameStart starts, starts]

/-- The kind of a lexeme tells how it starts. -/
theorem opens_word {first : Char} (starts : isNameStart first = true) (rest : List Char) :
    (word first rest).kind.Opens first := by
  change ((Kind.ofWord? _).getD .identifier).Opens first
  unfold Kind.ofWord?
  split
  · exact starts
  · split
    · exact starts
    · cases Keyword.ofText? _ <;> exact starts

theorem opens_symbol (first : Char) (rest : List Char) : (symbol first rest).kind.Opens first := by
  unfold symbol
  split
  · rename_i sign double
    cases rest with
    | nil => cases double
    | cons second rest =>
        change sign.text.toList.head? = some first
        rw [text_of_double? double, String.toList_ofList]
        rfl
  · split
    · rename_i sign single
      change sign.text.toList.head? = some first
      rw [text_of_single? single, String.toList_ofList]
      rfl
    · trivial

theorem opens_decimal {first : Char} (starts : isDigit first = true ∨ first = '.')
    (chars : List Char) : (decimal chars).kind.Opens first := by
  have finished (trailing : Nat) (floats : Bool) (fault : LexicalFault) (past more : Nat) :
      (if trailing ≠ 0 then Lexeme.bad fault past
        else .good (if floats = true then Kind.floating else .integer) more).kind.Opens first := by
    split
    · trivial
    · cases floats <;> exact starts
  unfold decimal
  dsimp only
  split
  · trivial
  · exact finished _ _ _ _ _

theorem opens_number {first : Char} (starts : isDigit first = true ∨ first = '.')
    (rest : List Char) : (number first rest).kind.Opens first := by
  have radixOpens (isRadixDigit : Char → Bool) (digits : List Char) :
      (radix isRadixDigit digits).kind.Opens '0' := by
    unfold radix
    dsimp only
    split
    · trivial
    · exact .inl rfl
  unfold number
  split
  · split
    · exact radixOpens _ _
    · split
      · exact radixOpens _ _
      · exact opens_decimal starts _
  · exact opens_decimal starts _

theorem opens_read (first : Char) (rest : List Char) : (read first rest).kind.Opens first := by
  unfold read
  split
  · exact rfl
  · trivial
  · unfold quoted
    dsimp only
    split
    · exact rfl
    · trivial
  · unfold template
    split
    · exact rfl
    · trivial
  · split
    · exact opens_number (.inr rfl) rest
    · exact opens_symbol _ rest
  · split
    · rename_i digit
      exact opens_number (.inl digit) rest
    · split
      · rename_i starts
        exact opens_word starts rest
      · exact opens_symbol first rest

theorem word_append {first : Char} {rest tail : List Char}
    (all : runLength isNamePart rest = rest.length) (ends : EndsWord tail) :
    word first (rest ++ tail) = word first rest := by
  rw [word, word, runLength_append all ends, all, List.take_left, List.take_length]

theorem quoted_append {rest : List Char} (closed : (stringExtent 0 0 rest).closed = true)
    (tail : List Char) : quoted (rest ++ tail) = quoted rest := by
  rw [quoted, quoted, stringExtent_append closed]

theorem read_of_single {first : Char} {sign : Symbol} {tail : List Char}
    (single : single? first = some sign) (alone : ∀ char ∈ tail.head?, double? first char = none)
    (notSlash : first ≠ '/') (notDot : first ≠ '.') :
    read first tail = .good (.symbol sign) 0 := by
  have isSymbol : read first tail = symbol first tail := by
    unfold single? at single
    split at single
    all_goals first | contradiction | cases single; rfl
  rw [isSymbol, symbol, Option.bind_eq_none_iff.mpr alone]
  simp only [single]

theorem read_byteOrderMark (rest : List Char) :
    read byteOrderMark rest = .bad (.strayCharacter byteOrderMark) 0 := by
  cases rest <;> rfl

end Lexeme

/-! ### Words before a text -/

def Kind.IsWord (kind : Kind) : Prop :=
  ∀ first, kind.Opens first → isNameStart first = true

theorem Kind.isWord_identifier : Kind.identifier.IsWord :=
  fun _ starts => starts

theorem Kind.isWord_keyword (word : Keyword) : (Kind.keyword word).IsWord :=
  fun _ starts => starts

theorem gapLength_of_mark {first : Char} (notBlank : isBlank first = false)
    (notSlash : first ≠ '/') (rest : List Char) : gapLength 0 (first :: rest) = 0 := by
  have visible : ¬ isBlank first = true := Bool.not_eq_true _ ▸ notBlank
  rw [gapLength, if_neg visible]
  rintro body rfl
  contradiction

namespace Word

def StandsBefore (word : Word) (tail : List Char) : Prop :=
  ∃ first rest, word.text.toList = first :: rest ∧ gapLength 0 (first :: (rest ++ tail)) = 0 ∧
    Lexeme.read first (rest ++ tail) = .good word.kind rest.length

variable {tail : List Char}

theorem IsLexeme.starts {word : Word} (isLexeme : word.IsLexeme) (isWord : word.kind.IsWord) :
    ∃ first rest, word.text.toList = first :: rest ∧ isNameStart first = true := by
  obtain ⟨first, rest, split, read⟩ := isLexeme.split
  have opens := Lexeme.opens_read first rest
  rw [read] at opens
  exact ⟨first, rest, split, isWord first opens⟩

/-- A name or a reserved word ends where no name goes on. -/
theorem IsLexeme.standsBefore {word : Word} (isLexeme : word.IsLexeme)
    (isWord : word.kind.IsWord) (ends : EndsWord tail) : word.StandsBefore tail := by
  obtain ⟨first, rest, split, read⟩ := isLexeme.split
  have starts : isNameStart first = true := by
    have opens := Lexeme.opens_read first rest
    rw [read] at opens
    exact isWord first opens
  have notSlash : first ≠ '/' := by
    rintro rfl
    cases starts
  rw [Lexeme.read_of_nameStart starts] at read
  have all : runLength isNamePart rest = rest.length := congrArg Lexeme.more read
  refine ⟨first, rest, split, gapLength_of_mark (isBlank_of_isNameStart starts) notSlash _, ?_⟩
  rw [Lexeme.read_of_nameStart starts, Lexeme.word_append all ends, read]

theorem keyword_isLexeme (word : Keyword) : (Word.keyword word).IsLexeme := by
  cases word <;> decide +kernel

theorem keyword_standsBefore (word : Keyword) (ends : EndsWord tail) :
    (Word.keyword word).StandsBefore tail :=
  (keyword_isLexeme word).standsBefore (Kind.isWord_keyword word) ends

/-- A string ends with its closing quote. -/
theorem IsLexeme.string_standsBefore {text : String} (isLexeme : (Word.string text).IsLexeme)
    (tail : List Char) : (Word.string text).StandsBefore tail := by
  obtain ⟨first, rest, split, read⟩ := isLexeme.split
  have quote : first = '"' := by
    have opens := Lexeme.opens_read first rest
    rwa [read] at opens
  subst quote
  have closed : (stringExtent 0 0 rest).closed = true := by
    by_contra stillOpen
    have kind : (Lexeme.quoted rest).kind = .string := congrArg Lexeme.kind read
    rw [Lexeme.quoted] at kind
    simp only [if_neg stillOpen] at kind
    cases kind
  refine ⟨'"', rest, split, gapLength_of_mark rfl (by decide) _, ?_⟩
  exact (Lexeme.quoted_append closed tail).trans read

theorem symbol_standsBefore (first : Char) {sign : Symbol}
    (single : Lexeme.single? first = some sign)
    (alone : ∀ char ∈ tail.head?, Lexeme.double? first char = none) (notSlash : first ≠ '/')
    (notDot : first ≠ '.') : (Word.symbol sign).StandsBefore tail := by
  have notBlank : isBlank first = false := by
    unfold Lexeme.single? at single
    split at single
    all_goals first | rfl | cases single
  refine ⟨first, [], ?_, gapLength_of_mark notBlank notSlash _, ?_⟩
  · change sign.text.toList = _
    rw [Lexeme.text_of_single? single, String.toList_ofList]
  · exact Lexeme.read_of_single single alone notSlash notDot

/-- Brackets, braces and colons end whatever stands behind them. -/
theorem inert_standsBefore {sign : Symbol}
    (inert : sign ∈ [.leftBracket, .rightBracket, .leftBrace, .rightBrace, .colon])
    (tail : List Char) : (Word.symbol sign).StandsBefore tail := by
  simp only [List.mem_cons, List.not_mem_nil, or_false] at inert
  rcases inert with rfl | rfl | rfl | rfl | rfl
  · exact symbol_standsBefore '[' rfl (fun _ _ => rfl) (by decide) (by decide)
  · exact symbol_standsBefore ']' rfl (fun _ _ => rfl) (by decide) (by decide)
  · exact symbol_standsBefore '\x7b' rfl (fun _ _ => rfl) (by decide) (by decide)
  · exact symbol_standsBefore '\x7d' rfl (fun _ _ => rfl) (by decide) (by decide)
  · exact symbol_standsBefore ':' rfl (fun _ _ => rfl) (by decide) (by decide)

def chars (words : List Word) : List Char :=
  words.flatMap (fun word => word.text.toList)

/-- Words each of which is cut off as it is in front of the others and this text. -/
def Apart : List Word → List Char → Prop
  | [], _ => True
  | word :: rest, tail => word.StandsBefore (chars rest ++ tail) ∧ Apart rest tail

@[simp]
theorem chars_nil : chars [] = [] :=
  rfl

@[simp]
theorem chars_cons (word : Word) (rest : List Word) :
    chars (word :: rest) = word.text.toList ++ chars rest :=
  List.flatMap_cons

@[simp]
theorem chars_append (front back : List Word) : chars (front ++ back) = chars front ++ chars back :=
  List.flatMap_append

/-- The text of words starts with a name start if the first one is a word of its own. -/
theorem IsLexeme.starts_chars {word : Word} (isLexeme : word.IsLexeme) (isWord : word.kind.IsWord)
    (more : List Word) :
    ∃ first rest, chars (word :: more) = first :: rest ∧ isNameStart first = true := by
  obtain ⟨first, rest, split, starts⟩ := isLexeme.starts isWord
  exact ⟨first, rest ++ chars more, by rw [chars_cons, split, List.cons_append], starts⟩

theorem apart_append {front back : List Word} :
    Apart (front ++ back) tail ↔ Apart front (chars back ++ tail) ∧ Apart back tail := by
  induction front with
  | nil => simp [Apart]
  | cons word front ih =>
      rw [List.cons_append, Apart, Apart, ih, chars_append, List.append_assoc, and_assoc]

end Word

namespace TokenStream

open Word (chars Apart)

theorem next?_of_standsBefore {stream : TokenStream} {word : Word} {tail : List Char}
    (stands : word.StandsBefore tail) (ahead : stream.rest = word.text.toList ++ tail) :
    ∃ token later, stream.next? = some (token, later) ∧ token.spelling = word ∧
      later.rest = tail ∧ later.errors = stream.errors := by
  obtain ⟨first, rest, split, noGap, read⟩ := stands
  rw [split, List.cons_append] at ahead
  have skipped : stream.skipGap = stream := by
    rw [skipGap, ahead, noGap]
    rw [← ahead]
    rfl
  have text : String.ofList (first :: rest) = word.text := by
    rw [← split, String.ofList_toList]
  refine ⟨⟨word.kind, word.text, stream.place.span (first :: rest)⟩,
    ⟨stream.place.past (first :: rest), tail, stream.errors⟩, ?_, rfl, rfl, rfl⟩
  rw [next?, skipped]
  simp only [ahead, read, Lexeme.good, List.take_left, List.drop_left, text, lexemeErrors,
    List.map_nil, Option.toList_none, List.append_nil]

theorem next?_of_nil {stream : TokenStream} (nothing : stream.rest = []) : stream.next? = none := by
  have still : stream.skipGap.rest = [] := by
    rw [skipGap, nothing]
    rfl
  rw [next?]
  simp only [still]

theorem tokens_of_apart {stream : TokenStream} {words : List Word} (apart : Apart words [])
    (ahead : stream.rest = chars words) :
    stream.tokens.1.map Token.spelling = words ++ [⟨.endOfFile, ""⟩] ∧
      stream.tokens.2 = stream.errors := by
  fun_induction tokens stream generalizing words with
  | case1 stream token later step tokens errors cut ih =>
      cases words with
      | nil =>
          rw [next?_of_nil ahead] at step
          cases step
      | cons word words =>
          rw [Word.chars_cons] at ahead
          obtain ⟨stands, apart⟩ := apart
          rw [List.append_nil] at stands
          obtain ⟨first, behind, sameStep, same, rest, noErrors⟩ :=
            next?_of_standsBefore stands ahead
          rw [step] at sameStep
          cases sameStep
          obtain ⟨spelled, reported⟩ := ih apart rest
          rw [cut] at spelled reported
          constructor
          · rw [List.map_cons, same, spelled, List.cons_append]
          · exact reported.trans noErrors
  | case2 stream done =>
      cases words with
      | nil => exact ⟨rfl, rfl⟩
      | cons word words =>
          obtain ⟨stands, _⟩ := apart
          rw [List.append_nil] at stands
          obtain ⟨first, behind, step, _⟩ := next?_of_standsBefore stands ahead
          rw [done] at step
          cases step

end TokenStream

/-- Words that stand apart are cut apart again. -/
theorem tokenize_of_apart {words : List Word} {source : String} (apart : Word.Apart words [])
    (spelled : source.toList = Word.chars words) :
    (tokenize source).1.map Token.spelling = words ++ [⟨.endOfFile, ""⟩] ∧
      (tokenize source).2 = [] := by
  have start : (TokenStream.ofSource source).rest = Word.chars words ∧
      (TokenStream.ofSource source).errors = [] := by
    rw [TokenStream.ofSource, spelled]
    split
    · rename_i nothing
      exact ⟨nothing.symm, rfl⟩
    · rename_i first rest more
      split
      · rename_i mark
        cases words with
        | nil => cases more
        | cons word words =>
            obtain ⟨⟨other, others, split, _, read⟩, _⟩ := apart
            rw [Word.chars_cons, split, List.cons_append] at more
            cases more
            rw [mark, Lexeme.read_byteOrderMark] at read
            cases congrArg Lexeme.fault read
      · exact ⟨more.symm, rfl⟩
  have cut := TokenStream.tokens_of_apart apart start.1
  rw [start.2] at cut
  exact cut

end ServiceLang
