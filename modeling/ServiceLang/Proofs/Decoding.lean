import Mathlib.Data.List.Pairwise
import ServiceLang.Proofs.Escapes
import ServiceLang.Proofs.Relexing

set_option autoImplicit false

/-! What a string literal holds. It is a row of characters that stand for themselves and of
escapes, and nothing is warned of exactly if each of these escapes is one that can be decoded, or
lacks digits behind a `u`. -/

namespace ServiceLang

/-! ### Texts between quotes -/

def standsForItself (char : Char) : Bool :=
  char != '"' && char != '\\' && !isLineEnd char

inductive IsEscape : List Char → Prop where
  | letter {char : Char} :
      char ∈ ['b', 't', 'n', 'f', 'r', '"', '\'', '\\'] → IsEscape [char]
  | octal {digits : List Char} :
      1 ≤ digits.length → digits.length ≤ 3 →
      (∀ digit ∈ digits, isOctalDigit digit = true) → IsEscape digits
  | unicode {marks : Nat} {digits : List Char} :
      1 ≤ marks → digits.length = 4 → (∀ digit ∈ digits, isHexDigit digit = true) →
      IsEscape (List.replicate marks 'u' ++ digits)

/-- What lacks digits behind its marks, so that no character is named. -/
inductive IsShortEscape : List Char → Prop where
  | unicode {marks : Nat} {digits : List Char} :
      1 ≤ marks → digits.length < 4 → (∀ digit ∈ digits, isHexDigit digit = true) →
      IsShortEscape (List.replicate marks 'u' ++ digits)

inductive IsRow (Escapes : List Char → Prop) : List Char → Prop where
  | nil : IsRow Escapes []
  | plain {char : Char} {rest : List Char} :
      standsForItself char = true → IsRow Escapes rest → IsRow Escapes (char :: rest)
  | escape {body rest : List Char} :
      Escapes body → IsRow Escapes rest → IsRow Escapes ('\\' :: (body ++ rest))

def IsDecodable (text : List Char) : Prop :=
  IsRow IsEscape text

/-- A text of which nothing is warned. -/
def IsAccepted (text : List Char) : Prop :=
  IsRow (fun body => IsEscape body ∨ IsShortEscape body) text

/-- Behind a backslash an escape starts. -/
theorem IsRow.split {Escapes : List Char → Prop} {text : List Char}
    (row : IsRow Escapes ('\\' :: text)) :
    ∃ body rest, Escapes body ∧ IsRow Escapes rest ∧ text = body ++ rest := by
  cases row with
  | plain stands _ => cases stands
  | escape isEscape row => exact ⟨_, _, isEscape, row, rfl⟩

/-! ### Reading an escape -/

theorem among_of_mem_take {among : Char → Bool} {chars : List Char} {count : Nat}
    (within : count ≤ runLength among chars) :
    ∀ char ∈ chars.take count, among char = true := by
  intro char member
  have inside := List.take_subset_take_left chars within member
  rw [take_runLength] at inside
  exact List.mem_takeWhile_imp inside

theorem take_marks (chars : List Char) :
    chars.take (runLength (· == 'u') chars) =
      List.replicate (runLength (· == 'u') chars) 'u' := by
  refine List.eq_replicate_iff.mpr ⟨List.length_take_of_le (runLength_le _ _), ?_⟩
  intro char member
  exact eq_of_beq (among_of_mem_take (Nat.le_refl (runLength (· == 'u') chars)) char member)

theorem runLength_of_all {among : Char → Bool} {chars : List Char}
    (all : ∀ char ∈ chars, among char = true) : runLength among chars = chars.length := by
  rw [runLength, List.takeWhile_eq_self_iff.mpr all]

theorem standsForItself_of_isHexDigit {char : Char} (digit : isHexDigit char = true) :
    standsForItself char = true := by
  by_contra other
  simp only [standsForItself, isLineEnd, Bool.and_eq_true, Bool.not_eq_true', bne_iff_ne,
    Bool.or_eq_false_iff, beq_eq_false_iff_ne, not_and_or, not_not] at other
  rcases other with (rfl | rfl) | rfl | rfl <;> cases digit

theorem isHexDigit_of_isOctalDigit {char : Char} (digit : isOctalDigit char = true) :
    isHexDigit char = true := by
  simp only [isOctalDigit, Bool.and_eq_true, decide_eq_true_eq] at digit
  have isDigit : isDigit char = true := by
    simp only [isDigit, Bool.and_eq_true, decide_eq_true_eq]
    exact ⟨digit.1, le_trans digit.2 (by decide)⟩
  rw [isHexDigit, isDigit]
  rfl

/-- An escape that starts with this many marks and digits can be decoded, or lacks digits. -/
theorem isEscape_or_isShortEscape {marks : Nat} {digits : List Char} (marked : 1 ≤ marks)
    (few : digits.length ≤ 4) (areDigits : ∀ digit ∈ digits, isHexDigit digit = true) :
    IsEscape (List.replicate marks 'u' ++ digits) ∨
      IsShortEscape (List.replicate marks 'u' ++ digits) := by
  rcases Nat.eq_or_lt_of_le few with all | lacking
  · exact .inl (.unicode marked all areDigits)
  · exact .inr (.unicode marked lacking areDigits)

namespace Escape

/-- What is taken for an escape is one, or lacks digits. Otherwise nothing is taken, since the
string ends here. -/
theorem read_sound {chars : List Char} {length : Nat} (known : read chars = .known length) :
    (IsEscape (chars.take length) ∨ IsShortEscape (chars.take length)) ∨
      length = 0 ∧ ∀ char ∈ chars.head?, isLineEnd char = true := by
  cases chars with
  | nil =>
      cases known
      exact .inr ⟨rfl, nofun⟩
  | cons char rest =>
      rw [read] at known
      split at known
      · rename_i letter
        cases known
        exact .inl (.inl (.letter letter))
      split at known
      · rename_i octal
        cases known
        rw [Nat.add_comm, List.take_succ_cons]
        refine .inl (.inl (.octal (Nat.le_add_left _ _) ?_ ?_))
        · rw [List.length_cons, List.length_take]
          omega
        · intro digit member
          rcases List.mem_cons.mp member with rfl | behind
          · exact octal
          · exact among_of_mem_take (Nat.min_le_right _ _) digit behind
      split at known
      · rename_i mark
        subst mark
        cases known
        rw [Nat.add_assoc, Nat.add_comm, List.take_succ_cons, List.take_add, take_marks,
          ← List.cons_append, ← List.replicate_succ]
        refine .inl (isEscape_or_isShortEscape (Nat.le_add_left _ _) ?_ ?_)
        · rw [List.length_take]
          omega
        · exact among_of_mem_take (Nat.min_le_right _ _)
      split at known
      · rename_i lineEnd
        cases known
        refine .inr ⟨rfl, fun other head => ?_⟩
        cases head
        exact lineEnd
      · cases known

theorem read_octal {digit : Char} (isDigit : isOctalDigit digit = true) (rest : List Char) :
    read (digit :: rest) = .known (1 + min 2 (runLength isOctalDigit rest)) := by
  rw [read, if_neg, if_pos isDigit]
  intro letter
  simp only [List.mem_cons, List.not_mem_nil, or_false] at letter
  rcases letter with rfl | rfl | rfl | rfl | rfl | rfl | rfl | rfl <;> cases isDigit

/-- Behind the marks the digits are counted. -/
theorem read_marks (marks : Nat) (rest : List Char) :
    read (List.replicate (marks + 1) 'u' ++ rest) =
      .known (marks + 1 + (runLength (· == 'u') rest +
        min 4 (runLength isHexDigit (rest.drop (runLength (· == 'u') rest))))) := by
  have run : runLength (· == 'u') (List.replicate marks 'u' ++ rest) =
      marks + runLength (· == 'u') rest := by
    have all : runLength (· == 'u') (List.replicate marks 'u') = marks := by
      rw [runLength_of_all, List.length_replicate]
      intro char member
      rw [List.eq_of_mem_replicate member]
      rfl
    rw [runLength_append_eq, List.length_replicate, if_pos all]
  have dropped : (List.replicate marks 'u' ++ rest).drop (marks + runLength (· == 'u') rest) =
      rest.drop (runLength (· == 'u') rest) := by
    rw [← List.drop_drop, List.drop_left' (List.length_replicate ..)]
  rw [List.replicate_succ, List.cons_append, read, if_neg (by decide), if_neg (by decide),
    if_pos rfl]
  dsimp only
  rw [run, dropped, Nat.add_assoc, Nat.add_comm 1, Nat.add_assoc, Nat.add_assoc]
  congr 1
  omega

/-- Where digits stand behind the marks, those are counted. -/
theorem read_complete_unicode {marks : Nat} {digits : List Char} (marked : 1 ≤ marks)
    (few : digits.length ≤ 4) (areDigits : ∀ digit ∈ digits, isHexDigit digit = true)
    (tail : List Char) :
    ∃ more, read (List.replicate marks 'u' ++ digits ++ tail) =
        .known ((List.replicate marks 'u' ++ digits).length + more) ∧
      more ≤ tail.length ∧ ∀ char ∈ tail.take more, standsForItself char = true := by
  obtain ⟨others, rfl⟩ := Nat.exists_eq_add_of_le' marked
  rw [List.append_assoc, read_marks, List.length_append, List.length_replicate]
  cases digits with
  | nil =>
      -- Marks behind the marks go on with them, so that digits behind these may follow.
      have shorter := runLength_le isHexDigit (tail.drop (runLength (· == 'u') tail))
      have within := runLength_le (· == 'u') tail
      rw [List.length_drop] at shorter
      refine ⟨_, rfl, ?_, ?_⟩
      · rw [List.nil_append]
        omega
      · rw [List.nil_append, List.take_add]
        intro char member
        rcases List.mem_append.mp member with mark | digit
        · have isMark := among_of_mem_take (Nat.le_refl (runLength (· == 'u') _)) char mark
          rw [eq_of_beq isMark]
          rfl
        · exact standsForItself_of_isHexDigit
            (among_of_mem_take (Nat.min_le_right _ _) char digit)
  | cons first digits =>
      have noMark : runLength (· == 'u') (first :: digits ++ tail) = 0 := by
        refine runLength_of_head fun char head => ?_
        cases head
        refine beq_false_of_ne fun same => ?_
        have isDigit := areDigits first List.mem_cons_self
        rw [same] at isDigit
        cases isDigit
      rw [noMark, List.drop_zero, runLength_append_eq, if_pos (runLength_of_all areDigits)]
      refine ⟨min (4 - (first :: digits).length) (runLength isHexDigit tail), ?_, ?_, ?_⟩
      · congr 1
        omega
      · exact le_trans (Nat.min_le_right _ _) (runLength_le _ _)
      · intro char member
        exact standsForItself_of_isHexDigit
          (among_of_mem_take (Nat.min_le_right _ _) char member)

/-- An escape is read to its end or, where marks and digits follow, on to the end of these. -/
theorem read_complete {body : List Char} (isAccepted : IsEscape body ∨ IsShortEscape body)
    (tail : List Char) : ∃ more, read (body ++ tail) = .known (body.length + more) ∧
      more ≤ tail.length ∧ ∀ char ∈ tail.take more, standsForItself char = true := by
  rcases isAccepted with (letter | ⟨some, few, areDigits⟩ | ⟨marked, all, areDigits⟩) |
    ⟨marked, lacking, areDigits⟩
  · refine ⟨0, ?_, Nat.zero_le _, nofun⟩
    rw [List.singleton_append, read, if_pos letter]
    rfl
  · cases body with
    | nil => cases some
    | cons first digits =>
        obtain ⟨isFirst, areOthers⟩ := List.forall_mem_cons.mp areDigits
        refine ⟨min (2 - digits.length) (runLength isOctalDigit tail), ?_, ?_, ?_⟩
        · rw [List.cons_append, read_octal isFirst, runLength_append_eq,
            if_pos (runLength_of_all areOthers)]
          rw [List.length_cons] at few ⊢
          congr 1
          omega
        · exact le_trans (Nat.min_le_right _ _) (runLength_le _ _)
        · intro char member
          exact standsForItself_of_isHexDigit (isHexDigit_of_isOctalDigit
            (among_of_mem_take (Nat.min_le_right _ _) char member))
  · exact read_complete_unicode marked (Nat.le_of_eq all) areDigits tail
  · exact read_complete_unicode marked (Nat.le_of_lt lacking) areDigits tail

end Escape

/-! ### Reading a string -/

/-- Characters that stand for themselves can be taken off the front of a row. -/
theorem IsAccepted.drop {text : List Char} {count : Nat} (accepted : IsAccepted text)
    (stand : ∀ char ∈ text.take count, standsForItself char = true) :
    IsAccepted (text.drop count) := by
  induction count generalizing text with
  | zero => exact accepted
  | succ count ih =>
      cases accepted with
      | nil => exact .nil
      | plain _ rest =>
          exact ih rest fun char member => stand char (List.mem_cons_of_mem _ member)
      | escape _ _ => cases stand '\\' List.mem_cons_self

/-- Within a text of which the front stands for itself, no quote is taken. -/
theorem length_of_stand {text back : List Char} {count : Nat}
    (stand : ∀ char ∈ (text ++ '"' :: back).take count, standsForItself char = true) :
    count ≤ text.length := by
  by_contra longer
  have inside : '"' ∈ (text ++ '"' :: back).take count := by
    obtain ⟨more, rfl⟩ := Nat.exists_eq_add_of_lt (Nat.lt_of_not_le longer)
    rw [Nat.add_assoc, List.take_length_add_append]
    exact List.mem_append_right _ List.mem_cons_self
  cases stand '"' inside

/-- Nothing is unknown in a row of characters and escapes. -/
theorem unknown_of_isAccepted {text : List Char} (back : List Char) (index : Nat) {skip : Nat}
    (within : skip ≤ text.length) (accepted : IsAccepted (text.drop skip)) :
    (stringExtent index skip (text ++ '"' :: back)).unknown = [] := by
  induction text generalizing index skip with
  | nil =>
      obtain rfl : skip = 0 := Nat.le_zero.mp within
      rfl
  | cons char text ih =>
      cases skip with
      | succ skip => exact ih (index + 1) (Nat.le_of_succ_le_succ within) accepted
      | zero =>
          rw [List.drop_zero] at accepted
          rw [List.cons_append, stringExtent]
          cases accepted with
          | plain stands rest =>
              simp only [standsForItself, Bool.and_eq_true, Bool.not_eq_true', bne_iff_ne]
                at stands
              obtain ⟨⟨notQuote, notEscape⟩, notEnd⟩ := stands
              rw [if_neg (by simp [notEnd]), if_neg notQuote, if_neg notEscape]
              exact ih (index + 1) (Nat.zero_le _) rest
          | @escape body rest isAccepted others =>
              obtain ⟨more, known, -, stand⟩ :=
                Escape.read_complete isAccepted (rest ++ '"' :: back)
              have few := length_of_stand stand
              rw [if_neg (by decide), if_neg (by decide), if_pos rfl, List.append_assoc, known]
              rw [List.append_assoc] at ih
              refine ih (index + 1) ?_ ?_
              · rw [List.length_append]
                omega
              · rw [← List.drop_drop, List.drop_left]
                refine IsAccepted.drop others fun char member => stand char ?_
                rw [List.take_append_of_le_length few]
                exact member

theorem closed_of_lineEnd {index : Nat} {chars : List Char}
    (ends : ∀ char ∈ chars.head?, isLineEnd char = true) :
    (stringExtent index 0 chars).closed = false := by
  cases chars with
  | nil => rfl
  | cons char rest =>
      rw [stringExtent, if_pos (ends char rfl)]

/-- A string that is closed is cut off behind its first quote that belongs to no escape. What
stands in front of this is a row of characters and escapes, unless some escape is unknown. -/
theorem row_of_stringExtent {index skip : Nat} {chars : List Char}
    (closed : (stringExtent index skip chars).closed = true) :
    ∃ skipped text back, skipped.length = skip ∧ chars = skipped ++ (text ++ '"' :: back) ∧
      (stringExtent index skip chars).length = index + skip + text.length + 1 ∧
      ((stringExtent index skip chars).unknown = [] → IsAccepted text) := by
  fun_induction stringExtent index skip chars with
  | case1 | case3 => cases closed
  | case2 index skip char rest ih =>
      obtain ⟨skipped, text, back, size, split, length, row⟩ := ih closed
      refine ⟨char :: skipped, text, back, congrArg (· + 1) size, congrArg (char :: ·) split, ?_,
        row⟩
      rw [length]
      omega
  | case4 index rest => exact ⟨[], [], rest, rfl, rfl, rfl, fun _ => .nil⟩
  | case5 index rest length known notEnd notQuote ih =>
      obtain ⟨skipped, text, back, size, split, extent, row⟩ := ih closed
      refine ⟨[], '\\' :: (skipped ++ text), back, rfl, ?_, ?_, fun noneUnknown => ?_⟩
      · rw [split]
        simp only [List.nil_append, List.cons_append, List.append_assoc]
      · rw [extent, List.length_cons, List.length_append, size]
        omega
      · rcases Escape.read_sound known with isAccepted | ⟨rfl, atEnd⟩
        · rw [split, ← size, List.take_left] at isAccepted
          exact .escape isAccepted (row noneUnknown)
        · rw [closed_of_lineEnd atEnd] at closed
          cases closed
  | case6 index rest other unknown tail notEnd notQuote ih =>
      obtain ⟨skipped, text, back, size, split, extent, -⟩ := ih closed
      refine ⟨[], '\\' :: (skipped ++ text), back, rfl, ?_, ?_,
        fun noneUnknown => absurd noneUnknown (List.cons_ne_nil _ _)⟩
      · rw [split]
        simp only [List.nil_append, List.cons_append, List.append_assoc]
      · change tail.length = _
        rw [extent, List.length_cons, List.length_append, size]
        omega
  | case7 index char rest notEnd notQuote notEscape ih =>
      obtain ⟨skipped, text, back, size, split, extent, row⟩ := ih closed
      obtain rfl := List.length_eq_zero_iff.mp size
      refine ⟨[], char :: text, back, rfl, congrArg (char :: ·) split, ?_, fun noneUnknown => ?_⟩
      · rw [extent, List.length_cons]
        omega
      · refine .plain ?_ (row noneUnknown)
        simp [standsForItself, notEnd, notQuote, notEscape]

/-- A string literal has quotes around its text, and its escapes are known exactly if the text is
accepted. -/
theorem Lexeme.quotes_of_read {first : Char} {rest : List Char}
    (isString : (read first rest).kind = .string) :
    ∃ text, first :: rest.take (read first rest).more = '"' :: (text ++ ['"']) ∧
      ((read first rest).unknownEscapes = [] ↔ IsAccepted text) := by
  have opens := opens_read first rest
  rw [isString] at opens
  obtain rfl : first = '"' := opens
  change (quoted rest).kind = .string at isString
  change ∃ text, '"' :: rest.take (quoted rest).more = _ ∧ ((quoted rest).unknownEscapes = [] ↔ _)
  rw [quoted_more, quoted_unknownEscapes, List.map_eq_nil_iff]
  obtain ⟨skipped, text, back, size, rfl, length, row⟩ :=
    row_of_stringExtent (closed_of_kind_quoted isString)
  obtain rfl := List.length_eq_zero_iff.mp size
  refine ⟨text, ?_, row, unknown_of_isAccepted back 0 (Nat.zero_le _)⟩
  rw [length, List.nil_append, Nat.zero_add, List.take_length_add_append]
  rfl

/-! ### The strings of a source -/

def Token.Quotes (token : Token) (text : List Char) : Prop :=
  token.lexeme.toList = '"' :: (text ++ ['"'])

theorem Token.Quotes.unique {token : Token} {text other : List Char} (quotes : token.Quotes text)
    (quotesToo : token.Quotes other) : text = other :=
  List.append_cancel_right (List.cons.inj (quotes.symm.trans quotesToo)).2

/-- An escape in the token is unknown. -/
def Token.IsWarnedOf (token : Token) (errors : List LexicalError) : Prop :=
  ∃ problem ∈ errors, (∃ char, problem.fault = .unknownEscape char) ∧
    token.span.contains problem.span = true

/-- What is met in a token: errors that it is no token, or warnings of its escapes. In a string
there is something to warn of exactly if its text is not accepted. -/
structure Token.Meets (source : List Char) (token : Token) (errors : List LexicalError) : Prop where
  judged : ∀ problem ∈ errors, problem.severity = .error ∨ problem.WarnsIn source token
  quotes : token.kind = .string → ∃ text, token.Quotes text ∧ (errors = [] ↔ IsAccepted text) ∧
    ∀ problem ∈ errors, problem.severity = .warning

namespace TokenStream

variable {stream : TokenStream} {source front : List Char}

theorem meets_of_next? (isBehind : stream.IsBehind source front) {token : Token}
    {later : TokenStream} (step : stream.next? = some (token, later)) :
    ∃ met, later.errors = stream.errors ++ met ∧ token.Meets source met := by
  obtain ⟨gap, first, rest, chars, -, -, rfl, whole, rfl, rfl⟩ := isBehind.lexeme step
  refine ⟨_, rfl, warnsIn_of_lexemeErrors rfl whole _, fun isString => ?_⟩
  obtain ⟨text, isText, accepted⟩ := Lexeme.quotes_of_read isString
  have noFault : (Lexeme.read first rest).fault = none :=
    (Lexeme.isJudged_read first rest).sound fun invalid => nomatch isString.symm.trans invalid
  rw [lexemeErrors, noFault, Option.toList_none, List.map_nil, List.append_nil]
  refine ⟨text, String.toList_ofList.trans isText, List.map_eq_nil_iff.trans accepted, ?_⟩
  intro problem member
  obtain ⟨escape, -, rfl⟩ := List.mem_map.mp member
  rfl

/-- All that is met in a source is met in its tokens, token by token. -/
theorem meets_of_tokens (isBehind : stream.IsBehind source front) :
    ∃ pairs : List (Token × List LexicalError),
      (∀ pair ∈ pairs, pair.1.Meets source pair.2) ∧ stream.tokens.1 = pairs.map Prod.fst ∧
        stream.tokens.2 = stream.errors ++ pairs.flatMap Prod.snd := by
  obtain ⟨pairs, meets, areTokens, areErrors, -⟩ := exists_ledger (Token.Meets source)
    (fun behind step => meets_of_next? behind step) (fun _ _ => ⟨nofun, nofun⟩) isBehind
  exact ⟨pairs, meets, areTokens, areErrors⟩

end TokenStream

/-- Two tokens of a source are one, or stand one behind the other. -/
theorem apart_of_tokenize {source : String} {token other : Token}
    (inside : token ∈ (tokenize source).1) (insideToo : other ∈ (tokenize source).1) :
    token = other ∨ token.span.stop ≤ other.span.start ∨ other.span.stop ≤ token.span.start := by
  obtain ⟨mark, -, isBehind⟩ := TokenStream.isBehind_ofSource source
  have ordered := isBehind.tokens.1.ordered
  exact List.Pairwise.forall_of_forall_of_flip
    (R := fun left right : Token => left = right ∨ left.span.stop ≤ right.span.start ∨
      right.span.stop ≤ left.span.start)
    (fun _ _ => .inl rfl) (ordered.imp fun before => .inr (.inl before.2))
    (ordered.imp fun before => .inr (.inr before.2)) inside insideToo

/-- What is met in a string warns of it. -/
theorem Token.Meets.isWarnedOf {source : List Char} {token : Token} {errors : List LexicalError}
    (meets : token.Meets source errors) (isString : token.kind = .string) (some : errors ≠ []) :
    token.IsWarnedOf errors := by
  obtain ⟨-, -, -, warnings⟩ := meets.quotes isString
  obtain ⟨problem, met⟩ := List.exists_mem_of_ne_nil _ some
  rcases meets.judged problem met with isError | warns
  · cases (warnings problem met).symm.trans isError
  · obtain ⟨char, isUnknown, -⟩ := warns.isEscape
    obtain ⟨starts, -, stops⟩ := warns.within
    refine ⟨problem, met, ⟨char, isUnknown⟩, ?_⟩
    simp only [Span.contains, Bool.and_eq_true, decide_eq_true_eq]
    exact ⟨Nat.le_of_lt starts, stops⟩

/-- A token that is warned of meets the warning itself, since no other one reaches into it. -/
theorem Token.Meets.eq_of_contains {source : String} {token other : Token}
    {errors : List LexicalError} {problem : LexicalError} {char : Char}
    (meets : other.Meets source.toList errors) (met : problem ∈ errors)
    (isUnknown : problem.fault = .unknownEscape char)
    (inside : token ∈ (tokenize source).1) (insideToo : other ∈ (tokenize source).1)
    (within : token.span.contains problem.span = true) : token = other := by
  rcases meets.judged problem met with isError | warns
  · rw [LexicalError.severity, isUnknown] at isError
    cases isError
  · obtain ⟨starts, some, stops⟩ := warns.within
    simp only [Span.contains, Bool.and_eq_true, decide_eq_true_eq] at within
    rcases apart_of_tokenize inside insideToo with same | before | behind
    · exact same
    · omega
    · omega

/-- Nothing in a string literal is warned of exactly if it is a row of characters that stand for
themselves and of escapes, where an escape can be decoded or is a `u` with too few digits. -/
theorem not_isWarnedOf_iff (source : String) {token : Token} (inside : token ∈ (tokenize source).1)
    (isString : token.kind = .string) :
    ∃ text, token.Quotes text ∧ (¬ token.IsWarnedOf (tokenize source).2 ↔ IsAccepted text) := by
  obtain ⟨mark, -, isBehind⟩ := TokenStream.isBehind_ofSource source
  obtain ⟨pairs, meets, areTokens, areErrors⟩ := TokenStream.meets_of_tokens isBehind
  rw [TokenStream.errors_ofSource, List.nil_append] at areErrors
  obtain ⟨⟨token, own⟩, member, rfl⟩ := List.mem_map.mp (areTokens ▸ inside)
  obtain ⟨text, quotes, accepted, -⟩ := (meets _ member).quotes isString
  refine ⟨text, quotes, ?_⟩
  rw [← accepted, tokenize, areErrors]
  constructor
  · intro notWarned
    by_contra some
    obtain ⟨problem, met, isUnknown, within⟩ := (meets _ member).isWarnedOf isString some
    exact notWarned ⟨problem, List.mem_flatMap.mpr ⟨_, member, met⟩, isUnknown, within⟩
  · rintro nothing ⟨problem, met, ⟨char, isUnknown⟩, within⟩
    obtain ⟨⟨other, others⟩, memberToo, metToo⟩ := List.mem_flatMap.mp met
    have insideToo : other ∈ (tokenize source).1 := areTokens ▸ List.mem_map_of_mem memberToo
    -- Tokens do not overlap, so a warning that lies within the token was met in it.
    obtain rfl : token = other :=
      (meets _ memberToo).eq_of_contains metToo isUnknown inside insideToo within
    obtain ⟨textToo, quotesToo, acceptedToo, -⟩ := (meets _ memberToo).quotes isString
    obtain rfl : text = textToo := quotes.unique quotesToo
    rw [acceptedToo.mpr (accepted.mp nothing)] at metToo
    cases metToo

/-- A plain text with an escape of each form. -/
theorem not_isWarnedOf_iff_escapes :
    (⟨.string, "\"a\\t\\12\\uu00e9\"", ⟨0, 15, 1, 1⟩⟩ : Token) ∈
        (tokenize "\"a\\t\\12\\uu00e9\"").1 ∧
      ∃ text, (⟨.string, "\"a\\t\\12\\uu00e9\"", ⟨0, 15, 1, 1⟩⟩ : Token).Quotes text ∧
        (¬ (⟨.string, "\"a\\t\\12\\uu00e9\"", ⟨0, 15, 1, 1⟩⟩ : Token).IsWarnedOf
          (tokenize "\"a\\t\\12\\uu00e9\"").2 ↔ IsAccepted text) := by
  have inside : (⟨.string, "\"a\\t\\12\\uu00e9\"", ⟨0, 15, 1, 1⟩⟩ : Token) ∈
      (tokenize "\"a\\t\\12\\uu00e9\"").1 := by
    decide +kernel
  exact ⟨inside, not_isWarnedOf_iff _ inside rfl⟩

/-- Two digits behind a `u` name no character, and nothing is warned of. -/
theorem not_isDecodable_shortUnicode :
    (tokenize "\"\\u12\"").2 = [] ∧
      ∃ token ∈ (tokenize "\"\\u12\"").1, token.kind = .string ∧
        ∃ text, token.Quotes text ∧ ¬ IsDecodable text := by
  refine ⟨by decide +kernel, ⟨.string, "\"\\u12\"", ⟨0, 6, 1, 1⟩⟩, by decide +kernel, rfl,
    ['\\', 'u', '1', '2'], String.toList_ofList, fun row => ?_⟩
  obtain ⟨body, rest, isEscape, -, split⟩ := row.split
  rcases isEscape with letter | ⟨some, -, areDigits⟩ | ⟨marked, all, -⟩
  · obtain ⟨same, -⟩ := List.cons.inj split
    rw [← same] at letter
    revert letter
    decide
  · cases body with
    | nil => cases some
    | cons first digits =>
        obtain ⟨same, -⟩ := List.cons.inj split
        have isDigit := areDigits first List.mem_cons_self
        rw [← same] at isDigit
        cases isDigit
  · have sizes := congrArg List.length split
    simp only [List.length_append, List.length_replicate, List.length_cons, List.length_nil]
      at sizes
    omega

end ServiceLang
