import ServiceLang.Lexical.Stream
import ServiceLang.Proofs.Words

set_option autoImplicit false

/-! Tokens cut from a source are spelled as their kind is written. -/

namespace ServiceLang

def Token.spelling (token : Token) : Word :=
  ⟨token.kind, token.lexeme⟩

/-- The text is the one of the kind, if that has only one. -/
def Kind.IsSpelled (kind : Kind) (text : String) : Prop :=
  (Word.mk kind text).normal = ⟨kind, text⟩

namespace Kind

theorem isSpelled_keyword {word : Keyword} {text : String} (same : word.text = text) :
    (Kind.keyword word).IsSpelled text := by
  rw [← same]
  rfl

theorem isSpelled_symbol {sign : Symbol} {text : String} (same : sign.text = text) :
    (Kind.symbol sign).IsSpelled text := by
  rw [← same]
  rfl

theorem isSpelled_of_ofWord? {text : String} {kind : Kind} (found : ofWord? text = some kind) :
    kind.IsSpelled text := by
  unfold ofWord? at found
  split at found
  · rename_i truth
    cases found
    rcases (Bool.or_eq_true _ _).mp truth with yes | no
    · rw [beq_iff_eq.mp yes]
      rfl
    · rw [beq_iff_eq.mp no]
      rfl
  · split at found
    · rename_i isNull
      cases found
      rw [beq_iff_eq.mp isNull]
      rfl
    · obtain ⟨word, isWord, rfl⟩ := Option.map_eq_some_iff.mp found
      have same := List.find?_some isWord
      exact isSpelled_keyword (beq_iff_eq.mp same)

end Kind

namespace Lexeme

def textOf (lexeme : Lexeme) (first : Char) (rest : List Char) : String :=
  String.ofList (first :: rest.take lexeme.more)

theorem word_isSpelled (first : Char) (rest : List Char) :
    (word first rest).kind.IsSpelled ((word first rest).textOf first rest) := by
  change ((Kind.ofWord? _).getD .identifier).IsSpelled _
  cases found : Kind.ofWord? (String.ofList (first :: rest.take (runLength isNamePart rest))) with
  | none => rfl
  | some kind => exact Kind.isSpelled_of_ofWord? found

theorem text_of_single? {char : Char} {sign : Symbol} (found : single? char = some sign) :
    sign.text = String.ofList [char] := by
  unfold single? at found
  split at found <;> cases found <;> rfl

theorem text_of_double? {first second : Char} {sign : Symbol}
    (found : double? first second = some sign) : sign.text = String.ofList [first, second] := by
  unfold double? at found
  split at found <;> cases found <;> rfl

theorem symbol_isSpelled (first : Char) (rest : List Char) :
    (symbol first rest).kind.IsSpelled ((symbol first rest).textOf first rest) := by
  unfold symbol
  split
  · rename_i sign double
    cases rest with
    | nil => cases double
    | cons second rest => exact Kind.isSpelled_symbol (text_of_double? double)
  · split
    · rename_i sign single
      exact Kind.isSpelled_symbol (text_of_single? single)
    · rfl

theorem decimal_isSpelled (chars : List Char) (text : String) :
    (decimal chars).kind.IsSpelled text := by
  have finished (trailing : Nat) (floats : Bool) (fault : LexicalFault) (past more : Nat) :
      (if trailing ≠ 0 then Lexeme.bad fault past
        else .good (if floats = true then Kind.floating else .integer) more).kind.IsSpelled text := by
    cases floats <;> split <;> rfl
  unfold decimal
  dsimp only
  split
  · rfl
  · exact finished _ _ _ _ _

theorem number_isSpelled (first : Char) (rest : List Char) (text : String) :
    (number first rest).kind.IsSpelled text := by
  have radixIsSpelled (isRadixDigit : Char → Bool) (digits : List Char) :
      (radix isRadixDigit digits).kind.IsSpelled text := by
    unfold radix
    dsimp only
    split <;> rfl
  unfold number
  split
  · split
    · exact radixIsSpelled _ _
    · split
      · exact radixIsSpelled _ _
      · exact decimal_isSpelled _ text
  · exact decimal_isSpelled _ text

theorem read_isSpelled (first : Char) (rest : List Char) :
    (read first rest).kind.IsSpelled ((read first rest).textOf first rest) := by
  have number (text : String) : (number first rest).kind.IsSpelled text :=
    number_isSpelled first rest text
  unfold read
  split
  · rfl
  · rfl
  · unfold quoted
    dsimp only
    split <;> rfl
  · unfold template
    split <;> rfl
  · split
    · exact number _
    · exact symbol_isSpelled _ rest
  · split
    · exact number _
    · split
      · exact word_isSpelled first rest
      · exact symbol_isSpelled first rest

end Lexeme

namespace TokenStream

theorem isSpelled_of_next? {stream later : TokenStream} {token : Token}
    (step : stream.next? = some (token, later)) : token.word = token.spelling := by
  obtain ⟨first, rest, text, -, rfl, rfl, -⟩ := lexeme_of_next? step
  exact Lexeme.read_isSpelled first rest

theorem isSpelled_of_tokens (stream : TokenStream) :
    ∀ token ∈ stream.tokens.1, token.word = token.spelling := by
  fun_induction tokens stream with
  | case1 stream token later step tokens errors cut ih =>
      intro other member
      rcases List.mem_cons.mp member with rfl | member
      · exact isSpelled_of_next? step
      · exact ih other (by rw [cut]; exact member)
  | case2 stream step =>
      intro token member
      rw [List.mem_singleton.mp member]
      rfl

end TokenStream

theorem isSpelled_of_tokenize (source : String) :
    ∀ token ∈ (tokenize source).1, token.word = token.spelling :=
  TokenStream.isSpelled_of_tokens _

end ServiceLang
