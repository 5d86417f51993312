import ServiceLang.Proofs.Outcome
import ServiceLang.Tree.Written

set_option autoImplicit false

/-! The words that stand before a parser. What is read depends on them alone, apart
from places and comments. -/

namespace ServiceLang

/-! ### Words of tokens -/

/-- The one spelling of a word whose kind leaves no choice. -/
def Word.normal (word : Word) : Word :=
  match word.kind with
  | .keyword reserved => .keyword reserved
  | .symbol sign => .symbol sign
  | .null => .null
  | .boolean => .boolean (word.text == "true")
  | _ => word

theorem Word.kind_normal (word : Word) : word.normal.kind = word.kind := by
  obtain ⟨kind, text⟩ := word
  cases kind <;> rfl

theorem Word.normal_normal (word : Word) : word.normal.normal = word.normal := by
  obtain ⟨kind, text⟩ := word
  cases kind with
  | boolean =>
      change Word.boolean ((Word.boolean (text == "true")).text == "true") = _
      cases isTrue : text == "true" <;> simp [Word.boolean, Word.normal, isTrue]
  | _ => rfl

/-- What a token says, whatever the spelling of its kind in a source would be. -/
def Token.word (token : Token) : Word :=
  Word.normal ⟨token.kind, token.lexeme⟩

theorem Token.kind_word (token : Token) : token.word.kind = token.kind :=
  Word.kind_normal _

theorem Token.normal_word (token : Token) : token.word.normal = token.word :=
  Word.normal_normal _

/-- The kind of a token is told by its word. -/
theorem Token.kind_of_word {token : Token} {word : Word} (same : token.word = word) :
    token.kind = word.kind := by
  rw [← same, Token.kind_word]

theorem Token.word_of_symbol {token : Token} {sign : Symbol} (here : token.kind = .symbol sign) :
    token.word = .symbol sign := by
  rw [word, Word.normal, here]

theorem Token.word_of_keyword {token : Token} {reserved : Keyword}
    (here : token.kind = .keyword reserved) : token.word = .keyword reserved := by
  rw [word, Word.normal, here]

theorem Token.word_of_identifier {token : Token} (here : token.kind = .identifier) :
    token.word = ⟨.identifier, token.lexeme⟩ := by
  rw [word, Word.normal, here]

/-! ### Words ahead -/

def Cursor.words (cursor : Cursor) : List Word :=
  cursor.ahead.map (fun slot => slot.token.word)

def Parser.words (parser : Parser) : List Word :=
  parser.cursor.words

namespace Parser

theorem kinds_eq (parser : Parser) : parser.cursor.kinds = parser.words.map Word.kind := by
  rw [words, Cursor.words, List.map_map]
  exact List.map_congr_left fun slot _ => slot.token.kind_word.symm

theorem words_advance (parser : Parser) : parser.advance.words = parser.words.tail := by
  rw [words, Cursor.words, advance, Cursor.ahead_advance, List.map_tail]
  rfl

theorem length_words (parser : Parser) : parser.words.length = parser.cursor.remaining :=
  List.length_map _

theorem word_peek {parser : Parser} {word : Word} {rest : List Word}
    (ahead : parser.words = word :: rest) : parser.cursor.peek.word = word := by
  rw [words, Cursor.words] at ahead
  rw [Cursor.peek]
  cases slots : parser.cursor.ahead with
  | nil =>
      rw [slots] at ahead
      cases ahead
  | cons slot others =>
      rw [slots] at ahead
      exact (List.cons.inj ahead).1

theorem kind_peek {parser : Parser} {word : Word} {rest : List Word}
    (ahead : parser.words = word :: rest) : parser.cursor.peek.kind = word.kind := by
  rw [← word_peek ahead, Token.kind_word]

theorem kind_peek_eq (parser : Parser) :
    parser.cursor.peek.kind = (parser.words.map Word.kind).head?.getD .endOfFile := by
  rw [Cursor.kind_peek, kinds_eq]

theorem words_of_kind {parser : Parser} (more : parser.cursor.peek.kind ≠ .endOfFile) :
    parser.words = parser.cursor.peek.word :: parser.advance.words := by
  rw [words_advance]
  cases ahead : parser.words with
  | nil =>
      rw [kind_peek_eq, ahead] at more
      exact absurd rfl more
  | cons word rest => rw [word_peek ahead, List.tail_cons]

end Parser

/-! ### Counted joins -/

/-- The kinds of a list of tokens, the word `any` of a counted join being taken for
`some`. -/
def countedJoins : List Kind → List Kind
  | .keyword .joinKw :: .symbol .leftParen :: .keyword .anyKw :: .integer :: rest =>
      .keyword .joinKw :: .symbol .leftParen :: .keyword .someKw :: .integer :: countedJoins rest
  | kind :: rest => kind :: countedJoins rest
  | [] => []

theorem countedJoins_cons {kind : Kind} (notJoin : kind ≠ .keyword .joinKw) (rest : List Kind) :
    countedJoins (kind :: rest) = kind :: countedJoins rest := by
  rw [countedJoins]
  rintro _ rfl
  exact absurd rfl notJoin

/-! ### Looking at the next kinds -/

/-- Whether what a token of this kind means can depend on the kind behind it. -/
def Kind.looksOn : Kind → Bool
  | .identifier | .symbol .colon | .symbol .leftBracket | .symbol .dot | .symbol .minus
  | .keyword .nativeKw => true
  | _ => false

def Agree (left right : List Kind) : Prop :=
  left.head? = right.head? ∧
    ∀ kind, left.head? = some kind → kind.looksOn = true → left[1]? = right[1]?

def BothStart (kind : Kind) (left right : List Kind) : Prop :=
  left.head? = some kind ∧ right.head? = some kind

def Anything (_left _right : List Kind) : Prop :=
  True

namespace Agree

variable {left right : List Kind}

theorem cons {kind : Kind} (agree : Agree left right) :
    Agree (kind :: left) (kind :: right) := by
  refine ⟨rfl, fun _ _ _ => ?_⟩
  rw [List.getElem?_cons_succ, List.getElem?_cons_succ, ← List.head?_eq_getElem?,
    ← List.head?_eq_getElem?]
  exact agree.1

theorem of_bothStart {kind : Kind} (alone : kind.looksOn = false)
    (both : BothStart kind left right) : Agree left right := by
  refine ⟨both.1.trans both.2.symm, fun found head looks => ?_⟩
  rw [both.1] at head
  cases head
  rw [alone] at looks
  contradiction

end Agree

/-! ### Words that go on with a statement -/

def Kind.continues : Kind → Bool
  | .keyword .elseKw | .keyword .joinKw | .keyword .timeoutKw | .keyword .catchKw
  | .keyword .finallyKw | .keyword .abortedKw | .keyword .committedKw => true
  | _ => false

def GoesOn (kinds : List Kind) : Prop :=
  ∀ kind, kinds.head? = some kind → kind.continues = false

/-- The second list of kinds starts with a word that goes on with the statement before
only if the first one does too. -/
def Continue (left right : List Kind) : Prop :=
  ∀ kind, kind.continues = true → right.head? = some kind → left.head? = some kind

/-- A relation of lists of kinds, where the second one starts with this kind only if
the first one does too. -/
class Sees (related : List Kind → List Kind → Prop) (kind : Kind) : Prop where
  of_agree : ∀ {left right}, Agree left right → related left right
  head_of : ∀ {left right}, related left right → right.head? = some kind → left.head? = some kind

instance (kind : Kind) : Sees Agree kind where
  of_agree := id
  head_of agree := by
    rw [agree.1]
    exact id

theorem Continue.of_agree {left right : List Kind} (agree : Agree left right) :
    Continue left right :=
  fun _ _ => by
    rw [agree.1]
    exact id

theorem Continue.of_goesOn (left : List Kind) {right : List Kind} (ends : GoesOn right) :
    Continue left right := by
  intro kind continues head
  rw [ends kind head] at continues
  contradiction

theorem Continue.sees {kind : Kind} (continues : kind.continues = true) : Sees Continue kind where
  of_agree := Continue.of_agree
  head_of same := same kind continues

instance : Sees Continue (.keyword .elseKw) := Continue.sees rfl

instance : Sees Continue (.keyword .joinKw) := Continue.sees rfl

instance : Sees Continue (.keyword .timeoutKw) := Continue.sees rfl

instance : Sees Continue (.keyword .catchKw) := Continue.sees rfl

instance : Sees Continue (.keyword .finallyKw) := Continue.sees rfl

end ServiceLang
