import ServiceLang.Parse
import ServiceLang.Proofs.Completeness
import ServiceLang.Proofs.Relexing
import ServiceLang.Proofs.RoundTrip

set_option autoImplicit false

/-! Types survive printing: the text of a type is cut into the words that are written of it,
and these are read back as the same type. -/

namespace ServiceLang

open Word (Apart chars inAngles inBraces)

/-! ### Types that can be printed -/

/-- The name is neither reserved nor broken. -/
def Identifier.IsName (identifier : Identifier) : Prop :=
  (Word.name identifier).IsLexeme

def NameReference.Printable (reference : NameReference) : Prop :=
  (∀ package ∈ reference.package, package.IsName) ∧ reference.name.IsName

def XmlConstraint.Printable (constraint : XmlConstraint) : Prop :=
  (∀ uri ∈ constraint.uri, (Word.string uri).IsLexeme) ∧ constraint.element.IsName

def SchemaReference.Printable (schema : SchemaReference) : Prop :=
  (Word.string schema.location).IsLexeme

/-- All names in the type are names, and its quoted texts are whole strings. -/
def TypeName.Printable : TypeName → Prop
  | .any _ | .value _ _ | .message _ | .datatable _ | .map _ => True
  | .mapOf constraint _ => constraint.Printable
  | .xml constraint _ | .xmlDocument constraint _ => ∀ found ∈ constraint, found.Printable
  | .json schema _ => ∀ found ∈ schema, found.Printable
  | .named reference _ => reference.Printable
  | .array element _ => element.Printable

/-! ### The text of a type -/

theorem NameReference.toList_text (reference : NameReference) :
    reference.text.toList = chars reference.written := by
  obtain ⟨package, name⟩ := reference
  cases package with
  | none => exact (List.append_nil _).symm
  | some package =>
      simp [text, written, Word.name, Word.symbol, Symbol.text]

theorem XmlConstraint.toList_text (constraint : XmlConstraint) :
    constraint.text.toList = chars constraint.written := by
  obtain ⟨uri, element, span⟩ := constraint
  cases uri with
  | none => simp [text, written, inAngles, Word.behind, Word.name, Word.symbol, Symbol.text]
  | some uri =>
      change ("<" ++ ("\x7b" ++ uri ++ "\x7d") ++ element.name ++ ">").toList = _
      simp [written, inAngles, inBraces, Word.behind, Word.name, Word.string, Word.symbol,
        Symbol.text]

theorem SchemaReference.toList_text (schema : SchemaReference) :
    schema.text.toList = chars schema.written := by
  change ("<" ++ ("\x7b" ++ schema.location ++ "\x7d") ++ ">").toList = _
  simp [written, inAngles, inBraces, Word.string, Word.symbol, Symbol.text]

theorem TypeName.toList_text (type : TypeName) : type.text.toList = chars type.written := by
  induction type with
  | any | message | datatable | map => simp [text, Word.keyword, Keyword.text]
  | value type span =>
      cases type <;> simp [text, ValueType.text, ValueType.keyword, Word.keyword, Keyword.text]
  | mapOf constraint span ih =>
      simp [text, ih, inAngles, Word.keyword, Keyword.text, Word.symbol, Symbol.text]
  | xml constraint span | xmlDocument constraint span =>
      cases constraint with
      | none => simp [text, Word.behind, Word.keyword, Keyword.text]
      | some constraint =>
          simp [text, constraint.toList_text, Word.behind, Word.keyword, Keyword.text]
  | json schema span =>
      cases schema with
      | none => simp [text, Word.behind, Word.keyword, Keyword.text]
      | some schema => simp [text, schema.toList_text, Word.behind, Word.keyword, Keyword.text]
  | named reference span => exact reference.toList_text
  | array element span ih => simp [text, ih, Word.symbol, Symbol.text]

/-! ### Cutting the text apart -/

variable {tail : List Char}

/-- What may stand behind the text of a type that is no part of a longer one. -/
def Closes (tail : List Char) : Prop :=
  ∀ char ∈ tail.head?, char = '>' ∨ char = '['

theorem Closes.endsWord (closes : Closes tail) : EndsWord tail := by
  intro char head
  rcases closes char head with rfl | rfl <;> rfl

theorem Closes.alone (closes : Closes tail) :
    ∀ char ∈ tail.head?, Lexeme.double? '>' char = none := by
  intro char head
  rcases closes char head with rfl | rfl <;> rfl

theorem forall_head_cons {holds : Char → Prop} {first : Char} {rest : List Char}
    (here : holds first) : ∀ char ∈ (first :: rest).head?, holds char := by
  intro char head
  cases head
  exact here

theorem double?_less {first : Char} (starts : isNameStart first = true) :
    Lexeme.double? '<' first = none := by
  unfold Lexeme.double?
  split
  all_goals first | rfl | cases starts

theorem NameReference.apart_written {reference : NameReference} (printable : reference.Printable)
    (ends : EndsWord tail) : Apart reference.written tail := by
  obtain ⟨package, name⟩ := reference
  have last : (Word.name name).StandsBefore tail :=
    printable.2.standsBefore Kind.isWord_identifier ends
  cases package with
  | none => exact ⟨last, trivial⟩
  | some package =>
      refine ⟨?_, Word.inert_standsBefore (by decide) _, last, trivial⟩
      exact (printable.1 package rfl).standsBefore Kind.isWord_identifier (forall_head_cons rfl)

/-- A string in braces, whatever stands behind it. -/
theorem apart_inBraces {text : String} (isString : (Word.string text).IsLexeme) :
    Apart (inBraces [.string text]) tail :=
  ⟨Word.inert_standsBefore (by decide) _, isString.string_standsBefore _,
    Word.inert_standsBefore (by decide) _, trivial⟩

/-- An opening angle stands in front of a brace or of a word. -/
theorem less_standsBefore (opens : ∀ char ∈ tail.head?, char = '\x7b' ∨ isNameStart char = true) :
    (Word.symbol .less).StandsBefore tail := by
  refine Word.symbol_standsBefore '<' rfl (fun char head => ?_) (by decide) (by decide)
  rcases opens char head with rfl | starts
  · rfl
  · exact double?_less starts

theorem greater_standsBefore (closes : Closes tail) : (Word.symbol .greater).StandsBefore tail :=
  Word.symbol_standsBefore '>' rfl closes.alone (by decide) (by decide)

theorem XmlConstraint.apart_written {constraint : XmlConstraint} (printable : constraint.Printable)
    (closes : Closes tail) : Apart constraint.written tail := by
  obtain ⟨uri, element, span⟩ := constraint
  obtain ⟨areStrings, isName⟩ := printable
  have closing : Apart [.name element, .symbol .greater] tail := by
    refine ⟨?_, greater_standsBefore closes, trivial⟩
    exact isName.standsBefore Kind.isWord_identifier (forall_head_cons rfl)
  cases uri with
  | none =>
      obtain ⟨first, rest, split, starts⟩ :=
        isName.starts_chars Kind.isWord_identifier [.symbol .greater]
      refine ⟨less_standsBefore ?_, closing⟩
      change ∀ char ∈ (chars [.name element, .symbol .greater] ++ tail).head?, _
      rw [split]
      exact forall_head_cons (.inr starts)
  | some uri =>
      refine ⟨less_standsBefore (forall_head_cons (.inl rfl)), ?_⟩
      have braced : Apart (inBraces [.string uri] ++ [.name element, .symbol .greater]) tail :=
        Word.apart_append.mpr ⟨apart_inBraces (areStrings uri rfl), closing⟩
      exact braced

theorem SchemaReference.apart_written {schema : SchemaReference} (printable : schema.Printable)
    (closes : Closes tail) : Apart schema.written tail := by
  refine ⟨less_standsBefore (forall_head_cons (.inl rfl)), ?_⟩
  exact Word.apart_append.mpr
    ⟨apart_inBraces printable, greater_standsBefore closes, trivial⟩

/-- The text of a type starts with a word. -/
theorem TypeName.starts_written {type : TypeName} (printable : type.Printable) :
    ∃ first rest, chars type.written = first :: rest ∧ isNameStart first = true := by
  induction type with
  | named reference span =>
      obtain ⟨package, name⟩ := reference
      cases package with
      | none => exact printable.2.starts_chars Kind.isWord_identifier _
      | some package => exact (printable.1 package rfl).starts_chars Kind.isWord_identifier _
  | array element span ih =>
      obtain ⟨first, rest, split, starts⟩ := ih printable
      exact ⟨first, _, by rw [written, Word.chars_append, split, List.cons_append], starts⟩
  | _ => exact (Word.keyword_isLexeme _).starts_chars (Kind.isWord_keyword _) _

theorem TypeName.apart_written {type : TypeName} (printable : type.Printable)
    (closes : Closes tail) : Apart type.written tail := by
  induction type generalizing tail with
  | any | message | datatable | map | value =>
      exact ⟨Word.keyword_standsBefore _ closes.endsWord, trivial⟩
  | mapOf constraint span ih =>
      obtain ⟨first, rest, split, starts⟩ := constraint.starts_written printable
      refine ⟨Word.keyword_standsBefore _ (forall_head_cons rfl), less_standsBefore ?_, ?_⟩
      · change ∀ char ∈ (chars (constraint.written ++ [.symbol .greater]) ++ tail).head?, _
        rw [Word.chars_append, split]
        exact forall_head_cons (.inr starts)
      · exact Word.apart_append.mpr
          ⟨ih printable (forall_head_cons (.inl rfl)), greater_standsBefore closes, trivial⟩
  | xml constraint span | xmlDocument constraint span =>
      cases constraint with
      | none => exact ⟨Word.keyword_standsBefore _ closes.endsWord, trivial⟩
      | some constraint =>
          exact ⟨Word.keyword_standsBefore _ (forall_head_cons rfl),
            XmlConstraint.apart_written (printable constraint rfl) closes⟩
  | json schema span =>
      cases schema with
      | none => exact ⟨Word.keyword_standsBefore _ closes.endsWord, trivial⟩
      | some schema =>
          exact ⟨Word.keyword_standsBefore _ (forall_head_cons rfl),
            SchemaReference.apart_written (printable schema rfl) closes⟩
  | named reference span => exact reference.apart_written printable closes.endsWord
  | array element span ih =>
      refine Word.apart_append.mpr ⟨ih printable (forall_head_cons (.inr rfl)), ?_⟩
      exact ⟨Word.inert_standsBefore (by decide) _, Word.inert_standsBefore (by decide) _, trivial⟩

/-! ### Reading the text back -/

/-- Words that a parser sees: neither an end, nor comments, nor invalid ones. -/
def Word.AllVisible (words : List Word) : Prop :=
  ∀ word ∈ words, word.kind ≠ .endOfFile ∧ word.kind ≠ .comment ∧ word.kind ≠ .invalid

theorem NameReference.allVisible_written (reference : NameReference) :
    Word.AllVisible reference.written := by
  obtain ⟨package, name⟩ := reference
  cases package <;> simp [Word.AllVisible, written, Word.name, Word.symbol]

theorem XmlConstraint.allVisible_written (constraint : XmlConstraint) :
    Word.AllVisible constraint.written := by
  obtain ⟨uri, element, span⟩ := constraint
  cases uri <;>
    simp [Word.AllVisible, written, inAngles, inBraces, Word.behind, Word.name, Word.string,
      Word.symbol]

theorem SchemaReference.allVisible_written (schema : SchemaReference) :
    Word.AllVisible schema.written := by
  simp [Word.AllVisible, written, inAngles, inBraces, Word.string, Word.symbol]

theorem TypeName.allVisible_written (type : TypeName) : Word.AllVisible type.written := by
  have keyword (word : Keyword) {more : List Word} (read : Word.AllVisible more) :
      Word.AllVisible (.keyword word :: more) :=
    List.forall_mem_cons.mpr ⟨by simp [Word.keyword], read⟩
  have symbol (sign : Symbol) {more : List Word} (read : Word.AllVisible more) :
      Word.AllVisible (.symbol sign :: more) :=
    List.forall_mem_cons.mpr ⟨by simp [Word.symbol], read⟩
  have nothing : Word.AllVisible [] := List.forall_mem_nil _
  induction type with
  | mapOf constraint span ih =>
      exact keyword _ (symbol _ (List.forall_mem_append.mpr ⟨ih, symbol _ nothing⟩))
  | xml constraint span | xmlDocument constraint span =>
      cases constraint with
      | none => exact keyword _ nothing
      | some constraint => exact keyword _ constraint.allVisible_written
  | json schema span =>
      cases schema with
      | none => exact keyword _ nothing
      | some schema => exact keyword _ schema.allVisible_written
  | named reference span => exact reference.allVisible_written
  | array element span ih =>
      exact List.forall_mem_append.mpr ⟨ih, symbol _ (symbol _ nothing)⟩
  | _ => exact keyword _ nothing

/-- A source whose words stand apart is read as these words, without an error. -/
theorem Parser.ofSource_of_apart {words : List Word} {source : String} (apart : Apart words [])
    (read : Word.AllVisible words) (spelled : source.toList = chars words) (options : Options) :
    (ofSource source options).words = words ∧
      (ofSource source options).options = options ∧
      (ofSource source options).diagnostics = .empty := by
  obtain ⟨cut, noErrors⟩ := tokenize_of_apart apart spelled
  obtain ⟨tokens, rest, split, front, back⟩ := List.map_eq_append_iff.mp cut
  obtain ⟨last, rfl, isLast⟩ := List.map_eq_singleton_iff.mp back
  have atEnd : last.kind = .endOfFile := congrArg Word.kind isLast
  have kinds : ∀ token ∈ tokens, token.kind ≠ .endOfFile ∧ token.isRead = true := by
    intro token member
    have inside : token.spelling ∈ words := front ▸ List.mem_map_of_mem member
    obtain ⟨notEnd, notComment, notInvalid⟩ := read _ inside
    exact ⟨notEnd, by simpa [Token.isRead] using ⟨notComment, notInvalid⟩⟩
  have ahead := Cursor.tokens_ofTokens (fun token member => (kinds token member).1)
    (.inr ⟨last, [], rfl, atEnd⟩)
  rw [List.filter_eq_self.mpr fun token member => (kinds token member).2] at ahead
  have parser : ofSource source options = ofTokens (tokens ++ [last]) [] options := by
    rw [ofSource, ← split, ← noErrors]
  rw [parser]
  refine ⟨?_, rfl, rfl⟩
  have asSpelled : ∀ token ∈ tokens, token.word = token.spelling := by
    intro token member
    apply isSpelled_of_tokenize source
    rw [split]
    exact List.mem_append_left _ member
  calc (Cursor.ofTokens (tokens ++ [last])).ahead.map (fun slot => slot.token.word)
      = ((Cursor.ofTokens (tokens ++ [last])).ahead.map Slot.token).map Token.word := by
        rw [List.map_map]
        rfl
    _ = tokens.map Token.spelling := by rw [ahead, List.map_congr_left asSpelled]
    _ = words := front

theorem TypeName.arrayDepth_erased (type : TypeName) : type.erased.arrayDepth = type.arrayDepth := by
  induction type with
  | array element span ih => exact congrArg (· + 1) ih
  | _ => rfl

theorem TypeName.base_erased (type : TypeName) : type.erased.base = type.base.erased := by
  induction type with
  | array element span ih => exact ih
  | _ => rfl

/-- A type that nests at most 63 constraints of maps is read back from its text, apart from
places, with its dimensions and its base. -/
theorem parseTypeName_text {type : TypeName} (printable : type.Printable)
    (shallow : type.depth ≤ 63) :
    ∃ found, parseTypeName type.text = .ok found ∧ found.erased = type.erased ∧
      found.arrayDepth = type.arrayDepth ∧ found.base.erased = type.base.erased := by
  obtain ⟨words, sameOptions, quiet⟩ :=
    Parser.ofSource_of_apart (type.apart_written printable nofun) type.allVisible_written
      type.toList_text {}
  have before : Step.Before {} type.written EndsType (.ofSource type.text {}) [] :=
    ⟨sameOptions, words.trans (List.append_nil _).symm, by simp [EndsType, EndsBase, Kind.next]⟩
  obtain ⟨found, cursor, ran, same, drops⟩ :=
    Grammar.typeName_takes type (Nat.lt_succ_of_le shallow) before
  have nothing : cursor.ahead = [] := by
    rw [drops, ← words, Parser.words, Cursor.words, List.length_map, List.drop_length]
  have atEnd : cursor.peek.kind = .endOfFile := by
    rw [Cursor.kind_peek, Cursor.kinds, nothing]
    rfl
  refine ⟨found, ?_, same, ?_, ?_⟩
  · -- A fragment is read with its levels counted, and none of them is open yet.
    have all : (Parser.ofSource type.text {}).options.maxDepth -
        (Parser.ofSource type.text {}).depth = 64 := by
      rw [sameOptions, Parser.depth_ofSource]
      rfl
    have counted := (Grammar.isCounted_of_levels Grammar.typeName_levels
      (Parser.ofSource type.text {})).does
    rw [all, ran] at counted
    rw [parseTypeName, parseFragment, counted]
    simp only [atEnd, if_pos, quiet]
    rfl
  · rw [← type.arrayDepth_erased, ← same, found.arrayDepth_erased]
  · rw [← type.base_erased, ← same, found.base_erased]

def mapOfElements : TypeName :=
  .array (.mapOf (.array (.xml (some ⟨some "\"urn:a\"", ⟨"item", .nowhere⟩, .nowhere⟩) .nowhere)
    .nowhere) .nowhere) .nowhere

theorem parseTypeName_mapOfElements :
    mapOfElements.text = "map<xml<\x7b\"urn:a\"\x7ditem>[]>[]" ∧ mapOfElements.Printable ∧
      mapOfElements.depth ≤ 63 ∧
      ∃ found, parseTypeName mapOfElements.text = .ok found ∧
        found.erased = mapOfElements.erased ∧ found.arrayDepth = mapOfElements.arrayDepth ∧
        found.base.erased = mapOfElements.base.erased := by
  have printable : mapOfElements.Printable := by
    intro found same
    cases same
    refine ⟨fun uri same => ?_, ?_⟩
    · cases same
      decide +kernel
    · unfold Identifier.IsName
      decide +kernel
  have shallow : mapOfElements.depth ≤ 63 := by decide
  exact ⟨by decide +kernel, printable, shallow, parseTypeName_text printable shallow⟩

end ServiceLang
