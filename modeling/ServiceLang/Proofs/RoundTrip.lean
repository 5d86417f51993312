import ServiceLang.Proofs.Isolation
import ServiceLang.Proofs.RereadingDefinition
import ServiceLang.Proofs.Spelling

set_option autoImplicit false

/-! A source that is accepted without a diagnostic is known from its tree: written back
as tokens and read again, it gives the same tree, apart from places and comments. -/

namespace ServiceLang

/-! ### Tokens that are read -/

/-- Tokens behind which nothing stands but the end of the file. -/
def EndsFile (rest : List Token) : Prop :=
  rest = [] ∨ ∃ last others, rest = last :: others ∧ last.kind = .endOfFile

theorem Slot.ofTokens_of_endsFile {rest : List Token} (ends : EndsFile rest)
    (pending : List Token) : (ofTokens pending rest).1 = [] := by
  rcases ends with rfl | ⟨last, others, rfl, atEnd⟩
  · rfl
  · rw [ofTokens, atEnd]

theorem Slot.isRead_of_ofTokens (pending tokens : List Token) :
    ∀ slot ∈ (ofTokens pending tokens).1, slot.token.isRead = true := by
  fun_induction ofTokens pending tokens with
  | case1 | case2 => simp
  | case3 pending token rest kind ih => exact ih
  | case4 pending token rest kind ih => exact ih
  | case5 pending token rest slots final cut notEnd notComment notInvalid ih =>
      rw [cut] at ih
      intro slot member
      rcases List.mem_cons.mp member with rfl | member
      · simpa [Token.isRead] using ⟨notComment, notInvalid⟩
      · exact ih slot member

/-- Of a list of tokens all are read but comments and invalid ones. -/
theorem Cursor.tokens_ofTokens {tokens rest : List Token}
    (noEnd : ∀ token ∈ tokens, token.kind ≠ .endOfFile) (ends : EndsFile rest) :
    (Cursor.ofTokens (tokens ++ rest)).ahead.map Slot.token = tokens.filter Token.isRead := by
  obtain ⟨slots, left, cut, read⟩ := Slot.ofTokens_append [] tokens rest noEnd
  have ahead : (Cursor.ofTokens (tokens ++ rest)).ahead = slots := by
    rw [Cursor.ofTokens]
    simp only [cut, Slot.ofTokens_of_endsFile ends, List.append_nil]
  rw [ahead, read]

/-! ### Kinds of what is read -/

theorem mem_countedJoins {kind : Kind} {kinds : List Kind} (member : kind ∈ countedJoins kinds) :
    kind ∈ kinds ∨ kind = .keyword .someKw := by
  fun_induction countedJoins kinds with
  | case1 rest ih =>
      simp only [List.mem_cons] at member ⊢
      rcases member with rfl | rfl | rfl | rfl | member
      · simp
      · simp
      · simp
      · simp
      · rcases ih member with member | rfl <;> simp_all
  | case2 first rest notJoin ih =>
      rcases List.mem_cons.mp member with rfl | member
      · simp
      · exact (ih member).imp_left (List.mem_cons_of_mem first)
  | case3 => cases member

namespace Parser

def CleanWith (options : Options) (parser : Parser) : Prop :=
  parser.Clean ∧ parser.options = options

instance (options : Options) : Quiet (CleanWith options) where
  moved _ _ := ⟨fun ⟨⟨reported, remembered, below⟩, same⟩ => ⟨⟨reported, remembered, below⟩, same⟩,
    fun ⟨⟨reported, remembered, below⟩, same⟩ => ⟨⟨reported, remembered, below⟩, same⟩⟩
  sameOptions _ _ left right := left.2.trans right.2.symm
  reported parser diagnostic _ quiet := parser.not_clean_report diagnostic quiet.1
  lasting parser diagnostic quiet := absurd quiet.1 (parser.not_clean_report diagnostic)

/-- Lexical errors are reported before anything is read. -/
theorem clean_or_reported_ofTokens (tokens : List Token) (errors : List LexicalError)
    (options : Options) : (ofTokens tokens errors options).Clean ∨
      (ofTokens tokens errors options).diagnostics.entries ≠ [] :=
  List.foldlRecOn (motive := fun parser : Parser => parser.Clean ∨ parser.diagnostics.entries ≠ [])
    errors _ (.inl ⟨rfl, rfl, rfl⟩) fun _ known problem _ =>
      .inr (reported_report problem.toDiagnostic known)

end Parser

theorem clean_of_parseWith {source : String} {options : Options} {unit : SourceUnit}
    {later : Parser}
    (ran : Grammar.sourceUnit options.maxDepth (.ofSource source options) = .ok unit later)
    (nothing : later.diagnostics.entries = []) : later.Clean := by
  have clean := Parser.clean_or_reported_after
    (Grammar.sourceUnit_orderly options.maxDepth (.ofSource source options))
    (Parser.clean_or_reported_ofTokens (tokenize source).1 (tokenize source).2 options)
  rw [Step.after_of_ok ran] at clean
  exact clean.resolve_right fun reported => reported nothing

/-! ### The round trip -/

/-- What is written of a source that is read without an error are kinds of its tokens. -/
theorem Step.Reread.isRead_of_mem {calm : Parser → Prop} {exact : Prop}
    {front behind : List Kind → List Kind → Prop} {α ε : Type} {again : Step α} {erased : α → ε}
    {tokens : List Token} {parser later : Parser} {value : α} {written : List Word}
    (reread : Step.Reread calm exact front behind again erased parser value later written)
    (start : parser.cursor = .ofTokens tokens) {word : Word} (member : word ∈ written) :
    word.kind ≠ .endOfFile ∧ word.kind ≠ .comment ∧ word.kind ≠ .invalid := by
  have inside : word.kind ∈ countedJoins parser.cursor.kinds :=
    reread.tally.mem_iff.mpr (List.mem_append_left _ (List.mem_map_of_mem member))
  rcases mem_countedJoins inside with inside | same
  · rw [Cursor.kinds] at inside
    obtain ⟨slot, ahead, same⟩ := List.mem_map.mp inside
    have notEnd := parser.cursor.endOnlyFinal slot ahead
    rw [start] at ahead
    have read := Slot.isRead_of_ofTokens [] tokens slot ahead
    rw [Token.isRead, Bool.and_eq_true, bne_iff_ne, bne_iff_ne] at read
    exact same ▸ ⟨notEnd, read⟩
  · rw [same]
    simp

/-- A source that is accepted without a diagnostic is not changed by writing its tree
back as tokens: with the usual options these are accepted without a diagnostic too, and
give the same tree apart from places and comments. The places of the tokens do not
matter. -/
theorem parseTokens_written (source : String) (accepted : (parseLenient source).2.entries = [])
    (tokens rest : List Token)
    (spelled : tokens.map Token.spelling = (parseLenient source).1.written)
    (ends : EndsFile rest) :
    (parseTokens (tokens ++ rest) {}).2.entries = [] ∧
      (parseTokens (tokens ++ rest) {}).1.erased = (parseLenient source).1.erased := by
  let options : Options := {}
  obtain ⟨unit, later, ran⟩ :=
    Grammar.sourceUnit_succeeds options.maxDepth (.ofSource source options)
  have atEnd := Grammar.isEnd_of_sourceUnit options.maxDepth ran
  have outcome : parseLenient source = (unit, later.diagnostics) := parseWith_of_ok ran
  rw [outcome] at accepted spelled ⊢
  obtain ⟨start, sameOptions⟩ := Parser.cursor_ofTokens (tokenize source).1 (tokenize source).2 options
  have run := Grammar.sourceUnit_orderly options.maxDepth (.ofSource source options)
  have quiet : later.CleanWith options := by
    refine ⟨?_, (run.options_of_ok ran).trans sameOptions⟩
    have clean := Parser.clean_or_reported_after run (Parser.clean_or_reported_ofTokens _ _ options)
    rw [Step.after_of_ok ran] at clean
    exact clean.resolve_right fun reported => reported accepted
  obtain ⟨written, whole, reread⟩ := Grammar.sourceUnit_reads options.maxDepth ran quiet
  obtain rfl : unit.written = written := whole
  have nothing : later.cursor.kinds = [] := by
    rw [Cursor.kinds, later.cursor.peek_isEnd_iff.mp atEnd, List.map_nil]
  have read : ∀ token ∈ tokens, token.kind ≠ .endOfFile ∧ token.isRead = true := by
    intro token member
    have inside : token.spelling ∈ unit.written := spelled ▸ List.mem_map_of_mem member
    obtain ⟨notEnd, isRead⟩ := reread.isRead_of_mem start inside
    exact ⟨notEnd, by simpa [Token.isRead, Token.spelling] using isRead⟩
  -- What is written is spelled as its kinds demand, so the new tokens say just that.
  have words : (Parser.ofTokens (tokens ++ rest) [] options).words = unit.written ++ [] := by
    have ahead := Cursor.tokens_ofTokens (fun token member => (read token member).1) ends
    rw [List.filter_eq_self.mpr fun token member => (read token member).2] at ahead
    have normalized : tokens.map Token.word = (tokens.map Token.spelling).map Word.normal := by
      rw [List.map_map]
      rfl
    calc (Parser.ofTokens (tokens ++ rest) [] options).words
        = ((Cursor.ofTokens (tokens ++ rest)).ahead.map Slot.token).map Token.word := by
          rw [List.map_map]
          rfl
      _ = (tokens.map Token.spelling).map Word.normal := by rw [ahead, normalized]
      _ = unit.written := by
          rw [spelled]
          exact (List.map_congr_left reread.normal).trans (List.map_id _)
      _ = unit.written ++ [] := (List.append_nil _).symm
  obtain ⟨other, last, ranOther, calmLast, same, -⟩ :=
    reread.again (.ofTokens (tokens ++ rest) [] options) [] ⟨⟨rfl, rfl, rfl⟩, rfl⟩ words
      ⟨nothing, rfl⟩
  have outcomeAgain : parseTokens (tokens ++ rest) {} = (other, last.diagnostics) :=
    parseTokens_of_ok ranOther
  rw [outcomeAgain]
  exact ⟨calmLast.1.nothingReported, same⟩

def Word.unplaced (word : Word) : Token :=
  ⟨word.kind, word.text, .nowhere⟩

/-- A worker in front of a statement, a counted join with `any`, and a comment. -/
def joinSource : String :=
  "function f() \x7b worker w \x7b \x7d // note\n fork \x7b \x7d join (any 1) (map m) \x7b \x7d \x7d"

theorem parseTokens_written_joinSource :
    (parseTokens ((parseLenient joinSource).1.written.map Word.unplaced ++ []) {}).2.entries = [] ∧
      (parseTokens ((parseLenient joinSource).1.written.map Word.unplaced ++ []) {}).1.erased =
        (parseLenient joinSource).1.erased :=
  parseTokens_written joinSource (by decide +kernel) _ []
    (by rw [List.map_map]; exact List.map_id _) (.inl rfl)

end ServiceLang
