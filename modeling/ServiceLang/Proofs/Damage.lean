import ServiceLang.Proofs.Faults
import ServiceLang.Proofs.RoundTrip
import ServiceLang.Tree.Whole

set_option autoImplicit false

/-! Damage is never silent. Whatever is invalid, missing or skipped in a source, some
error says so in the end, even where diagnostics are dropped: one is dropped only when
there is an error already. -/

namespace ServiceLang

/-! ### Invalid tokens -/

namespace Lexeme

def IsFaulted (lexeme : Lexeme) : Prop :=
  lexeme.kind = .invalid →
    ∃ fault ∈ lexeme.fault, ∀ span, LexicalError.severity ⟨fault, span⟩ = .error

theorem isFaulted_read (first : Char) (rest : List Char) : (read first rest).IsFaulted := by
  intro invalid
  obtain ⟨-, fault, found, isError⟩ := (isJudged_read first rest).resolve_left fun valid =>
    valid.1 invalid
  exact ⟨fault, found, isError⟩

end Lexeme

namespace TokenStream

/-- The errors met so far are not lost, and an invalid token adds one. -/
theorem errors_of_next? {stream later : TokenStream} {token : Token}
    (step : stream.next? = some (token, later)) :
    (∀ problem ∈ stream.errors, problem ∈ later.errors) ∧
      (token.kind = .invalid → ∃ problem ∈ later.errors, problem.severity = .error) := by
  obtain ⟨first, rest, text, -, -, rfl, rfl⟩ := lexeme_of_next? step
  refine ⟨fun problem member => List.mem_append_left _ member, fun invalid => ?_⟩
  obtain ⟨fault, isFault, isError⟩ := Lexeme.isFaulted_read first rest invalid
  have added : ⟨fault, stream.skipGap.place.span text⟩ ∈
      lexemeErrors stream.skipGap.place (Lexeme.read first rest) text :=
    List.mem_append_right _ (List.mem_map_of_mem (Option.mem_toList.mpr isFault))
  exact ⟨_, List.mem_append_right _ added, isError _⟩

theorem error_of_invalid (stream : TokenStream) :
    (∀ problem ∈ stream.errors, problem ∈ stream.tokens.2) ∧
      ∀ token ∈ stream.tokens.1, token.kind = .invalid →
        ∃ problem ∈ stream.tokens.2, problem.severity = .error := by
  fun_induction tokens stream with
  | case1 stream token later step tokens errors cut ih =>
      rw [cut] at ih
      obtain ⟨kept, added⟩ := errors_of_next? step
      refine ⟨fun problem member => ih.1 problem (kept problem member), fun other member invalid => ?_⟩
      rcases List.mem_cons.mp member with rfl | member
      · obtain ⟨problem, inside, isError⟩ := added invalid
        exact ⟨problem, ih.1 problem inside, isError⟩
      · exact ih.2 other member invalid
  | case2 stream done =>
      refine ⟨fun _ => id, fun token member invalid => ?_⟩
      rw [List.mem_singleton.mp member] at invalid
      cases invalid

end TokenStream

/-- Every invalid token of a source comes with an error. -/
theorem error_of_invalid_token {source : String} {token : Token}
    (member : token ∈ (tokenize source).1) (invalid : token.kind = .invalid) :
    ∃ problem ∈ (tokenize source).2, problem.severity = .error :=
  (TokenStream.error_of_invalid _).2 token member invalid

/-! ### Errors are kept -/

namespace Parser

structure Undisturbed (parser : Parser) : Prop where
  noErrors : parser.diagnostics.hasErrors = false
  nothingRemembered : parser.reportedAt = []
  belowLimit : parser.limitHit = false

/-- A diagnostic is dropped only where an error has been reported. -/
def IsHonest (parser : Parser) : Prop :=
  parser.diagnostics.hasErrors = true ∨ parser.Undisturbed

theorem IsHonest.moved {parser : Parser} {cursor : Cursor} (honest : parser.IsHonest) :
    { parser with cursor := cursor }.IsHonest :=
  honest.imp id fun ⟨silent, remembered, below⟩ => ⟨silent, remembered, below⟩

theorem hasErrors_push (report : Report) (diagnostic : Diagnostic) :
    (report.push diagnostic).hasErrors = (report.hasErrors || diagnostic.isError) := by
  simp [Report.push, Report.hasErrors]

/-- What a report does: it drops the diagnostic, or adds it, or adds the note that
closes the list. -/
theorem report_eq_cases (parser : Parser) (diagnostic : Diagnostic) :
    (parser.report diagnostic = parser ∧
        (parser.limitHit = true ∨ parser.reportedAt ≠ [])) ∨
      (parser.limitHit = false ∧
        ((parser.report diagnostic).diagnostics = parser.diagnostics.push diagnostic ∧
            (parser.report diagnostic).limitHit = false ∨
          (parser.report diagnostic).diagnostics.hasErrors = true ∧
            (parser.report diagnostic).limitHit = true) ∧
        (parser.report diagnostic).reportedAt =
          if diagnostic.isError then diagnostic.span.start :: parser.reportedAt
          else parser.reportedAt) := by
  by_cases hit : parser.limitHit = true
  · exact .inl ⟨by simp [report, hit], .inl hit⟩
  by_cases repeated : (diagnostic.isError &&
      parser.reportedAt.contains diagnostic.span.start) = true
  · refine .inl ⟨by simp only [report, if_neg hit, if_pos repeated], .inr ?_⟩
    intro empty
    simp [empty] at repeated
  have below : parser.limitHit = false := by simpa using hit
  refine .inr ⟨below, ?_⟩
  cases bound : parser.options.maxErrors with
  | none => cases severity : diagnostic.isError <;> simp_all [report]
  | some limit =>
      by_cases full : limit ≤ parser.diagnostics.size
      · cases severity : diagnostic.isError <;>
          simp_all [report, hasErrors_push, Diagnostic.isError, Diagnostic.error]
      · cases severity : diagnostic.isError <;> simp_all [report, if_neg full]

theorem hasErrors_report {parser : Parser} {diagnostic : Diagnostic} (honest : parser.IsHonest)
    (reason : parser.diagnostics.hasErrors = true ∨ diagnostic.isError = true) :
    (parser.report diagnostic).diagnostics.hasErrors = true := by
  rcases parser.report_eq_cases diagnostic with ⟨dropped, cause⟩ | ⟨-, ⟨added, -⟩ | ⟨closed, -⟩, -⟩
  · rw [dropped]
    rcases honest with errors | undisturbed
    · exact errors
    · rcases cause with hit | remembered
      · rw [undisturbed.belowLimit] at hit
        contradiction
      · exact absurd undisturbed.nothingRemembered remembered
  · rw [added, hasErrors_push]
    rcases reason with errors | isError
    · rw [errors, Bool.true_or]
    · rw [isError, Bool.or_true]
  · exact closed

theorem isHonest_report {parser : Parser} (diagnostic : Diagnostic) (honest : parser.IsHonest) :
    (parser.report diagnostic).IsHonest := by
  by_cases reason : parser.diagnostics.hasErrors = true ∨ diagnostic.isError = true
  · exact .inl (hasErrors_report honest reason)
  obtain ⟨noErrors, isWarning⟩ := not_or.mp reason
  have undisturbed := honest.resolve_left noErrors
  rcases parser.report_eq_cases diagnostic with ⟨dropped, -⟩ | ⟨-, ⟨added, below⟩ | ⟨closed, -⟩, remembered⟩
  · rw [dropped]
    exact honest
  · rw [if_neg isWarning] at remembered
    refine .inr ⟨?_, remembered.trans undisturbed.nothingRemembered, below⟩
    rw [added, hasErrors_push, undisturbed.noErrors]
    simpa using isWarning
  · exact .inl closed

/-- An error disturbs for good. -/
theorem not_undisturbed_report {parser : Parser} {diagnostic : Diagnostic}
    (isError : diagnostic.isError = true) : ¬(parser.report diagnostic).Undisturbed := by
  intro undisturbed
  rcases parser.report_eq_cases diagnostic with ⟨dropped, cause⟩ | ⟨-, -, remembered⟩
  · rw [dropped] at undisturbed
    rcases cause with hit | remembered
    · rw [undisturbed.belowLimit] at hit
      contradiction
    · exact remembered undisturbed.nothingRemembered
  · rw [undisturbed.nothingRemembered, if_pos isError] at remembered
    cases remembered

theorem undisturbed_of_report {parser : Parser} {diagnostic : Diagnostic}
    (undisturbed : (parser.report diagnostic).Undisturbed) : parser.Undisturbed := by
  have isWarning : ¬diagnostic.isError = true := fun isError =>
    not_undisturbed_report isError undisturbed
  rcases parser.report_eq_cases diagnostic with ⟨dropped, -⟩ | ⟨below, ⟨added, -⟩ | ⟨closed, -⟩, remembered⟩
  · rwa [dropped] at undisturbed
  · refine ⟨?_, ?_, below⟩
    · have none := undisturbed.noErrors
      rw [added, hasErrors_push, Bool.or_eq_false_iff] at none
      exact none.1
    · rw [if_neg isWarning] at remembered
      exact remembered.symm.trans undisturbed.nothingRemembered
  · rw [undisturbed.noErrors] at closed
    cases closed

def UndisturbedWith (options : Options) (parser : Parser) : Prop :=
  parser.Undisturbed ∧ parser.options = options

instance (options : Options) : Quiet (UndisturbedWith options) where
  moved _ _ := ⟨fun ⟨⟨silent, remembered, below⟩, same⟩ => ⟨⟨silent, remembered, below⟩, same⟩,
    fun ⟨⟨silent, remembered, below⟩, same⟩ => ⟨⟨silent, remembered, below⟩, same⟩⟩
  sameOptions _ _ left right := left.2.trans right.2.symm
  reported _ _ isError quiet := not_undisturbed_report isError quiet.1
  lasting parser diagnostic quiet := ⟨undisturbed_of_report quiet.1,
    (parser.options_report diagnostic).symm.trans quiet.2⟩

/-- A parse starts with the lexical errors reported. -/
theorem isHonest_ofTokens (tokens : List Token) (errors : List LexicalError) (options : Options) :
    (ofTokens tokens errors options).IsHonest ∧
      ((∃ problem ∈ errors, problem.severity = .error) →
        (ofTokens tokens errors options).diagnostics.hasErrors = true) := by
  have folded (parser : Parser) (honest : parser.IsHonest) :
      (errors.foldl (fun parser problem => parser.report problem.toDiagnostic) parser).IsHonest ∧
        ((parser.diagnostics.hasErrors = true ∨
            ∃ problem ∈ errors, problem.severity = .error) →
          (errors.foldl (fun parser problem =>
            parser.report problem.toDiagnostic) parser).diagnostics.hasErrors = true) := by
    induction errors generalizing parser with
    | nil => exact ⟨honest, fun reason => reason.elim id fun ⟨_, member, _⟩ => by cases member⟩
    | cons problem errors ih =>
        obtain ⟨stays, added⟩ := ih _ (isHonest_report problem.toDiagnostic honest)
        refine ⟨stays, fun reason => added ?_⟩
        rcases reason with before | ⟨other, member, isError⟩
        · exact .inl (hasErrors_report honest (.inl before))
        · rcases List.mem_cons.mp member with rfl | member
          · refine .inl (hasErrors_report honest (.inr ?_))
            exact beq_iff_eq.mpr isError
          · exact .inr ⟨other, member, isError⟩
  obtain ⟨honest, added⟩ := folded
    ⟨.ofTokens tokens, options, .empty, [], false, 0, Nat.zero_le _⟩ (.inr ⟨rfl, rfl, rfl⟩)
  exact ⟨honest, fun reason => added (.inr reason)⟩

end Parser

/-! ### Faithful trees -/

/-- A tree that leaves nothing of a source out: the source has no invalid token, the
tree no damage, and what is written of it has the same kinds as the tokens of the
source. The word `any` of a counted join is written as `some`. -/
structure SourceUnit.IsFaithful (unit : SourceUnit) (source : String) : Prop where
  allValid : ∀ token ∈ (tokenize source).1, token.kind ≠ .invalid
  isWhole : unit.IsWhole
  sameKinds : (countedJoins (((tokenize source).1.map Token.kind).filter
      fun kind => kind != .comment && kind != .endOfFile)).Perm (unit.written.map Word.kind)

/-- The kinds that are read of a source without invalid tokens. -/
theorem kinds_ofTokens_tokenize {source : String}
    (allValid : ∀ token ∈ (tokenize source).1, token.kind ≠ .invalid) :
    (Cursor.ofTokens (tokenize source).1).kinds =
      ((tokenize source).1.map Token.kind).filter
        fun kind => kind != .comment && kind != .endOfFile := by
  obtain ⟨mark, -, isBehind⟩ := TokenStream.isBehind_ofSource source
  obtain ⟨earlier, last, whole, ⟨atEnd, -⟩, inner⟩ := isBehind.tokens.1.ends
  have tokens : (tokenize source).1 = earlier ++ [last] := whole
  rw [tokens] at allValid ⊢
  have read := Cursor.tokens_ofTokens (fun token member => (inner token member).1)
    (.inr ⟨last, [], rfl, atEnd⟩)
  have kinds : (Cursor.ofTokens (earlier ++ [last])).kinds =
      (earlier.filter Token.isRead).map Token.kind := by
    rw [← read, List.map_map]
    rfl
  have noEnd : ([last].map Token.kind).filter
      (fun kind => kind != .comment && kind != .endOfFile) = [] := by
    simp [atEnd]
  rw [kinds, List.map_append, List.filter_append, noEnd, List.append_nil, List.filter_map]
  refine congrArg (List.map Token.kind) (List.filter_congr fun token member => ?_)
  have valid := allValid token (List.mem_append_left _ member)
  have notEnd := (inner token member).1
  simp only [Token.isRead, Function.comp_apply, bne_iff_ne.mpr valid, bne_iff_ne.mpr notEnd]

section Read

variable {source : String} {options : Options} {room : Nat} {unit : SourceUnit} {later : Parser}
  (ran : Grammar.sourceUnit room (.ofSource source options) = .ok unit later)
  (silent : later.diagnostics.hasErrors = false)

include ran silent

theorem undisturbed_of_sourceUnit : later.UndisturbedWith options := by
  have run := Grammar.sourceUnit_orderly room (.ofSource source options)
  obtain ⟨honest, -⟩ := Parser.isHonest_ofTokens (tokenize source).1 (tokenize source).2 options
  have kept := (run.keeping Parser.IsHonest (fun _ state _ _ => state.moved)
    (fun _ state => state.moved)
    (fun _ diagnostic state => Parser.isHonest_report diagnostic state) honest).2
  rw [Step.after_of_ok ran] at kept
  exact ⟨kept.resolve_left (by simp [silent]),
    (run.options_of_ok ran).trans (Parser.options_ofSource source options)⟩

/-- An invalid token is a lexical error, which has been reported before anything is read. -/
theorem valid_of_sourceUnit : ∀ token ∈ (tokenize source).1, token.kind ≠ .invalid := by
  intro token member isInvalid
  have run := Grammar.sourceUnit_orderly room (.ofSource source options)
  obtain ⟨-, invalid⟩ := Parser.isHonest_ofTokens (tokenize source).1 (tokenize source).2 options
  have errors := (run.keeping (fun parser => parser.diagnostics.hasErrors = true)
    (fun _ state _ _ => state) (fun _ state => state)
    (fun _ _ state => Parser.hasErrors_report (.inl state) (.inl state))
    (invalid (error_of_invalid_token member isInvalid))).2
  rw [Step.after_of_ok ran, silent] at errors
  cases errors

end Read

/-- Where no error is reported nothing is lost, whatever the options, even where they
allow no diagnostic. A source that is accepted is one where no error is reported. -/
theorem isFaithful_of_parse (source : String) :
    (∀ options, (parseWith source options).2.hasErrors = false →
      (parseWith source options).1.IsFaithful source) ∧
    ∀ unit, parse source = .ok unit → unit.IsFaithful source := by
  have faithful (options : Options) (silent : (parseWith source options).2.hasErrors = false) :
      (parseWith source options).1.IsFaithful source := by
    obtain ⟨unit, later, ran⟩ :=
      Grammar.sourceUnit_succeeds options.maxDepth (.ofSource source options)
    rw [parseWith_of_ok ran] at silent ⊢
    have quiet := undisturbed_of_sourceUnit ran silent
    have allValid := valid_of_sourceUnit ran silent
    have start := Parser.cursor_ofSource source options
    obtain ⟨written, whole, reread⟩ := Grammar.sourceUnit_reads options.maxDepth ran quiet
    obtain rfl : unit.written = written := whole
    have nothing : later.cursor.kinds = [] := by
      rw [Cursor.kinds,
        later.cursor.peek_isEnd_iff.mp (Grammar.isEnd_of_sourceUnit options.maxDepth ran), List.map_nil]
    refine ⟨allValid, ?_, ?_⟩
    · exact SourceUnit.isWhole_of_allRead fun word member => (reread.isRead_of_mem start member).2.2
    · have tally := reread.tally
      rw [nothing, countedJoins, List.append_nil, start, kinds_ofTokens_tokenize allValid] at tally
      exact tally
  refine ⟨faithful, fun unit accepted => ?_⟩
  rw [parse] at accepted
  dsimp only at accepted
  split at accepted
  · cases accepted
  · rename_i silent
    cases accepted
    exact faithful {} (Bool.not_eq_true _ ▸ silent)

theorem isFaithful_of_parse_joinSource :
    (parseWith joinSource { maxErrors := some 0 }).2.hasErrors = false ∧
      (parseWith joinSource { maxErrors := some 0 }).1.IsFaithful joinSource := by
  have silent : (parseWith joinSource { maxErrors := some 0 }).2.hasErrors = false := by
    decide +kernel
  exact ⟨silent, (isFaithful_of_parse joinSource).1 _ silent⟩

end ServiceLang
