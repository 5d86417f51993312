import ServiceLang.Proofs.AbreastDefinition
import ServiceLang.Proofs.Faults
import ServiceLang.Proofs.Reporting

set_option autoImplicit false

/-! Reading a source is reading its tokens. The errors met in cutting it are reported first and
remembered where they start. That suppresses nothing: each of them starts with an invalid
token of its own, and what is reported later starts with a token that is valid. -/

namespace ServiceLang

/-! ### Reporting lexical errors -/

namespace Parser

/-- Lexical errors that start at different offsets, none of which has an error yet, are all
added, and their offsets remembered. -/
theorem foldl_report (errors : List LexicalError) {parser : Parser}
    (unlimited : parser.Unlimited) (distinct : (errorStarts errors).Nodup)
    (isNew : ∀ offset ∈ errorStarts errors, offset ∉ parser.reportedAt) :
    let later := errors.foldl (fun parser problem => parser.report problem.toDiagnostic) parser
    later.Unlimited ∧
      later.diagnostics.entries =
        parser.diagnostics.entries ++ errors.map LexicalError.toDiagnostic ∧
      ∀ offset, offset ∈ later.reportedAt ↔
        offset ∈ errorStarts errors ∨ offset ∈ parser.reportedAt := by
  induction errors generalizing parser with
  | nil => exact ⟨unlimited, (List.append_nil _).symm, fun _ => by simp [errorStarts]⟩
  | cons problem errors ih =>
      have split : errorStarts (problem :: errors) = errorStarts [problem] ++ errorStarts errors :=
        errorStarts_append [problem] errors
      have here (offset : Nat) : offset ∈ errorStarts [problem] ↔
          problem.toDiagnostic.isError = true ∧ offset = problem.toDiagnostic.span.start := by
        change offset ∈ ((List.filter _ [problem]).map _) ↔ (problem.severity == .error) = true ∧
          offset = problem.span.start
        rw [List.filter_singleton]
        cases problem.severity == .error <;> simp
      rw [split, List.nodup_append] at distinct
      have unrepeated : ¬parser.Repeats problem.toDiagnostic := fun repeated =>
        isNew _ (split ▸ List.mem_append_left _ ((here _).mpr ⟨repeated.1, rfl⟩)) repeated.2
      have step := unlimited.report unrepeated
      have next : (parser.report problem.toDiagnostic).Unlimited := by
        rw [step]
        exact ⟨unlimited.below, unlimited.noLimit⟩
      have remembered (offset : Nat) :
          offset ∈ (parser.report problem.toDiagnostic).reportedAt ↔
            offset ∈ errorStarts [problem] ∨ offset ∈ parser.reportedAt := by
        rw [step, here]
        exact parser.mem_offsetsWith problem.toDiagnostic offset
      obtain ⟨unlimited, entries, reportedAt⟩ := ih next distinct.2.1 fun offset member inside =>
        ((remembered offset).mp inside).elim
          (fun twice => distinct.2.2 offset twice offset member rfl)
          (isNew offset (split ▸ List.mem_append_right _ member))
      refine ⟨unlimited, entries.trans ?_, fun offset => (reportedAt offset).trans ?_⟩
      · rw [step]
        exact List.append_assoc _ _ _
      · rw [remembered, split, List.mem_append, or_left_comm, or_assoc]

end Parser

/-! ### Parsing behind lexical errors -/

namespace Matching

/-- Parsers of which one has reported so much more at the front. At the offsets where anything
is still reported, both remember the same. -/
structure Behind (front : List Diagnostic) (offsets : Nat → Prop) (left right : Parser) :
    Prop where
  unlimited : left.Unlimited
  otherUnlimited : right.Unlimited
  entries : left.diagnostics.entries = front ++ right.diagnostics.entries
  reportedAt : ∀ offset, offsets offset → (offset ∈ left.reportedAt ↔ offset ∈ right.reportedAt)

structure SameStart (offsets : Nat → Prop) (span other : Span) : Prop where
  same : span = other
  start : offsets span.start

variable {front : List Diagnostic} {offsets : Nat → Prop}

theorem sameStart_merge {left right left' right' : Span} (spans : SameStart offsets left right)
    (others : SameStart offsets left' right') :
    SameStart offsets (left.merge left') (right.merge right') := by
  refine ⟨by rw [spans.same, others.same], ?_⟩
  rw [Span.merge_start]
  rcases Nat.le_total left.start left'.start with before | behind
  · rw [Nat.min_eq_left before]
    exact spans.start
  · rw [Nat.min_eq_right behind]
    exact others.start

theorem Behind.report {left right : Parser} (records : Behind front offsets left right)
    {diagnostic : Diagnostic} (start : offsets diagnostic.span.start) :
    Behind front offsets (left.report diagnostic) (right.report diagnostic) := by
  have repeats : left.Repeats diagnostic ↔ right.Repeats diagnostic :=
    and_congr_right fun _ => records.reportedAt _ start
  by_cases repeated : left.Repeats diagnostic
  · rw [Parser.report_of_repeats repeated, Parser.report_of_repeats (repeats.mp repeated)]
    exact records
  rw [records.unlimited.report repeated,
    records.otherUnlimited.report fun again => repeated (repeats.mpr again)]
  refine ⟨⟨records.unlimited.below, records.unlimited.noLimit⟩,
    ⟨records.otherUnlimited.below, records.otherUnlimited.noLimit⟩, ?_, fun offset inside => ?_⟩
  · rw [Report.push, Report.push, records.entries, List.append_assoc]
  · rw [Parser.mem_offsetsWith, Parser.mem_offsetsWith, records.reportedAt offset inside]

def behind (front : List Diagnostic) (offsets : Nat → Prop) : Matching where
  shown := id
  sieve := .whole
  Spans := SameStart offsets
  Records := Behind front offsets
  shown_eq spans := spans.same
  shown_after spans := congrArg Span.after spans.same
  merge := sameStart_merge
  moved _ _ records :=
    ⟨⟨records.unlimited.below, records.unlimited.noLimit⟩,
      ⟨records.otherUnlimited.below, records.otherUnlimited.noLimit⟩, records.entries,
      records.reportedAt⟩
  reported records same spans := by
    rw [← Diagnostic.eq_of_unplaced same spans.same]
    exact records.report spans.start

end Matching

/-! ### Sources and their tokens -/

section Source

variable (source : String)

def ValidStart (tokens : List Token) (offset : Nat) : Prop :=
  ∃ token ∈ tokens, token.kind ≠ .invalid ∧ token.span.start = offset

/-- No lexical error starts where something may be read. -/
theorem not_validStart_of_error {offset : Nat}
    (member : offset ∈ errorStarts (tokenize source).2) :
    ¬ValidStart (tokenize source).1 offset := by
  rintro ⟨token, inside, valid, rfl⟩
  rw [errorStarts_tokenize] at member
  obtain ⟨other, found, same⟩ := List.mem_map.mp member
  obtain ⟨otherInside, invalid⟩ := List.mem_filter.mp found
  have distinct := nodup_starts_tokenize source
  obtain rfl := List.inj_on_of_nodup_map distinct otherInside inside same
  exact valid (beq_iff_eq.mp invalid)

theorem nodup_errorStarts : (errorStarts (tokenize source).2).Nodup := by
  rw [errorStarts_tokenize]
  exact (nodup_starts_tokenize source).sublist (List.filter_sublist.map _)

theorem heard_tokenize (front : List Diagnostic) :
    List.Forall₂ (Matching.behind front (ValidStart (tokenize source).1)).Heard
      (tokenize source).1 (tokenize source).1 :=
  List.forall₂_same.mpr fun token inside =>
    ⟨rfl, fun valid => ⟨rfl, rfl, rfl, token, inside, valid, rfl⟩⟩

theorem end_tokenize : ∃ token ∈ (tokenize source).1, token.kind = .endOfFile := by
  obtain ⟨mark, -, isBehind⟩ := TokenStream.isBehind_ofSource source
  obtain ⟨earlier, last, tokens, ⟨isEnd, -⟩, -⟩ := isBehind.tokens.1.ends
  refine ⟨last, ?_, isEnd⟩
  rw [tokenize, tokens]
  exact List.mem_append_right _ List.mem_cons_self

/-- Parsing a source is parsing its tokens: without a limit on diagnostics the tree is the
same, places included, and the diagnostics are the lexical errors, in order and all of them,
with those of the tokens behind. -/
theorem parseWith_eq_parseTokens (options : Options) (noLimit : options.maxErrors = none) :
    (parseWith source options).1 = (parseTokens (tokenize source).1 options).1 ∧
    (parseWith source options).2.entries =
      (tokenize source).2.map LexicalError.toDiagnostic ++
        (parseTokens (tokenize source).1 options).2.entries := by
  let tokens := (tokenize source).1
  let errors := (tokenize source).2
  have bare : (Parser.ofTokens tokens [] options).Unlimited := ⟨rfl, noLimit⟩
  obtain ⟨unlimited, entries, reportedAt⟩ := Parser.foldl_report errors bare
    (nodup_errorStarts source) fun _ _ => List.not_mem_nil
  -- The offsets of lexical errors are none at which anything else is reported.
  have records : Matching.Behind (errors.map LexicalError.toDiagnostic) (ValidStart tokens)
      (.ofTokens tokens errors options) (.ofTokens tokens [] options) :=
    ⟨unlimited, bare, entries.trans (List.append_nil _).symm, fun offset valid =>
      (reportedAt offset).trans (or_iff_right fun error => not_validStart_of_error source error valid)⟩
  have parsers : (Matching.behind (errors.map LexicalError.toDiagnostic)
      (ValidStart tokens)).Parsers (.ofTokens tokens errors options)
      (.ofTokens tokens [] options) :=
    Matching.parsers_ofTokens (heard_tokenize source _) (.inl (end_tokenize source)) rfl
      (fun _ => rfl) records
  obtain ⟨trees, later, other, behind, reported, otherReported⟩ := Matching.readUnit_agree parsers
    (Parser.depth_ofTokens _ _ _) rfl
  have same : SourceUnit.sifted .whole (SourceUnit.placedBy id _) =
    SourceUnit.sifted .whole (SourceUnit.placedBy id _) := trees.same
  rw [SourceUnit.sifted_whole, SourceUnit.sifted_whole, SourceUnit.placedBy_id,
    SourceUnit.placedBy_id] at same
  refine ⟨same, ?_⟩
  rw [parseWith, parseTokens]
  change (Parser.readUnit (.ofTokens tokens errors options)).2.entries = _ ++
    (Parser.readUnit (.ofTokens tokens [] options)).2.entries
  rw [reported, otherReported]
  exact behind.records.entries

/-- A source with a character that belongs to no token. -/
theorem parseWith_eq_parseTokens_stray :
    (parseWith "int x = 1 # 2;" {}).1 = (parseTokens (tokenize "int x = 1 # 2;").1 {}).1 ∧
    (parseWith "int x = 1 # 2;" {}).2.entries =
      (tokenize "int x = 1 # 2;").2.map LexicalError.toDiagnostic ++
        (parseTokens (tokenize "int x = 1 # 2;").1 {}).2.entries :=
  parseWith_eq_parseTokens "int x = 1 # 2;" {} rfl

end Source

end ServiceLang
