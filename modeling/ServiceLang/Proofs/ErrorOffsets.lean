import ServiceLang.Proofs.ErrorLimit
import ServiceLang.Proofs.Escapes
import ServiceLang.Proofs.LexicalErrors

set_option autoImplicit false

/-! No offset has two errors. Without a limit an error is dropped where its offset has one, so
that nothing behind an error starts where it does. The note that closes a list under a limit
stands where the first diagnostic past the limit would, be that one an error or a warning, and
so is at an offset of its own too. -/

namespace ServiceLang

/-- Nothing that is reported behind an error starts where the error does. -/
def Report.Apart (report : Report) : Prop :=
  report.entries.Pairwise fun earlier later =>
    earlier.isError = true → earlier.span.start ≠ later.span.start

namespace Report

variable {report : Report}

theorem Apart.nodup_errors (apart : report.Apart) :
    ((report.entries.filter Diagnostic.isError).map fun entry => entry.span.start).Nodup := by
  rw [List.Nodup, List.pairwise_map, List.pairwise_filter]
  exact apart.imp fun differ isError _ => differ isError

theorem Apart.push (apart : report.Apart) {diagnostic : Diagnostic}
    (isNew : ∀ entry ∈ report.entries, entry.isError = true →
      entry.span.start ≠ diagnostic.span.start) :
    (report.push diagnostic).Apart := by
  rw [Apart, Report.push, List.pairwise_append]
  refine ⟨apart, List.pairwise_singleton _ _, fun entry member other single => ?_⟩
  rw [List.mem_singleton.mp single]
  exact isNew entry member

/-- The note that closes a list stands where one of the dropped diagnostics did. -/
theorem Apart.cut (apart : report.Apart) {limit : Nat} {next : Diagnostic}
    (found : report.entries[limit]? = some next) :
    Apart ⟨report.entries.take limit ++ [next.closing limit]⟩ := by
  have upToNext : (report.entries.take limit ++ [next]).Pairwise fun earlier later =>
      earlier.isError = true → earlier.span.start ≠ later.span.start := by
    have split : report.entries.take (limit + 1) = report.entries.take limit ++ [next] := by
      rw [List.take_add_one, found, Option.toList_some]
    exact split ▸ apart.sublist (List.take_sublist _ _)
  obtain ⟨earlier, -, differ⟩ := List.pairwise_append.mp upToNext
  have cut : Apart ⟨report.entries.take limit⟩ := earlier
  exact cut.push fun entry member => differ entry member next List.mem_cons_self

end Report

/-! ### Lexical errors -/

/-- A warning is about something inside a token, and no token starts there. -/
theorem start_not_mem_errorStarts {source : String} {problem : LexicalError} {token : Token}
    (inside : token ∈ (tokenize source).1) (warns : problem.WarnsIn source.toList token) :
    problem.span.start ∉ errorStarts (tokenize source).2 := by
  intro member
  rw [errorStarts_tokenize] at member
  obtain ⟨other, found, same⟩ := List.mem_map.mp member
  have otherInside := (List.mem_filter.mp found).1
  obtain ⟨char, -, front, back, -, isSpan⟩ := warns.isEscape
  have extent : problem.span.start < problem.span.stop := by
    rw [isSpan]
    exact Nat.lt_add_of_pos_right (utf8Len_pos (List.cons_ne_nil _ _))
  have starts := warns.starts
  have stops : problem.span.stop ≤ token.span.stop :=
    warns.stops.elim And.right fun ⟨_, before⟩ => Nat.le_of_lt before
  obtain ⟨mark, -, isBehind⟩ := TokenStream.isBehind_ofSource source
  have ordered := isBehind.tokens.1.ordered
  rw [← tokenize] at ordered
  obtain ⟨before, behind, split⟩ := List.append_of_mem inside
  rw [split, List.pairwise_append, List.pairwise_cons] at ordered
  rw [split, List.mem_append, List.mem_cons] at otherInside
  rcases otherInside with isBefore | rfl | isAfter
  · have order := ordered.2.2 other isBefore token List.mem_cons_self
    omega
  · omega
  · have order := ordered.2.1.1 other isAfter
    omega

/-- The errors met in cutting a source, as the diagnostics that a parse begins with. -/
theorem apart_errors_tokenize (source : String) :
    Report.Apart ⟨(tokenize source).2.map LexicalError.toDiagnostic⟩ := by
  have distinct := nodup_errorStarts source
  rw [errorStarts, List.Nodup, List.pairwise_map, List.pairwise_filter] at distinct
  rw [Report.Apart, List.pairwise_map]
  refine List.Pairwise.imp_of_mem (fun {earlier later} inside laterInside differ isError => ?_)
    distinct
  by_cases laterIsError : (later.severity == .error) = true
  · exact differ isError laterIsError
  obtain ⟨mark, -, isBehind⟩ := TokenStream.isBehind_ofSource source
  rcases TokenStream.warnsIn_of_tokens isBehind later laterInside with early | found | warning
  · rw [TokenStream.errors_ofSource] at early
    cases early
  · exact absurd (beq_iff_eq.mpr found) laterIsError
  · obtain ⟨token, tokenInside, warns⟩ := warning
    intro same
    refine start_not_mem_errorStarts tokenInside warns ?_
    change later.toDiagnostic.span.start ∈ _
    rw [← same]
    exact List.mem_map_of_mem (List.mem_filter.mpr ⟨inside, isError⟩)

/-! ### The rules -/

structure Parser.Tidy (parser : Parser) : Prop where
  unlimited : parser.Unlimited
  apart : parser.diagnostics.Apart
  /-- The offsets of all errors are remembered. -/
  remembered : ∀ entry ∈ parser.diagnostics.entries, entry.isError = true →
    entry.span.start ∈ parser.reportedAt
  unclosed : ∀ entry ∈ parser.diagnostics.entries, entry.problem ≠ .tooManyErrors

namespace Parser

variable {parser : Parser}

theorem Tidy.report (tidy : parser.Tidy) {diagnostic : Diagnostic}
    (complains : diagnostic.IsComplaint) : (parser.report diagnostic).Tidy := by
  by_cases repeated : parser.Repeats diagnostic
  · rw [report_of_repeats repeated]
    exact tidy
  rw [tidy.unlimited.report repeated]
  refine ⟨⟨tidy.unlimited.below, tidy.unlimited.noLimit⟩,
    tidy.apart.push fun entry member isError same => ?_, fun entry member isError => ?_,
    fun entry member => ?_⟩
  · exact repeated ⟨complains.isError, same ▸ tidy.remembered entry member isError⟩
  · rw [mem_offsetsWith]
    rcases List.mem_append.mp member with earlier | here
    · exact .inr (tidy.remembered entry earlier isError)
    · rw [List.mem_singleton.mp here]
      exact .inl ⟨complains.isError, rfl⟩
  · rcases List.mem_append.mp member with earlier | here
    · exact tidy.unclosed entry earlier
    · rw [List.mem_singleton.mp here]
      exact complains.notClosing

theorem tidy_ofSource (source : String) {options : Options} (noLimit : options.maxErrors = none) :
    (ofSource source options).Tidy := by
  have bare : (ofTokens (tokenize source).1 [] options).Unlimited := ⟨rfl, noLimit⟩
  obtain ⟨unlimited, entries, reportedAt⟩ := foldl_report (tokenize source).2 bare
    (nodup_errorStarts source) fun _ _ => List.not_mem_nil
  replace entries : (ofSource source options).diagnostics.entries =
    (tokenize source).2.map LexicalError.toDiagnostic := entries
  refine ⟨unlimited, ?_, ?_, ?_⟩
  · rw [Report.Apart, entries]
    exact apart_errors_tokenize source
  · rw [entries]
    intro entry member isError
    obtain ⟨problem, inside, rfl⟩ := List.mem_map.mp member
    exact (reportedAt _).mpr (.inl (List.mem_map_of_mem (List.mem_filter.mpr ⟨inside, isError⟩)))
  · rw [entries]
    intro entry member
    obtain ⟨problem, -, rfl⟩ := List.mem_map.mp member
    exact Problem.noConfusion

/-- What the rules report, they report at offsets that have no error yet. -/
theorem tidy_of_sourceUnit {room : Nat} (tidy : parser.Tidy) {unit : SourceUnit} {later : Parser}
    (ran : Grammar.sourceUnit room parser = .ok unit later) : later.Tidy := by
  have kept := ((Grammar.sourceUnit_orderly room parser).keepingComplaints Tidy
    (fun _ tidy _ _ => ⟨⟨tidy.unlimited.below, tidy.unlimited.noLimit⟩, tidy.apart,
      tidy.remembered, tidy.unclosed⟩)
    (fun _ tidy => ⟨⟨tidy.unlimited.below, tidy.unlimited.noLimit⟩, tidy.apart,
      tidy.remembered, tidy.unclosed⟩)
    (fun _ _ complains tidy => tidy.report complains) tidy).2
  rwa [Step.after_of_ok ran] at kept

end Parser

/-- Without a limit no error repeats the offset of another, and nothing closes the list. -/
theorem apart_of_parseWith (source : String) {options : Options}
    (noLimit : options.maxErrors = none) :
    (parseWith source options).2.Apart ∧
      ∀ entry ∈ (parseWith source options).2.entries, entry.problem ≠ .tooManyErrors := by
  obtain ⟨unit, later, ran⟩ :=
    Grammar.sourceUnit_succeeds options.maxDepth (.ofSource source options)
  have tidy := Parser.tidy_of_sourceUnit (Parser.tidy_ofSource source noLimit) ran
  rw [parseWith_of_ok ran]
  exact ⟨tidy.apart, tidy.unclosed⟩

/-- No offset is reported twice: the errors of a parse start at different offsets, the note
that closes a list included. That note is the last entry wherever it stands, and as many
entries as the limit allows stand in front of it. -/
theorem parseWith_error_offsets (source : String) (options : Options) :
    let entries := (parseWith source options).2.entries
    ((entries.filter Diagnostic.isError).map fun entry => entry.span.start).Nodup ∧
      ∀ index entry, entries[index]? = some entry → entry.problem = .tooManyErrors →
        index + 1 = entries.length ∧ options.maxErrors = some index := by
  intro entries
  cases bound : options.maxErrors with
  | none =>
      obtain ⟨apart, unclosed⟩ := apart_of_parseWith source bound
      exact ⟨apart.nodup_errors, fun index entry found closes =>
        absurd closes (unclosed entry (List.mem_of_getElem? found))⟩
  | some limit =>
      have same : options.withLimit (some limit) = options := by
        rw [Options.withLimit, ← bound]
      obtain ⟨-, left, right, cut, reported, otherReported⟩ :=
        cut_of_parseWith source options limit
      have noLimit : (options.withLimit none).maxErrors = none := rfl
      obtain ⟨apart, unclosed⟩ := apart_of_parseWith source noLimit
      rw [otherReported] at apart unclosed
      rw [same] at reported
      subst entries
      rw [reported]
      rcases cut.course with ⟨-, equal, -, -⟩ | ⟨-, next, found, closed⟩
      · rw [equal]
        exact ⟨apart.nodup_errors, fun index entry found closes =>
          absurd closes (unclosed entry (List.mem_of_getElem? found))⟩
      have cutApart := apart.cut found
      rw [← closed] at cutApart
      refine ⟨cutApart.nodup_errors, fun index entry place closes => ?_⟩
      have inside : limit < right.diagnostics.entries.length :=
        (List.getElem?_eq_some_iff.mp found).1
      have length : (right.diagnostics.entries.take limit).length = limit :=
        List.length_take_of_le (Nat.le_of_lt inside)
      rw [closed] at place ⊢
      -- In front of the note stands what is reported without a limit, and that is no such note.
      have last : index = limit := by
        by_contra differs
        have index_lt := (List.getElem?_eq_some_iff.mp place).1
        rw [List.length_append, length, List.length_singleton] at index_lt
        rw [List.getElem?_append_left (by omega)] at place
        exact unclosed entry (List.mem_of_mem_take (List.mem_of_getElem? place)) closes
      rw [List.length_append, length, List.length_singleton, last]
      exact ⟨rfl, rfl⟩

end ServiceLang
