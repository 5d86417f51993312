import ServiceLang.Parse.State

set_option autoImplicit false

/-! What a report adds to the list of diagnostics: nothing once the list is closed or where
the offset already has an error, the diagnostic while there is room, and the note that closes
the list where there is none. -/

namespace ServiceLang

/-- The note that closes a list of diagnostics, in place of the first one past the limit. -/
def Diagnostic.closing (limit : Nat) (diagnostic : Diagnostic) : Diagnostic :=
  .error .tooManyErrors diagnostic.span
    ("too many errors, stopped reporting after " ++ toString limit)

/-- What a rule has to say about its tokens: an error, and never the note that closes a list. -/
structure Diagnostic.IsComplaint (diagnostic : Diagnostic) : Prop where
  isError : diagnostic.isError = true
  notClosing : diagnostic.problem ≠ .tooManyErrors

theorem Diagnostic.IsComplaint.withRecovery {diagnostic : Diagnostic}
    (complains : diagnostic.IsComplaint) (recovery : Recovery) :
    (diagnostic.withRecovery recovery).IsComplaint :=
  ⟨complains.isError, complains.notClosing⟩

namespace Parser

def Repeats (parser : Parser) (diagnostic : Diagnostic) : Prop :=
  diagnostic.isError = true ∧ diagnostic.span.start ∈ parser.reportedAt

def offsetsWith (parser : Parser) (diagnostic : Diagnostic) : List Nat :=
  if diagnostic.isError then diagnostic.span.start :: parser.reportedAt else parser.reportedAt

def HasRoom (parser : Parser) : Prop :=
  ∀ limit, parser.options.maxErrors = some limit → parser.diagnostics.size < limit

variable {parser : Parser} {diagnostic : Diagnostic}

theorem mem_offsetsWith (parser : Parser) (diagnostic : Diagnostic) (offset : Nat) :
    offset ∈ parser.offsetsWith diagnostic ↔
      (diagnostic.isError = true ∧ offset = diagnostic.span.start) ∨
        offset ∈ parser.reportedAt := by
  rw [offsetsWith]
  split
  · rename_i isError
    rw [List.mem_cons, and_iff_right isError]
  · rename_i isWarning
    rw [or_iff_right fun ⟨isError, _⟩ => isWarning isError]

theorem report_of_limitHit (hit : parser.limitHit = true) : parser.report diagnostic = parser := by
  rw [report, if_pos hit]

theorem report_of_repeats (repeated : parser.Repeats diagnostic) :
    parser.report diagnostic = parser := by
  rw [report, if_pos (show (diagnostic.isError &&
    parser.reportedAt.contains diagnostic.span.start) = true from by
      rw [repeated.1, Bool.true_and]
      exact List.contains_iff_mem.mpr repeated.2)]
  split <;> rfl

section New

variable (below : parser.limitHit = false) (isNew : ¬parser.Repeats diagnostic)

include below isNew

/-- Behind its two checks a report takes the offset in, and then looks at the limit. -/
theorem report_of_new :
    parser.report diagnostic =
      match parser.options.maxErrors with
      | some limit =>
          if limit ≤ parser.diagnostics.size then
            { parser with
              reportedAt := parser.offsetsWith diagnostic
              limitHit := true
              diagnostics := parser.diagnostics.push (diagnostic.closing limit) }
          else
            { parser with
              reportedAt := parser.offsetsWith diagnostic
              diagnostics := parser.diagnostics.push diagnostic }
      | none =>
          { parser with
            reportedAt := parser.offsetsWith diagnostic
            diagnostics := parser.diagnostics.push diagnostic } := by
  have unrepeated : ¬(diagnostic.isError &&
      parser.reportedAt.contains diagnostic.span.start) = true := fun repeated => by
    rw [Bool.and_eq_true] at repeated
    exact isNew ⟨repeated.1, List.contains_iff_mem.mp repeated.2⟩
  obtain ⟨cursor, options, diagnostics, reportedAt, limitHit⟩ := parser
  obtain rfl : limitHit = false := below
  rw [report, if_neg Bool.false_ne_true, if_neg unrepeated, offsetsWith]
  cases diagnostic.isError <;> rfl

theorem report_of_room (room : parser.HasRoom) :
    parser.report diagnostic =
      { parser with
        reportedAt := parser.offsetsWith diagnostic
        diagnostics := parser.diagnostics.push diagnostic } := by
  rw [report_of_new below isNew]
  cases bound : parser.options.maxErrors with
  | none => rfl
  | some limit => exact if_neg (Nat.not_le.mpr (room limit bound))

theorem report_of_full {limit : Nat} (bound : parser.options.maxErrors = some limit)
    (full : limit ≤ parser.diagnostics.size) :
    parser.report diagnostic =
      { parser with
        reportedAt := parser.offsetsWith diagnostic
        limitHit := true
        diagnostics := parser.diagnostics.push (diagnostic.closing limit) } := by
  rw [report_of_new below isNew, bound]
  exact if_pos full

end New

/-- Where there is no room, the limit has been reached. -/
theorem exists_limit_of_full (full : ¬parser.HasRoom) :
    ∃ limit, parser.options.maxErrors = some limit ∧ limit ≤ parser.diagnostics.size := by
  simpa [HasRoom] using full

/-- What a report adds does not depend on the place. -/
theorem report_moved (parser : Parser) (cursor : Cursor) (diagnostic : Diagnostic) :
    { parser with cursor := cursor }.report diagnostic =
      { parser.report diagnostic with cursor := cursor } := by
  by_cases hit : parser.limitHit = true
  · rw [report_of_limitHit hit]
    exact report_of_limitHit hit
  by_cases repeated : parser.Repeats diagnostic
  · rw [report_of_repeats repeated]
    exact report_of_repeats repeated
  have below : parser.limitHit = false := Bool.eq_false_iff.mpr hit
  by_cases room : parser.HasRoom
  · rw [report_of_room below repeated room]
    exact @report_of_room { parser with cursor := cursor } diagnostic below repeated room
  · obtain ⟨limit, bound, full⟩ := exists_limit_of_full room
    rw [report_of_full below repeated bound full]
    exact @report_of_full { parser with cursor := cursor } diagnostic below repeated limit bound full

structure Unlimited (parser : Parser) : Prop where
  below : parser.limitHit = false
  noLimit : parser.options.maxErrors = none

theorem Unlimited.hasRoom {parser : Parser} (unlimited : parser.Unlimited) : parser.HasRoom := by
  intro limit bound
  rw [unlimited.noLimit] at bound
  cases bound

theorem Unlimited.report {parser : Parser} (unlimited : parser.Unlimited)
    {diagnostic : Diagnostic} (isNew : ¬parser.Repeats diagnostic) :
    parser.report diagnostic =
      { parser with
        reportedAt := parser.offsetsWith diagnostic
        diagnostics := parser.diagnostics.push diagnostic } :=
  report_of_room unlimited.below isNew unlimited.hasRoom

end Parser

end ServiceLang
