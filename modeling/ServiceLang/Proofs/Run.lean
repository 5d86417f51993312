import ServiceLang.Parse
import ServiceLang.Proofs.Outcome
import ServiceLang.Proofs.Reporting

set_option autoImplicit false

/-! The course of a parse. A step is made of a few primitive moves: it looks at
its place among the tokens and at the options, passes over tokens, takes
comments, and reports. A run says where that happens and that every turn of a
loop that goes on has passed over a token. What such steps have in common is
shown here once, by induction on the run. -/

namespace ServiceLang

/-- Two parsers at the same place with the same options. What they have reported
may differ. -/
structure Parser.Alike (left right : Parser) : Prop where
  cursor : right.cursor = left.cursor
  options : right.options = left.options

theorem Parser.Alike.refl (parser : Parser) : parser.Alike parser :=
  ⟨rfl, rfl⟩

/-- A parser that has reported nothing, and has dropped nothing either. -/
structure Parser.Clean (parser : Parser) : Prop where
  nothingReported : parser.diagnostics.entries = []
  nothingRemembered : parser.reportedAt = []
  belowLimit : parser.limitHit = false

def Parser.cleared (parser : Parser) : Parser :=
  { parser with
    diagnostics := .empty
    reportedAt := []
    limitHit := false
    depth := 0
    depth_le := Nat.zero_le _ }

theorem Parser.clean_cleared (parser : Parser) : parser.cleared.Clean :=
  ⟨rfl, rfl, rfl⟩

theorem Parser.clean_moved {parser : Parser} (cursor : Cursor) :
    { parser with cursor := cursor }.Clean ↔ parser.Clean := by
  constructor <;>
    exact fun clean => ⟨clean.nothingReported, clean.nothingRemembered, clean.belowLimit⟩

theorem Parser.options_report (parser : Parser) (diagnostic : Diagnostic) :
    (parser.report diagnostic).options = parser.options := by
  simp only [report]
  split
  · rfl
  · split
    · rfl
    · split <;> split <;> first | rfl | (split <;> rfl)

theorem Parser.cursor_ofTokens (tokens : List Token) (errors : List LexicalError) (options : Options) :
    (ofTokens tokens errors options).cursor = .ofTokens tokens ∧
      (ofTokens tokens errors options).options = options := by
  refine List.foldlRecOn
    (motive := fun parser : Parser => parser.cursor = .ofTokens tokens ∧ parser.options = options)
    errors _ ⟨rfl, rfl⟩ fun parser same problem _ => ?_
  rw [cursor_report, options_report]
  exact same

theorem Parser.cursor_ofSource (source : String) (options : Options) :
    (ofSource source options).cursor = .ofTokens (tokenize source).1 :=
  (cursor_ofTokens _ _ options).1

theorem Parser.options_ofSource (source : String) (options : Options) :
    (ofSource source options).options = options :=
  (cursor_ofTokens _ _ options).2

/-- A report is added to the list, unless the parser has already dropped or
remembered something. -/
theorem Parser.report_cases (parser : Parser) (diagnostic : Diagnostic) :
    (parser.report diagnostic = parser ∧
        (parser.limitHit = true ∨ parser.reportedAt ≠ [])) ∨
      ∃ entry, (parser.report diagnostic).diagnostics.entries =
        parser.diagnostics.entries ++ [entry] := by
  by_cases hit : parser.limitHit = true
  · exact .inl ⟨by simp [report, hit], .inl hit⟩
  · by_cases repeated : (diagnostic.isError &&
        parser.reportedAt.contains diagnostic.span.start) = true
    · refine .inl ⟨by simp only [report, if_neg hit, if_pos repeated], .inr ?_⟩
      intro empty
      simp [empty] at repeated
    · right
      cases bound : parser.options.maxErrors with
      | none =>
          refine ⟨diagnostic, ?_⟩
          cases severity : diagnostic.isError <;>
            simp_all [report, Report.push]
      | some limit =>
          by_cases full : limit ≤ parser.diagnostics.size
          · refine ⟨.error .tooManyErrors diagnostic.span
              ("too many errors, stopped reporting after " ++ toString limit), ?_⟩
            cases severity : diagnostic.isError <;>
              simp_all [report, Report.push]
          · refine ⟨diagnostic, ?_⟩
            cases severity : diagnostic.isError <;>
              simp_all [report, Report.push, if_neg full]

theorem Parser.not_clean_report (parser : Parser) (diagnostic : Diagnostic) :
    ¬(parser.report diagnostic).Clean := by
  intro clean
  rcases parser.report_cases diagnostic with ⟨dropped, reason⟩ | ⟨entry, added⟩
  · rw [dropped] at clean
    rcases reason with hit | remembered
    · rw [clean.belowLimit] at hit
      contradiction
    · exact remembered clean.nothingRemembered
  · rw [clean.nothingReported] at added
    simp at added

/-- What passing over one token keeps, passing over several ones keeps. Nothing
is passed over at the end. -/
theorem Parser.advanceBy_keeps {kept : Parser → Prop} {legal : Cursor → Prop}
    (advanced : ∀ parser, kept parser → legal parser.cursor → 0 < parser.cursor.remaining →
      kept { parser with cursor := parser.cursor.advance })
    (count : Nat) {parser : Parser} (start : kept parser)
    (isLegal : ∀ passed, passed < count → 0 < (parser.cursor.advanceBy passed).remaining →
      legal (parser.cursor.advanceBy passed)) :
    kept { parser with cursor := parser.cursor.advanceBy count } := by
  induction count generalizing parser with
  | zero => exact start
  | succ count ih =>
      have onwards : kept { parser with cursor := parser.cursor.advance } := by
        by_cases more : 0 < parser.cursor.remaining
        · exact advanced parser start (isLegal 0 (Nat.zero_lt_succ count) more) more
        · rw [parser.cursor.advance_of_remaining_zero (by omega)]
          exact start
      exact ih onwards fun passed less => isLegal (passed + 1) (Nat.succ_lt_succ less)

namespace Step

/-- The run of a step from a parser. `safe` holds of the parser whenever
something is done, and `legal` holds of its place whenever a token is passed
over. -/
inductive Run (safe : Parser → Prop) (legal : Cursor → Prop) :
    {α : Type} → Step α → Parser → Prop
  | look {α : Type} {step : Step α} {parser : Parser} (value : α)
      (looks : ∀ other, parser.Alike other → step other = .ok value other)
      (isSafe : safe parser) : Run safe legal step parser
  | fail {α : Type} {step : Step α} {parser : Parser} (diagnostic : Diagnostic)
      (complains : diagnostic.IsComplaint)
      (fails : ∀ other, parser.Alike other → step other = .error diagnostic other)
      (isSafe : safe parser) : Run safe legal step parser
  | move {step : Step Unit} {parser : Parser} (count : Nat)
      (moves : ∀ other, parser.Alike other →
        step other = .ok () { other with cursor := parser.cursor.advanceBy count })
      (isSafe : safe parser)
      (isLegal : ∀ passed, passed < count → 0 < (parser.cursor.advanceBy passed).remaining →
        legal (parser.cursor.advanceBy passed)) : Run safe legal step parser
  | report {step : Step Unit} {parser : Parser} (diagnostic : Diagnostic)
      (complains : diagnostic.IsComplaint)
      (reports : ∀ other, parser.Alike other → step other = .ok () (other.report diagnostic))
      (isSafe : safe parser) : Run safe legal step parser
  | takeComments {parser : Parser} (isSafe : safe parser) :
      Run safe legal takeComments parser
  | bind {α β : Type} {first : Step α} {next : α → Step β} {parser : Parser}
      (here : Run safe legal first parser)
      (onwards : ∀ value later, first parser = .ok value later → Run safe legal (next value) later) :
      Run safe legal (first >>= next) parser
  | tryCatch {α : Type} {part : Step α} {handle : Diagnostic → Step α} {parser : Parser}
      (here : Run safe legal part parser)
      (onwards : ∀ diagnostic later, part parser = .error diagnostic later →
        Run safe legal (handle diagnostic) later) :
      Run safe legal (MonadExcept.tryCatch part handle) parser
  | loop {σ : Type} {turn : σ → Step (ForInStep σ)} {state : σ} {parser : Parser}
      (here : Run safe legal (turn state) parser)
      (advances : ∀ next later, turn state parser = .ok (.yield next) later →
        later.cursor.remaining < parser.cursor.remaining)
      (onwards : ∀ next later, turn state parser = .ok (.yield next) later →
        Run safe legal (Step.loop turn next) later) :
      Run safe legal (Step.loop turn state) parser

namespace Run

variable {safe : Parser → Prop} {legal : Cursor → Prop}

/-- Two outcomes with the same value or the same diagnostic, behind which the
parsers are alike. -/
def Agree {α : Type} (left right : EStateM.Result Diagnostic Parser α) : Prop :=
  match left with
  | .ok value later => ∃ other, right = .ok value other ∧ later.Alike other
  | .error diagnostic later => ∃ other, right = .error diagnostic other ∧ later.Alike other

/-- What a step does depends on its place and on the options alone, never on what
has been reported. -/
theorem agree {α : Type} {step : Step α} {parser : Parser} (run : Run safe legal step parser) :
    ∀ other, parser.Alike other → Agree (step parser) (step other) := by
  -- By induction on the run, whose primitive moves look at nothing but the place and the options.
  induction run with
  | look value looks isSafe =>
      intro other alike
      rw [looks _ (.refl _), looks other alike]
      exact ⟨other, rfl, alike⟩
  | fail diagnostic complains fails isSafe =>
      intro other alike
      rw [fails _ (.refl _), fails other alike]
      exact ⟨other, rfl, alike⟩
  | move count moves isSafe isLegal =>
      intro other alike
      rw [moves _ (.refl _), moves other alike]
      exact ⟨_, rfl, rfl, alike.options⟩
  | report diagnostic complains reports isSafe =>
      intro other alike
      rw [reports _ (.refl _), reports other alike]
      refine ⟨_, rfl, ?_, ?_⟩
      · rw [Parser.cursor_report, Parser.cursor_report, alike.cursor]
      · rw [Parser.options_report, Parser.options_report, alike.options]
  | @takeComments parser isSafe =>
      intro other alike
      have keeps : other.options.keepComments = parser.options.keepComments :=
        congrArg Options.keepComments alike.options
      rw [takeComments_eq, takeComments_eq, keeps]
      split
      · rw [alike.cursor]
        exact ⟨_, rfl, rfl, alike.options⟩
      · exact ⟨other, rfl, alike⟩
  | @bind α β first next parser here onwards ihHere ihOnwards =>
      intro other alike
      have same := ihHere other alike
      cases outcome : first parser with
      | ok value later =>
          rw [outcome] at same
          obtain ⟨otherLater, otherOutcome, alikeLater⟩ := same
          rw [bind_of_ok outcome, bind_of_ok otherOutcome]
          exact ihOnwards value later outcome otherLater alikeLater
      | error diagnostic later =>
          rw [outcome] at same
          obtain ⟨otherLater, otherOutcome, alikeLater⟩ := same
          rw [bind_of_error outcome, bind_of_error otherOutcome]
          exact ⟨otherLater, rfl, alikeLater⟩
  | @tryCatch α part handle parser here onwards ihHere ihOnwards =>
      intro other alike
      have same := ihHere other alike
      cases outcome : part parser with
      | ok value later =>
          rw [outcome] at same
          obtain ⟨otherLater, otherOutcome, alikeLater⟩ := same
          rw [tryCatch_of_ok outcome, tryCatch_of_ok otherOutcome]
          exact ⟨otherLater, rfl, alikeLater⟩
      | error diagnostic later =>
          rw [outcome] at same
          obtain ⟨otherLater, otherOutcome, alikeLater⟩ := same
          rw [tryCatch_of_error outcome, tryCatch_of_error otherOutcome]
          exact ihOnwards diagnostic later outcome otherLater alikeLater
  | @loop σ turn state parser here advances onwards ihHere ihOnwards =>
      intro other alike
      have same := ihHere other alike
      cases outcome : turn state parser with
      | error diagnostic later =>
          rw [outcome] at same
          obtain ⟨otherLater, otherOutcome, alikeLater⟩ := same
          rw [loop_of_error outcome, loop_of_error otherOutcome]
          exact ⟨otherLater, rfl, alikeLater⟩
      | ok decision later =>
          rw [outcome] at same
          obtain ⟨otherLater, otherOutcome, alikeLater⟩ := same
          cases decision with
          | done final =>
              rw [loop_of_done outcome, loop_of_done otherOutcome]
              exact ⟨otherLater, rfl, alikeLater⟩
          | yield next =>
              have shorter := advances next later outcome
              have otherShorter : otherLater.cursor.remaining < other.cursor.remaining := by
                rw [alikeLater.cursor, alike.cursor]
                exact shorter
              rw [loop_of_yield outcome shorter, loop_of_yield otherOutcome otherShorter]
              exact ihOnwards next later outcome otherLater alikeLater

/-- A property that is kept by passing over a token, by taking comments and by
reporting what a rule complains of holds throughout a run, and behind it. -/
theorem keepingComplaints (kept : Parser → Prop)
    (advanced : ∀ parser, kept parser → legal parser.cursor → 0 < parser.cursor.remaining →
      kept { parser with cursor := parser.cursor.advance })
    (taken : ∀ parser, kept parser →
      kept { parser with cursor := { parser.cursor with comments := [] } })
    (reported : ∀ parser diagnostic, diagnostic.IsComplaint → kept parser →
      kept (parser.report diagnostic))
    {α : Type} {step : Step α} {parser : Parser} (run : Run safe legal step parser)
    (start : kept parser) :
    Run kept legal step parser ∧ kept (after step parser) := by
  induction run with
  | look value looks isSafe =>
      rw [after_of_ok (looks _ (.refl _))]
      exact ⟨.look value looks start, start⟩
  | fail diagnostic complains fails isSafe =>
      rw [after_of_error (fails _ (.refl _))]
      exact ⟨.fail diagnostic complains fails start, start⟩
  | move count moves isSafe isLegal =>
      rw [after_of_ok (moves _ (.refl _))]
      refine ⟨.move count moves start isLegal, ?_⟩
      exact Parser.advanceBy_keeps advanced count start isLegal
  | report diagnostic complains reports isSafe =>
      rw [after_of_ok (reports _ (.refl _))]
      exact ⟨.report diagnostic complains reports start, reported _ _ complains start⟩
  | @takeComments parser isSafe =>
      refine ⟨.takeComments start, ?_⟩
      rw [after, takeComments_eq]
      by_cases keep : parser.options.keepComments = true
      · rw [if_pos keep]
        exact taken _ start
      · rw [if_neg keep]
        exact start
  | @bind α β first next parser here onwards ihHere ihOnwards =>
      obtain ⟨runHere, keptHere⟩ := ihHere start
      cases outcome : first parser with
      | ok value later =>
          rw [after_of_ok outcome] at keptHere
          refine ⟨.bind runHere fun value later ran => ?_, ?_⟩
          · have same := outcome.symm.trans ran
            cases same
            exact (ihOnwards _ _ ran keptHere).1
          · rw [after, bind_of_ok outcome]
            exact (ihOnwards value later outcome keptHere).2
      | error diagnostic later =>
          refine ⟨.bind runHere fun value later ran => ?_, ?_⟩
          · cases outcome.symm.trans ran
          · rw [after_of_error outcome] at keptHere
            rw [after_of_error (bind_of_error outcome)]
            exact keptHere
  | @tryCatch α part handle parser here onwards ihHere ihOnwards =>
      obtain ⟨runHere, keptHere⟩ := ihHere start
      cases outcome : part parser with
      | ok value later =>
          refine ⟨.tryCatch runHere fun diagnostic later failed => ?_, ?_⟩
          · cases outcome.symm.trans failed
          · rw [after_of_ok outcome] at keptHere
            rw [after_of_ok (tryCatch_of_ok outcome)]
            exact keptHere
      | error diagnostic later =>
          rw [after_of_error outcome] at keptHere
          refine ⟨.tryCatch runHere fun diagnostic later failed => ?_, ?_⟩
          · have same := outcome.symm.trans failed
            cases same
            exact (ihOnwards _ _ failed keptHere).1
          · rw [after, tryCatch_of_error outcome]
            exact (ihOnwards diagnostic later outcome keptHere).2
  | @loop σ turn state parser here advances onwards ihHere ihOnwards =>
      obtain ⟨runHere, keptHere⟩ := ihHere start
      refine ⟨.loop runHere advances fun next later ran => ?_, ?_⟩
      · rw [after_of_ok ran] at keptHere
        exact (ihOnwards next later ran keptHere).1
      · cases outcome : turn state parser with
        | error diagnostic later =>
            rw [after_of_error outcome] at keptHere
            rw [after_of_error (loop_of_error outcome)]
            exact keptHere
        | ok decision later =>
            rw [after_of_ok outcome] at keptHere
            cases decision with
            | done final =>
                rw [after_of_ok (loop_of_done outcome)]
                exact keptHere
            | yield next =>
                rw [after, loop_of_yield outcome (advances next later outcome)]
                exact (ihOnwards next later outcome keptHere).2

/-- The same for what is kept by reporting anything at all. -/
theorem keeping (kept : Parser → Prop)
    (advanced : ∀ parser, kept parser → legal parser.cursor → 0 < parser.cursor.remaining →
      kept { parser with cursor := parser.cursor.advance })
    (taken : ∀ parser, kept parser →
      kept { parser with cursor := { parser.cursor with comments := [] } })
    (reported : ∀ parser diagnostic, kept parser → kept (parser.report diagnostic))
    {α : Type} {step : Step α} {parser : Parser} (run : Run safe legal step parser)
    (start : kept parser) :
    Run kept legal step parser ∧ kept (after step parser) :=
  run.keepingComplaints kept advanced taken
    (fun parser diagnostic _ => reported parser diagnostic) start

/-! ### Behind a run -/

variable {α : Type} {step : Step α} {parser : Parser}

/-- A step that fails gives a complaint: its own, or that of a part. -/
theorem complains_of_error (run : Run safe legal step parser) {diagnostic : Diagnostic}
    {later : Parser} (failed : step parser = .error diagnostic later) :
    diagnostic.IsComplaint := by
  induction run generalizing diagnostic later with
  | look value looks _ =>
      cases (looks _ (.refl _)).symm.trans failed
  | fail other complains fails _ =>
      cases (fails _ (.refl _)).symm.trans failed
      exact complains
  | move count moves _ _ =>
      cases (moves _ (.refl _)).symm.trans failed
  | report other _ reports _ =>
      cases (reports _ (.refl _)).symm.trans failed
  | takeComments _ =>
      rw [takeComments_eq] at failed
      split at failed <;> cases failed
  | @bind α β first next parser here onwards ihHere ihOnwards =>
      cases outcome : first parser with
      | ok value between =>
          rw [bind_of_ok outcome] at failed
          exact ihOnwards value between outcome failed
      | error other between =>
          rw [bind_of_error outcome] at failed
          cases failed
          exact ihHere outcome
  | @tryCatch α part handle parser here onwards ihHere ihOnwards =>
      cases outcome : part parser with
      | ok value between =>
          rw [tryCatch_of_ok outcome] at failed
          cases failed
      | error other between =>
          rw [tryCatch_of_error outcome] at failed
          exact ihOnwards other between outcome failed
  | @loop σ turn state parser here advances onwards ihHere ihOnwards =>
      cases outcome : turn state parser with
      | error other between =>
          rw [loop_of_error outcome] at failed
          cases failed
          exact ihHere outcome
      | ok decision between =>
          cases decision with
          | done final =>
              rw [loop_of_done outcome] at failed
              cases failed
          | yield next =>
              rw [loop_of_yield outcome (advances next between outcome)] at failed
              exact ihOnwards next between outcome failed

/-- Nothing is ever read twice. -/
theorem remaining_le (run : Run safe legal step parser) :
    (after step parser).cursor.remaining ≤ parser.cursor.remaining := by
  have bounded := run.keeping
    (fun later => later.cursor.remaining ≤ parser.cursor.remaining)
    (fun later start _ _ => by
      change later.cursor.advance.remaining ≤ _
      rw [Cursor.remaining_advance]
      omega)
    (fun _ start => start)
    (fun later diagnostic start => by rw [Parser.cursor_report]; exact start)
    (Nat.le_refl _)
  exact bounded.2

theorem options_eq (run : Run safe legal step parser) :
    (after step parser).options = parser.options :=
  (run.keeping (fun later => later.options = parser.options)
    (fun _ same _ _ => same) (fun _ same => same)
    (fun later diagnostic same => (later.options_report diagnostic).trans same) rfl).2

theorem options_of_ok (run : Run safe legal step parser) {later : Parser} {value : α}
    (ran : step parser = .ok value later) : later.options = parser.options := by
  have kept := run.options_eq
  rwa [after_of_ok ran] at kept

/-- Where nothing is reported in the end, nothing was reported before. -/
theorem clean_of_after (run : Run safe legal step parser)
    (clean : (after step parser).Clean) : parser.Clean := by
  apply Classical.byContradiction
  intro reported
  have still := run.keeping (fun later => ¬later.Clean)
    (fun _ notClean _ _ clean => notClean ((Parser.clean_moved _).mp clean))
    (fun _ notClean clean => notClean ((Parser.clean_moved _).mp clean))
    (fun later diagnostic _ => later.not_clean_report diagnostic)
    reported
  exact still.2 clean

end Run

end Step

end ServiceLang
