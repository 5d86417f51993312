import ServiceLang.Parse.Lookahead
import ServiceLang.Parse.Recovery

set_option autoImplicit false

/-! What a step gives and where it leaves the parser: for steps one after another
from the outcomes of the parts, and for the steps that every rule is made of. -/

namespace ServiceLang

namespace Step

variable {α β : Type}

/-! ### Running one step after another -/

theorem bind_of_ok {first : Step α} {next : α → Step β} {parser later : Parser} {value : α}
    (ran : first parser = .ok value later) : (first >>= next) parser = next value later := by
  change EStateM.bind first next parser = _
  rw [EStateM.bind, ran]

theorem bind_of_error {first : Step α} {next : α → Step β} {parser later : Parser}
    {diagnostic : Diagnostic} (failed : first parser = .error diagnostic later) :
    (first >>= next) parser = .error diagnostic later := by
  change EStateM.bind first next parser = _
  rw [EStateM.bind, failed]

theorem bind_ok {first : Step α} {next : α → Step β} {parser later : Parser} {result : β}
    (ran : (first >>= next) parser = .ok result later) :
    ∃ value between, first parser = .ok value between ∧ next value between = .ok result later := by
  cases here : first parser with
  | ok value between =>
      rw [bind_of_ok here] at ran
      exact ⟨value, between, rfl, ran⟩
  | error diagnostic between =>
      rw [bind_of_error here] at ran
      cases ran

theorem tryCatch_eq (part : Step α) (handle : Diagnostic → Step α) (parser : Parser) :
    (tryCatch part handle) parser =
      match part parser with
      | .ok value later => .ok value later
      | .error diagnostic later => handle diagnostic later := by
  change EStateM.tryCatch part handle parser = _
  delta EStateM.tryCatch
  cases part parser <;> rfl

theorem tryCatch_of_ok {part : Step α} {handle : Diagnostic → Step α} {parser later : Parser}
    {value : α} (ran : part parser = .ok value later) :
    (tryCatch part handle) parser = .ok value later := by
  rw [tryCatch_eq, ran]

theorem tryCatch_of_error {part : Step α} {handle : Diagnostic → Step α} {parser later : Parser}
    {diagnostic : Diagnostic} (failed : part parser = .error diagnostic later) :
    (tryCatch part handle) parser = handle diagnostic later := by
  rw [tryCatch_eq, failed]

theorem loop_of_error {σ : Type} {turn : σ → Step (ForInStep σ)} {state : σ}
    {parser later : Parser} {diagnostic : Diagnostic}
    (failed : turn state parser = .error diagnostic later) :
    loop turn state parser = .error diagnostic later := by
  rw [loop, failed]

theorem loop_of_done {σ : Type} {turn : σ → Step (ForInStep σ)} {state final : σ}
    {parser later : Parser} (ran : turn state parser = .ok (.done final) later) :
    loop turn state parser = .ok final later := by
  rw [loop, ran]

theorem loop_of_yield {σ : Type} {turn : σ → Step (ForInStep σ)} {state next : σ}
    {parser later : Parser} (ran : turn state parser = .ok (.yield next) later)
    (shorter : later.cursor.remaining < parser.cursor.remaining) :
    loop turn state parser = loop turn next later := by
  rw [loop, ran]
  exact if_pos shorter

theorem loop_of_still {σ : Type} {turn : σ → Step (ForInStep σ)} {state next : σ}
    {parser later : Parser} (ran : turn state parser = .ok (.yield next) later)
    (still : ¬later.cursor.remaining < parser.cursor.remaining) :
    loop turn state parser = .ok next later := by
  rw [loop, ran]
  exact if_neg still

/-- What a loop has given came from its first turn, or from a loop behind it. A
turn that goes on without having moved is the last one too. -/
theorem loop_ok {σ : Type} {turn : σ → Step (ForInStep σ)} {state final : σ}
    {parser later : Parser} (ran : loop turn state parser = .ok final later) :
    turn state parser = .ok (.done final) later ∨
      ∃ next between, turn state parser = .ok (.yield next) between ∧
        (between.cursor.remaining < parser.cursor.remaining ∧
            loop turn next between = .ok final later ∨
          ¬between.cursor.remaining < parser.cursor.remaining ∧
            final = next ∧ later = between) := by
  rw [loop] at ran
  cases outcome : turn state parser with
  | error diagnostic between =>
      rw [outcome] at ran
      cases ran
  | ok decision between =>
      rw [outcome] at ran
      cases decision with
      | done state =>
          cases ran
          exact .inl rfl
      | yield next =>
          refine .inr ⟨next, between, rfl, ?_⟩
          by_cases shorter : between.cursor.remaining < parser.cursor.remaining
          · simp only [if_pos shorter] at ran
            exact .inl ⟨shorter, ran⟩
          · simp only [if_neg shorter] at ran
            cases ran
            exact .inr ⟨shorter, rfl, rfl⟩

/-- The parser behind a step, whether the step gives a value or fails. -/
def after (step : Step α) (parser : Parser) : Parser :=
  match step parser with
  | .ok _ later => later
  | .error _ later => later

theorem after_of_ok {step : Step α} {parser later : Parser} {value : α}
    (ran : step parser = .ok value later) : after step parser = later := by
  rw [after, ran]

theorem after_of_error {step : Step α} {parser later : Parser} {diagnostic : Diagnostic}
    (failed : step parser = .error diagnostic later) : after step parser = later := by
  rw [after, failed]

/-! ### Looking -/

section Looking

variable (parser : Parser)

theorem pure_eq (value : α) : (pure value : Step α) parser = .ok value parser :=
  rfl

theorem cursor_eq : cursor parser = .ok parser.cursor parser :=
  rfl

theorem options_eq : options parser = .ok parser.options parser :=
  rfl

theorem peek_eq : peek parser = .ok parser.cursor.peek parser :=
  rfl

theorem current_eq : current parser = .ok parser.cursor.peek.kind parser :=
  rfl

theorem kindNth_eq (count : Nat) :
    kindNth count parser = .ok (parser.cursor.peekNth count).kind parser :=
  rfl

theorem check_eq (kind : Kind) :
    check kind parser = .ok (parser.cursor.peek.kind == kind) parser :=
  rfl

theorem spanFrom_eq (start : Span) :
    spanFrom start parser = .ok (parser.cursor.spanFrom start) parser :=
  rfl

theorem isInvocation_eq :
    isInvocation parser = .ok (startsInvocation parser.cursor.kinds) parser :=
  rfl

theorem isJoinCondition_eq :
    isJoinCondition parser = .ok (startsJoinCondition parser.cursor.kinds) parser :=
  rfl

end Looking

theorem look_bind {look : Step α} {next : α → Step β} {parser : Parser} {value : α}
    (looks : look parser = .ok value parser) : (look >>= next) parser = next value parser :=
  bind_of_ok looks

theorem takeComments_eq (parser : Parser) :
    takeComments parser =
      if parser.options.keepComments then
        .ok parser.cursor.comments
          { parser with cursor := { parser.cursor with comments := [] } }
      else .ok [] parser := by
  by_cases keep : parser.options.keepComments = true
  · rw [if_pos keep]
    change (if parser.options.keepComments = true then _ else _ : Step (List Token)) parser = _
    rw [if_pos keep]
    rfl
  · rw [if_neg keep]
    change (if parser.options.keepComments = true then _ else _ : Step (List Token)) parser = _
    rw [if_neg keep]
    rfl

/-! ### Failing and reporting -/

theorem fail_eq (diagnostic : Diagnostic) (parser : Parser) :
    (fail diagnostic : Step α) parser = .error diagnostic parser :=
  rfl

theorem fail_ne_ok {diagnostic : Diagnostic} {parser later : Parser} {value : α} :
    (fail diagnostic : Step α) parser ≠ .ok value later := by
  rw [fail_eq]
  exact fun same => nomatch same

theorem failAt_ne_ok {other : Token → Diagnostic} {parser later : Parser} {value : α} :
    (failAt other : Step α) parser ≠ .ok value later := by
  rw [failAt, look_bind (peek_eq parser)]
  exact fail_ne_ok

theorem tooDeep_eq (parser : Parser) :
    (tooDeep : Step α) parser =
      .error (.error .nestingTooDeep parser.cursor.peek.span
        ("nesting exceeds the limit of " ++ toString parser.options.maxDepth)) parser :=
  rfl

theorem tooDeep_ne_ok {parser later : Parser} {value : α} :
    (tooDeep : Step α) parser ≠ .ok value later := by
  rw [tooDeep, look_bind (peek_eq parser), look_bind (options_eq parser)]
  exact fail_ne_ok

theorem report_eq (diagnostic : Diagnostic) (parser : Parser) :
    report diagnostic parser = .ok () (parser.report diagnostic) :=
  rfl

end Step

def Parser.advance (parser : Parser) : Parser :=
  { parser with cursor := parser.cursor.advance }

theorem kinds_of_peek {parser : Parser} {kind : Kind} (here : parser.cursor.peek.kind = kind)
    (notEnd : kind ≠ .endOfFile) : parser.cursor.kinds = kind :: parser.advance.cursor.kinds := by
  change _ = kind :: parser.cursor.advance.kinds
  rw [Cursor.kind_peek] at here
  rw [Cursor.kinds_advance]
  cases ahead : parser.cursor.kinds with
  | nil =>
      rw [ahead] at here
      exact absurd here.symm notEnd
  | cons first rest =>
      rw [ahead] at here
      exact congrArg (· :: rest) here

theorem peek_of_kinds {parser : Parser} {kind : Kind} {rest : List Kind}
    (ahead : parser.cursor.kinds = kind :: rest) :
    parser.cursor.peek.kind = kind ∧ parser.advance.cursor.kinds = rest := by
  constructor
  · rw [Cursor.kind_peek, ahead, List.head?_cons, Option.getD_some]
  · change parser.cursor.advance.kinds = rest
    rw [Cursor.kinds_advance, ahead, List.tail_cons]

namespace Step

variable {α : Type}

/-! ### Consuming -/

theorem advance_eq (parser : Parser) :
    advance parser = .ok parser.cursor.peek parser.advance :=
  rfl

theorem expect_of_kind {kind : Kind} {parser : Parser} (here : parser.cursor.peek.kind = kind) :
    expect kind parser = .ok parser.cursor.peek parser.advance := by
  rw [expect, look_bind (check_eq parser kind), if_pos (by simpa using here), advance_eq]

theorem expect_of_other {kind : Kind} {parser : Parser} (other : parser.cursor.peek.kind ≠ kind) :
    expect kind parser =
      .error (wrongToken parser.cursor.peek kind.description) parser := by
  rw [expect, look_bind (check_eq parser kind), if_neg (by simpa using other),
    look_bind (peek_eq parser), fail_eq]

theorem expect_ok {kind : Kind} {parser later : Parser} {token : Token}
    (ran : expect kind parser = .ok token later) :
    parser.cursor.peek.kind = kind ∧ token = parser.cursor.peek ∧ later = parser.advance := by
  by_cases here : parser.cursor.peek.kind = kind
  · rw [expect_of_kind here] at ran
    cases ran
    exact ⟨here, rfl, rfl⟩
  · rw [expect_of_other here] at ran
    cases ran

theorem eat?_of_kind {kind : Kind} {parser : Parser} (here : parser.cursor.peek.kind = kind) :
    eat? kind parser = .ok (some parser.cursor.peek) parser.advance := by
  rw [eat?, look_bind (check_eq parser kind), if_pos (by simpa using here),
    bind_of_ok (advance_eq parser), pure_eq]

theorem eat?_of_other {kind : Kind} {parser : Parser} (other : parser.cursor.peek.kind ≠ kind) :
    eat? kind parser = .ok none parser := by
  rw [eat?, look_bind (check_eq parser kind), if_neg (by simpa using other), pure_eq]

theorem eat_of_kind {kind : Kind} {parser : Parser} (here : parser.cursor.peek.kind = kind) :
    eat kind parser = .ok true parser.advance := by
  rw [eat, bind_of_ok (eat?_of_kind here), pure_eq]
  rfl

theorem eat_of_other {kind : Kind} {parser : Parser} (other : parser.cursor.peek.kind ≠ kind) :
    eat kind parser = .ok false parser := by
  rw [eat, bind_of_ok (eat?_of_other other), pure_eq]
  rfl

theorem expectIdentifier_of_kind {parser : Parser}
    (here : parser.cursor.peek.kind = .identifier) :
    expectIdentifier parser =
      .ok ⟨parser.cursor.peek.lexeme, parser.cursor.peek.span⟩ parser.advance := by
  rw [expectIdentifier, look_bind (check_eq parser _), if_pos (by simpa using here),
    bind_of_ok (advance_eq parser), pure_eq]

theorem expectIdentifier_ok {parser later : Parser} {name : Identifier}
    (ran : expectIdentifier parser = .ok name later) :
    parser.cursor.peek.kind = .identifier ∧
      name = ⟨parser.cursor.peek.lexeme, parser.cursor.peek.span⟩ ∧ later = parser.advance := by
  by_cases here : parser.cursor.peek.kind = .identifier
  · rw [expectIdentifier_of_kind here] at ran
    cases ran
    exact ⟨here, rfl, rfl⟩
  · rw [expectIdentifier, look_bind (check_eq parser _), if_neg (by simpa using here)] at ran
    exact absurd ran failAt_ne_ok

end Step

end ServiceLang
