import ServiceLang.Proofs.Isolation
import ServiceLang.Proofs.Reporting

set_option autoImplicit false

/-! What stands in front of a definition does not matter to it. Until a step has passed
over a token, it sees neither the token consumed last nor the comments before the current
one; once it has, nothing is left that could tell two such places apart. -/

namespace ServiceLang

/-- Two parsers before the same tokens, with the same reports. The token consumed last and
the comments before the current token may differ. -/
structure Parser.Near (left right : Parser) : Prop where
  reports : { right with cursor := left.cursor } = left
  peek : right.cursor.peek = left.cursor.peek
  behind : right.cursor.ahead.tail = left.cursor.ahead.tail
  remaining : right.cursor.remaining = left.cursor.remaining
  final : left.cursor.ahead ≠ [] → right.cursor.final = left.cursor.final

namespace Parser.Near

variable {left right : Parser} (near : left.Near right)

include near

theorem options : right.options = left.options := by
  have same := congrArg Parser.options near.reports
  exact same

theorem more (more : left.cursor.ahead ≠ []) : right.cursor.ahead ≠ [] := by
  rw [← List.length_pos_iff] at more ⊢
  rw [show right.cursor.ahead.length = left.cursor.ahead.length from near.remaining]
  exact more

theorem atEnd (empty : left.cursor.ahead = []) : right.cursor.ahead = [] := by
  apply List.eq_nil_of_length_eq_zero
  rw [show right.cursor.ahead.length = left.cursor.ahead.length from near.remaining, empty]
  rfl

/-- Behind the current token the places are the same. -/
theorem cursor_advance (more : left.cursor.ahead ≠ []) :
    right.cursor.advance = left.cursor.advance := by
  have final := near.final more
  apply Cursor.ext
  · rw [Cursor.previous_advance _ more, Cursor.previous_advance _ (near.more more), near.peek]
  · rw [Cursor.comments_advance _ more, Cursor.comments_advance _ (near.more more), near.behind,
      final]
  · rw [Cursor.ahead_advance, Cursor.ahead_advance, near.behind]
  · rw [Cursor.final_advance, Cursor.final_advance, final]

theorem advance (more : left.cursor.ahead ≠ []) : right.advance = left.advance := by
  rw [Parser.advance, near.cursor_advance more]
  exact congrArg (fun parser => { parser with cursor := left.cursor.advance }) near.reports

theorem tokens : right.cursor.ahead.map Slot.token = left.cursor.ahead.map Slot.token := by
  have lengths : right.cursor.ahead.length = left.cursor.ahead.length := near.remaining
  have first := near.peek
  have behind := near.behind
  rw [Cursor.peek, Cursor.peek] at first
  cases isLeft : left.cursor.ahead <;> cases isRight : right.cursor.ahead <;> simp_all

theorem kinds : right.cursor.kinds = left.cursor.kinds := by
  have same := congrArg (List.map Token.kind) near.tokens
  rw [List.map_map, List.map_map] at same
  exact same

theorem peekNth (count : Nat) : right.cursor.peekNth count = left.cursor.peekNth count := by
  cases count with
  | zero => rw [← Cursor.peek_eq_peekNth, ← Cursor.peek_eq_peekNth, near.peek]
  | succ count =>
      by_cases empty : left.cursor.ahead = []
      · have first := near.peek
        rw [Cursor.peek, Cursor.peek, empty, near.atEnd empty] at first
        rw [Cursor.peekNth, Cursor.peekNth, empty, near.atEnd empty]
        exact first
      · rw [← Cursor.peekNth_advance, ← Cursor.peekNth_advance, near.cursor_advance empty]

/-! ### Recovery from either place -/

theorem consumedSince (cursor : Cursor) :
    cursor.consumedSince right.cursor = cursor.consumedSince left.cursor := by
  rw [Cursor.consumedSince, Cursor.consumedSince, List.map_take, List.map_take, near.tokens,
    near.remaining]

theorem syncDefinition (cursor : Cursor) :
    cursor.syncDefinition right.cursor = cursor.syncDefinition left.cursor := by
  rw [Cursor.syncDefinition, Cursor.syncDefinition, near.consumedSince, Cursor.advanceIfStill,
    Cursor.advanceIfStill, near.remaining]

theorem spanSince (cursor : Cursor) :
    cursor.spanSince right.cursor = cursor.spanSince left.cursor := by
  rw [Cursor.spanSince, Cursor.spanSince, near.remaining, near.peek]

/-- A definition that fails where it starts is skipped from either place alike. -/
theorem syncDefinition_of_still (more : left.cursor.ahead ≠ []) :
    right.cursor.syncDefinition right.cursor = left.cursor.syncDefinition left.cursor := by
  have nothing (cursor : Cursor) : cursor.consumedSince cursor = [] := by
    rw [Cursor.consumedSince, Nat.sub_self]
    rfl
  rw [Cursor.syncDefinition, Cursor.syncDefinition, nothing, nothing, Cursor.advanceIfStill,
    Cursor.advanceIfStill, if_pos rfl, if_pos rfl, near.cursor_advance more]

theorem moved (cursor : Cursor) :
    { right with cursor := cursor } = { left with cursor := cursor } :=
  congrArg (fun parser => { parser with cursor := cursor }) near.reports

theorem report (diagnostic : Diagnostic) : (left.report diagnostic).Near (right.report diagnostic) := by
  constructor
  · rw [Parser.cursor_report, ← Parser.report_moved, near.reports]
  all_goals rw [Parser.cursor_report, Parser.cursor_report]
  · exact near.peek
  · exact near.behind
  · exact near.remaining
  · exact near.final

end Parser.Near

namespace Step

variable {α β σ : Type}

theorem bind_of_eq {first other : Step α} {next : α → Step β} {left right : Parser}
    (same : other right = first left) : (other >>= next) right = (first >>= next) left := by
  cases outcome : first left with
  | ok value later => rw [bind_of_ok outcome, bind_of_ok (same.trans outcome)]
  | error diagnostic later => rw [bind_of_error outcome, bind_of_error (same.trans outcome)]

/-- A step that comes to the same from near places, unless it has not moved yet. One that
`opens` something has moved when it gives a value. -/
def Fresh (opens : Prop) (step : Step α) : Prop :=
  ∀ ⦃left right : Parser⦄, left.Near right → step right = step left ∨
    (∃ diagnostic, step left = .error diagnostic left ∧ step right = .error diagnostic right) ∨
    ¬opens ∧ ∃ value, step left = .ok value left ∧ step right = .ok value right

namespace Fresh

variable {opens : Prop} {first : Step α} {next : α → Step β}

/-! ### Looking and failing -/

theorem look {look : Step α} (seen : Parser → α)
    (looks : ∀ parser, look parser = .ok (seen parser) parser)
    (same : ∀ {left right : Parser}, left.Near right → seen right = seen left) :
    Fresh False look := by
  intro left right near
  right; right
  refine ⟨not_false, seen left, looks left, ?_⟩
  rw [looks right, same near]

theorem peek : Fresh False Step.peek :=
  look _ peek_eq fun near => near.peek

theorem current : Fresh False Step.current :=
  look _ current_eq fun near => congrArg Token.kind near.peek

theorem check (kind : Kind) : Fresh False (Step.check kind) :=
  look _ (fun parser => check_eq parser kind) fun near => by rw [near.peek]

theorem kindNth (count : Nat) : Fresh False (Step.kindNth count) :=
  look _ (fun parser => kindNth_eq parser count) fun near => by rw [near.peekNth]

theorem options : Fresh False Step.options :=
  look _ options_eq fun near => near.options

theorem isVarDef : Fresh False Step.isVarDef :=
  look _ isVarDef_eq fun near => by rw [near.kinds, near.options]

theorem pure (value : α) : Fresh False (Pure.pure value : Step α) :=
  look (fun _ => value) (fun _ => rfl) fun _ => rfl

theorem fail (diagnostic : Diagnostic) : Fresh opens (Step.fail diagnostic : Step α) := by
  intro left right near
  right; left
  exact ⟨diagnostic, rfl, rfl⟩

/-! ### Steps one after another -/

/-- What stands behind a step that has moved is read at one place. -/
theorem bind (here : Fresh True first) : Fresh True (first >>= next) := by
  intro left right near
  rcases here near with same | ⟨diagnostic, failed, failedRight⟩ | ⟨still, -⟩
  · exact .inl (bind_of_eq same)
  · right; left
    exact ⟨diagnostic, bind_of_error failed, bind_of_error failedRight⟩
  · exact absurd trivial still

theorem behind (here : Fresh False first) (onwards : ∀ value, Fresh opens (next value)) :
    Fresh opens (first >>= next) := by
  intro left right near
  rcases here near with same | ⟨diagnostic, failed, failedRight⟩ | ⟨-, value, ran, ranRight⟩
  · exact .inl (bind_of_eq same)
  · right; left
    exact ⟨diagnostic, bind_of_error failed, bind_of_error failedRight⟩
  · rw [bind_of_ok ran, bind_of_ok ranRight]
    exact onwards value near

theorem ite {condition : Prop} [Decidable condition] {left right : Step α}
    (onTrue : Fresh opens left) (onFalse : Fresh opens right) :
    Fresh opens (if condition then left else right) := by
  split
  · exact onTrue
  · exact onFalse

theorem inexact {step : Step α} (fresh : Fresh opens step) : Fresh False step := by
  intro left right near
  rcases fresh near with same | failed | ⟨-, ran⟩
  · exact .inl same
  · exact .inr (.inl failed)
  · exact .inr (.inr ⟨not_false, ran⟩)

theorem failAt (other : Token → Diagnostic) : Fresh opens (Step.failAt other : Step α) :=
  .behind .peek fun _ => .fail _

theorem tooDeep : Fresh opens (Step.tooDeep : Step α) :=
  .behind .peek fun _ => .behind .options fun _ => .fail _

/-! ### Consuming -/

theorem takes {step : Step α} (value? : Token → Option α) (diagnostic : Token → Diagnostic)
    (reads : ∀ {parser : Parser} {value : α}, value? parser.cursor.peek = some value →
      step parser = .ok value parser.advance)
    (fails : ∀ {parser : Parser}, value? parser.cursor.peek = none →
      step parser = .error (diagnostic parser.cursor.peek) parser)
    (notEnd : ∀ {token value}, value? token = some value → token.kind ≠ .endOfFile) :
    Fresh True step := by
  intro left right near
  cases found : value? left.cursor.peek with
  | some value =>
      left
      have more : left.cursor.ahead ≠ [] := fun empty =>
        notEnd found (left.cursor.peek_isEnd_iff.mpr empty)
      rw [reads found, reads (near.peek ▸ found), near.advance more]
  | none =>
      right; left
      refine ⟨diagnostic left.cursor.peek, fails found, ?_⟩
      rw [fails (near.peek ▸ found), near.peek]

theorem consumes {step : Step α} (kind : Kind) (make : Token → α) (diagnostic : Token → Diagnostic)
    (reads : ∀ {parser : Parser}, parser.cursor.peek.kind = kind →
      step parser = .ok (make parser.cursor.peek) parser.advance)
    (fails : ∀ {parser : Parser}, parser.cursor.peek.kind ≠ kind →
      step parser = .error (diagnostic parser.cursor.peek) parser)
    (notEnd : kind ≠ .endOfFile) : Fresh True step := by
  apply takes (fun token => if token.kind = kind then some (make token) else none) diagnostic
  · intro parser value isValue
    split at isValue
    · cases isValue
      exact reads ‹_›
    · cases isValue
  · intro parser isNone
    split at isNone
    · cases isNone
    · exact fails ‹_›
  · intro token value isValue
    split at isValue
    · rwa [‹token.kind = kind›]
    · cases isValue

theorem expect (kind : Kind) (notEnd : kind ≠ .endOfFile) :
    Fresh True (Step.expect kind) :=
  consumes kind id (fun token => wrongToken token kind.description) expect_of_kind
    expect_of_other notEnd

theorem symbol (sign : Symbol) : Fresh True (expectSymbol sign) :=
  expect _ nofun

theorem keyword (word : Keyword) : Fresh True (expectKeyword word) :=
  expect _ nofun

theorem identifier : Fresh True expectIdentifier := by
  apply consumes .identifier (fun token => ⟨token.lexeme, token.span⟩) fun token =>
    if token.kind = .endOfFile then .unexpectedEnd token.span
    else .expectedIdentifier token.span token.kind.description
  · exact expectIdentifier_of_kind
  · intro parser other
    rw [expectIdentifier, look_bind (check_eq parser _), if_neg (by simpa using other)]
    rfl
  · exact Kind.noConfusion

theorem eat (kind : Kind) (notEnd : kind ≠ .endOfFile) :
    Fresh False (Step.eat kind) := by
  intro left right near
  by_cases here : left.cursor.peek.kind = kind
  · left
    have more : left.cursor.ahead ≠ [] := fun empty =>
      notEnd (here.symm.trans (left.cursor.peek_isEnd_iff.mpr empty))
    rw [eat_of_kind here, eat_of_kind (near.peek ▸ here), near.advance more]
  · right; right
    exact ⟨not_false, false, eat_of_other here, eat_of_other (near.peek ▸ here)⟩

/-! ### Repeating -/

theorem loop {turn : σ → Step (ForInStep σ)} (fresh : ∀ state, Fresh False (turn state))
    (state : σ) : Fresh False (Step.loop turn state) := by
  intro left right near
  rcases fresh state near with same | ⟨diagnostic, failed, failedRight⟩ | ⟨-, found, ran, ranRight⟩
  · left
    rw [Step.loop, Step.loop, same, near.remaining]
  · right; left
    exact ⟨diagnostic, loop_of_error failed, loop_of_error failedRight⟩
  · right; right
    cases found with
    | done state => exact ⟨not_false, state, loop_of_done ran, loop_of_done ranRight⟩
    | yield next =>
        refine ⟨not_false, next, ?_, ?_⟩
        · rw [Step.loop, ran]
          exact if_neg (Nat.lt_irrefl _)
        · rw [Step.loop, ranRight]
          exact if_neg (Nat.lt_irrefl _)

theorem whileAt {kind : Kind} {item : Step α} (fresh : Fresh True item) :
    Fresh False (Step.whileAt kind item) :=
  loop (fun _ => .behind (.check kind) fun _ => .ite fresh.bind.inexact (.pure _)) []

end Fresh

/-- Where a broken definition is skipped to, what is reported, and the span that is left. -/
theorem recoverDefinition_ok (start : Cursor) (diagnostic : Diagnostic) (parser : Parser) :
    recoverDefinition start diagnostic parser =
      .ok ((parser.cursor.syncDefinition start).spanSince start)
        ({ parser with cursor := parser.cursor.syncDefinition start }.report
          (diagnostic.withRecovery
            (.skipped (start.remaining - (parser.cursor.syncDefinition start).remaining)))) :=
  rfl

/-- A part that opens is read, or skipped, the same from near places. -/
theorem orSkip_of_near {part : Step α} {instead : Span → α} (fresh : Fresh True part)
    {left right : Parser} (near : left.Near right) (more : left.cursor.ahead ≠ []) :
    orSkip part instead right = orSkip part instead left := by
  rw [orSkip, look_bind (cursor_eq left), look_bind (cursor_eq right), tryCatch_eq, tryCatch_eq]
  rcases fresh near with same | ⟨diagnostic, failed, failedRight⟩ | ⟨still, -⟩
  · rw [same]
    cases part left with
    | ok value later => rfl
    | error diagnostic later =>
        have recovers : recoverDefinition right.cursor diagnostic later =
            recoverDefinition left.cursor diagnostic later := by
          rw [recoverDefinition_ok, recoverDefinition_ok, near.syncDefinition, near.spanSince,
            near.remaining]
        exact bind_of_eq recovers
  · have recovers : recoverDefinition right.cursor diagnostic right =
        recoverDefinition left.cursor diagnostic left := by
      rw [recoverDefinition_ok, recoverDefinition_ok, near.syncDefinition_of_still more,
        near.spanSince, near.remaining, near.moved]
    rw [failed, failedRight]
    exact bind_of_eq recovers
  · exact absurd trivial still

end Step

/-! ### Rules -/

namespace Grammar

open Step

theorem simpleType_fresh : Fresh True simpleType := by
  apply Fresh.takes (fun token => simpleType? token.span token.kind) fun token =>
    if token.kind = .endOfFile then .unexpectedEnd token.span
    else .expectedType token.span token.kind.description
  · intro parser type isType
    rw [simpleType, look_bind (peek_eq parser)]
    simp only [isType]
    rw [bind_of_ok (advance_eq parser), pure_eq]
  · intro parser isNone
    rw [simpleType, look_bind (peek_eq parser)]
    simp only [isNone]
    rfl
  · intro token type isType
    exact (isBarrier_of_simpleType? isType).2

theorem baseType_fresh (inner : Step TypeName) : Fresh True (baseType inner) := by
  apply Fresh.behind .current
  intro kind
  split
  · exact .bind (.keyword _)
  · exact .bind (.keyword _)
  · exact .bind (.keyword _)
  · exact .bind (.keyword _)
  · exact .behind .peek fun _ => .bind (.bind .identifier)
  · exact simpleType_fresh

theorem typeName_fresh (room : Nat) : Fresh True (typeName room) := by
  cases room with
  | zero => exact .tooDeep
  | succ room => exact (baseType_fresh _).bind

theorem attachment_fresh (room : Nat) : Fresh True (attachment room) := by
  cases room with
  | zero => exact .tooDeep
  | succ room => exact .bind (.symbol _)

theorem attachments_fresh (room : Nat) : Fresh False (attachments room) :=
  .whileAt (attachment_fresh room)

/-- A variable among the members, where nothing else is left to be one. -/
theorem variableOr_fresh {α : Type} (room : Nat) (make : VarDef → α) (wanted : String) :
    Fresh True (do
      if ← isVarDef then return make (← varDef (.within room)) else notAMember wanted) :=
  .behind .isVarDef fun _ => .ite (.bind (typeName_fresh room).bind) (.failAt _)

theorem serviceMember_fresh (room : Nat) : Fresh True (serviceMember room) :=
  .behind .current fun _ => .ite
    (.bind (.behind .peek fun _ => .behind (attachments_fresh room) fun _ => .bind (.keyword _)))
    (variableOr_fresh room _ _)

theorem connectorMember_fresh (room : Nat) : Fresh True (connectorMember room) :=
  .behind .current fun _ => .ite
    (.bind (.behind .peek fun _ => .behind (attachments_fresh room) fun _ =>
      .behind (.eat _ nofun) fun _ => .bind (.keyword _)))
    (variableOr_fresh room _ _)

theorem nativeDefinition_fresh (room : Nat) (header : Header) :
    Fresh True (nativeDefinition room header) := by
  apply Fresh.behind (.kindNth 1)
  intro kind
  split
  · exact .bind (.behind (.eat _ nofun) fun _ => .bind (.keyword _))
  · exact .bind (.behind (.eat _ nofun) fun _ => .bind (.keyword _))
  · intro left right near
    right; left
    refine ⟨_, rfl, ?_⟩
    rw [← near.peekNth]
    rfl

theorem headedDefinition_fresh (room : Nat) (header : Header) :
    Fresh True (headedDefinition room header) := by
  have misplaced : Fresh True misplacedDirective := .behind .peek fun _ => .fail _
  apply Fresh.behind .current
  intro kind
  split
  · exact .bind (.bind (.keyword _))
  · exact .bind (.behind (.eat _ nofun) fun _ => .bind (.keyword _))
  · exact nativeDefinition_fresh room header
  · exact .bind (.bind (.keyword _))
  · exact .bind (.bind (.keyword _))
  · exact .bind (.behind (.eat _ nofun) fun _ => .bind (.keyword _))
  · exact .bind (.bind (.keyword _))
  · exact .bind (.bind (.keyword _))
  · exact misplaced
  · exact misplaced
  · exact misplaced
  · exact .behind .isVarDef fun _ => .ite (.bind (typeName_fresh room).bind) (.failAt _)

theorem definition_fresh (room : Nat) : Fresh True (definition room) :=
  .behind .peek fun _ => .behind (attachments_fresh room) fun _ =>
    headedDefinition_fresh room _

/-- The definitions ahead and what is reported about them do not depend on what stands in
front of them. -/
theorem definitions_of_near (room : Nat) {left right : Parser} (near : left.Near right) :
    ∃ items later last,
      (∀ found, loop (nextDefinition room) found left = .ok (found ++ items) later) ∧
      (∀ found, loop (nextDefinition room) found right = .ok (found ++ items) last) ∧
      last.diagnostics = later.diagnostics := by
  by_cases atEnd : left.cursor.peek.kind = .endOfFile
  · have rightEnd : right.cursor.peek.kind = .endOfFile := by rw [near.peek, atEnd]
    refine ⟨[], left, right, fun found => ?_, fun found => ?_, ?_⟩
    · rw [loop_of_done (nextDefinition_of_end room atEnd found), List.append_nil]
    · rw [loop_of_done (nextDefinition_of_end room rightEnd found), List.append_nil]
    · have same := congrArg Parser.diagnostics near.reports
      exact same
  · have more : left.cursor.ahead ≠ [] := fun empty =>
      atEnd (left.cursor.peek_isEnd_iff.mpr empty)
    have rightMore : right.cursor.peek.kind ≠ .endOfFile := by rwa [near.peek]
    obtain ⟨definition, between, ran, shorter, reads⟩ := nextDefinition_of_more room atEnd
    obtain ⟨items, later, rest⟩ := definitions_of_found room between
    have ranRight := (orSkip_of_near (definition_fresh room) near more).trans ran
    refine ⟨definition :: items, later, later, fun found => ?_, fun found => ?_, rfl⟩
    · rw [loop_of_yield (reads found) shorter, rest, List.append_assoc, List.singleton_append]
    · have readsRight : nextDefinition room found right =
          .ok (.yield (found ++ [definition])) between := by
        rw [nextDefinition, isEnd, look_bind (check_eq right _), if_neg (by simpa using rightMore),
          bind_of_ok ranRight, pure_eq]
      rw [loop_of_yield readsRight (near.remaining ▸ shorter), rest, List.append_assoc,
        List.singleton_append]

end Grammar

end ServiceLang
