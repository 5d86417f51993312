import ServiceLang.Proofs.Appending
import ServiceLang.Proofs.RereadingItems
import ServiceLang.Proofs.RoundTrip

set_option autoImplicit false

/-! A function whose body is one statement. In a text without comments its body holds nothing
but this statement exactly if the rule for statements, started behind the opening brace, comes
to the closing one. -/

namespace ServiceLang

def Parser.advanceBy (parser : Parser) (count : Nat) : Parser :=
  { parser with cursor := parser.cursor.advanceBy count }

theorem Cursor.final_advanceBy (cursor : Cursor) (count : Nat) :
    (cursor.advanceBy count).final = cursor.final := by
  induction count generalizing cursor with
  | zero => rfl
  | succ count ih => rw [advanceBy, ih, final_advance]

/-! ### Texts without comments -/

structure Parser.Bare (parser : Parser) : Prop where
  here : parser.cursor.comments = []
  ahead : ∀ slot ∈ parser.cursor.ahead, slot.comments = []
  final : parser.cursor.final.comments = []

namespace Parser.Bare

variable {parser : Parser} (bare : parser.Bare)

include bare

theorem advance : parser.advance.Bare := by
  by_cases more : parser.cursor.ahead = []
  · rw [Parser.advance, Cursor.advance_of_remaining_zero _ (List.length_eq_zero_iff.mpr more)]
    exact bare
  · have behind : ∀ slot ∈ parser.cursor.ahead.tail, slot.comments = [] :=
      fun slot member => bare.ahead slot (List.mem_of_mem_tail member)
    constructor
    · rw [Parser.advance, Cursor.comments_advance _ more]
      cases next : parser.cursor.ahead.tail with
      | nil => exact bare.final
      | cons slot rest => exact behind slot (by simp [next])
    · rw [Parser.advance, Cursor.ahead_advance]
      exact behind
    · rw [Parser.advance, Cursor.final_advance]
      exact bare.final

theorem takeComments : Step.takeComments parser = .ok [] parser := by
  rw [Step.takeComments_eq]
  split
  · rw [← bare.here]
  · rfl

theorem of_ok {α : Type} {legal : Cursor → Prop} {step : Step α}
    (run : Step.RunsIn legal step parser) {later : Parser} {value : α}
    (ran : step parser = .ok value later) : later.Bare := by
  have kept := run.keeping Parser.Bare (fun _ before _ _ => before.advance)
    (fun _ before => ⟨rfl, before.ahead, before.final⟩)
    (fun before diagnostic state => by
      constructor
      all_goals rw [Parser.cursor_report]
      · exact state.here
      · exact state.ahead
      · exact state.final)
    bare
  rw [Step.after_of_ok ran] at kept
  exact kept.2

end Parser.Bare

namespace Slot

theorem ofTokens_read {tokens : List Token} (read : ∀ token ∈ tokens, token.isRead = true)
    (noEnd : ∀ token ∈ tokens, token.kind ≠ .endOfFile) (after : List Token) :
    ofTokens [] (tokens ++ after) =
      (tokens.map (fun token => ⟨token, []⟩) ++ (ofTokens [] after).1, (ofTokens [] after).2) := by
  induction tokens with
  | nil => rfl
  | cons token rest ih =>
      have behind := ih (fun other member => read other (List.mem_cons_of_mem _ member))
        fun other member => noEnd other (List.mem_cons_of_mem _ member)
      have isRead := read token List.mem_cons_self
      rw [List.cons_append, ofTokens]
      split
      · exact absurd ‹_› (noEnd token List.mem_cons_self)
      · simp [Token.isRead, *] at isRead
      · simp [Token.isRead, *] at isRead
      · rw [behind]
        rfl

theorem ofTokens_end {rest : List Token} (ends : EndsFile rest) :
    (ofTokens [] rest).1 = [] ∧ (ofTokens [] rest).2.comments = [] := by
  refine ⟨ofTokens_of_endsFile ends [], ?_⟩
  rcases ends with rfl | ⟨last, others, rfl, atEnd⟩
  · rfl
  · rw [ofTokens, atEnd]

end Slot

theorem Parser.bare_ofTokens {tokens rest : List Token} (options : Options)
    (read : ∀ token ∈ tokens, token.isRead = true)
    (noEnd : ∀ token ∈ tokens, token.kind ≠ .endOfFile) (ends : EndsFile rest) :
    (Parser.ofTokens (tokens ++ rest) [] options).Bare := by
  obtain ⟨nothing, plain⟩ := Slot.ofTokens_end ends
  have cut := Slot.ofTokens_read read noEnd rest
  rw [nothing, List.append_nil] at cut
  have ahead : ∀ slot ∈ (Slot.ofTokens [] (tokens ++ rest)).1, slot.comments = [] := by
    rw [cut]
    intro slot member
    obtain ⟨token, -, rfl⟩ := List.mem_map.mp member
    rfl
  have final : (Slot.ofTokens [] (tokens ++ rest)).2.comments = [] := by
    rw [cut]
    exact plain
  refine ⟨?_, ahead, final⟩
  change ((Slot.ofTokens [] (tokens ++ rest)).1.head?.getD _).comments = []
  cases first : (Slot.ofTokens [] (tokens ++ rest)).1.head? with
  | none => exact final
  | some slot => exact ahead slot (List.mem_of_mem_head? first)

/-- A token that ends a list of statements, or opens a worker, starts no statement. -/
theorem Kind.startsNothing_of_endsBody {kind : Kind}
    (ends : Grammar.endsBody kind = true ∨ kind = .keyword .workerKw) : kind.StartsNothing := by
  rcases ends with ends | rfl
  · cases kind with
    | keyword word => cases word <;> first | exact ⟨rfl, rfl, rfl⟩ | cases ends
    | symbol sign => cases sign <;> first | exact ⟨rfl, rfl, rfl⟩ | cases ends
    | endOfFile => exact ⟨rfl, rfl, rfl⟩
    | _ => cases ends
  · exact ⟨rfl, rfl, rfl⟩

/-- The body of this function is one statement. -/
def CallableDef.IsJust (function : CallableDef) (statement : Stmt) : Prop :=
  ∃ body, function.body = some body ∧ body.statements = [statement] ∧ body.workers = []

namespace Grammar

open Step

/-! ### A body of one statement -/

section Body

variable {parts : StmtParts}

theorem starts_of_statementWith {parser later : Parser} {statement : Stmt}
    (ran : statementWith parts parser = .ok statement later) :
    endsBody parser.cursor.peek.kind = false ∧ parser.cursor.peek.kind ≠ .keyword .workerKw := by
  constructor
  · apply Bool.eq_false_iff.mpr
    intro ends
    exact statementWith_ne_ok (Kind.startsNothing_of_endsBody (.inl ends)) ran
  · intro isWorker
    exact statementWith_ne_ok (Kind.startsNothing_of_endsBody (.inr isWorker)) ran

namespace BodyItems

def count (items : BodyItems) : Nat :=
  items.statements.length + items.workers.length

variable (items : BodyItems)

theorem count_addStatement (statement : Stmt) :
    (items.addStatement statement).count = items.count + 1 := by
  simp only [count, addStatement, List.length_append, List.length_singleton]
  omega

theorem count_addWorker (worker : Worker) : (items.addWorker worker).count = items.count + 1 := by
  simp only [count, addWorker, List.length_append, List.length_singleton]
  omega

theorem count_addComments (comments : List Token) :
    (items.addComments comments).count = items.count + comments.length := by
  simp only [count, addComments, List.length_append, List.length_map]
  omega

def GrowsTo : ForInStep BodyItems → Prop
  | .done next => items.count ≤ next.count
  | .yield next => items.count < next.count

variable {items}

theorem GrowsTo.le {decision : ForInStep BodyItems} (grows : items.GrowsTo decision) :
    items.count ≤ decision.value.count := by
  cases decision with
  | done next => exact grows
  | yield next => exact Nat.le_of_lt grows

end BodyItems

theorem nextBodyItem_grows (kind : BodyKind) (items : BodyItems) :
    Gives (nextBodyItem parts kind items) items.GrowsTo := by
  apply Gives.bind
  intro comments
  have more := items.count_addComments comments
  apply Gives.bind
  intro current
  apply Gives.ite
  · apply Gives.pure
    change items.count ≤ (items.addComments comments).count
    omega
  · have item : Gives (bodyItem parts kind (items.addComments comments))
        fun next => items.count < next.count := by
      intro parser later next ran
      rcases bodyItem_ok ran with ⟨found, -, -, -, rfl⟩ | ⟨statement, -, -, rfl⟩
      · rw [BodyItems.count_addWorker]
        omega
      · rw [BodyItems.count_addStatement]
        omega
    refine Gives.bindOf (item.orRecover ?_) fun next less => .pure less
    intro span
    rw [BodyItems.count_addStatement]
    omega

theorem count_le_of_loop {kind : BodyKind} {items final : BodyItems} {parser later : Parser}
    (ran : loop (nextBodyItem parts kind) items parser = .ok final later) :
    items.count ≤ final.count := by
  have grows :
      Gives (loop (nextBodyItem parts kind) items) fun next => items.count ≤ next.count := by
    apply Gives.loop
    · intro state less parser later decision turned
      exact Nat.le_trans less (nextBodyItem_grows kind state turned).le
    · exact Nat.le_refl _
  exact grows ran

/-- A statement right before a closing brace is a whole body. -/
theorem bodyItems_of_statement {parser later : Parser} {statement : Stmt}
    (bare : parser.Bare) (bareLater : later.Bare)
    (shorter : later.cursor.remaining < parser.cursor.remaining)
    (ran : statementWith parts parser = .ok statement later)
    (closed : later.cursor.peek.kind = .symbol .rightBrace) :
    bodyItems parts .callable parser = .ok ⟨[statement], []⟩ later := by
  obtain ⟨inside, other⟩ := starts_of_statementWith ran
  have first : nextBodyItem parts .callable ⟨[], []⟩ parser =
      .ok (.yield ⟨[statement], []⟩) later :=
    nextBodyItem_of_item bare.takeComments inside (bodyItem_of_statement other ran)
  have second : nextBodyItem parts .callable ⟨[statement], []⟩ later =
      .ok (.done ⟨[statement], []⟩) later := by
    rw [nextBodyItem, bind_of_ok bareLater.takeComments, look_bind (current_eq later), closed]
    rfl
  rw [bodyItems, loop_of_yield first shorter, loop_of_done second]

/-- Where something has been found, and there is one item in the end, nothing more is read. -/
theorem last_of_loop (eager : parts.AreEager fun _ => True) {items : BodyItems}
    {parser later : Parser} {statement : Stmt} (bare : parser.Bare) (some : 0 < items.count)
    (quiet : Parser.CleanWith later.options later)
    (ran : loop (nextBodyItem parts .callable) items parser = .ok ⟨[statement], []⟩ later) :
    later = parser ∧ items = ⟨[statement], []⟩ := by
  have one : (⟨[statement], []⟩ : BodyItems).count = 1 := rfl
  rcases loop_ok ran with turned | ⟨next, between, turned, ends⟩
  · obtain ⟨comments, taken, ranComments, ⟨found, there, -⟩ | ⟨next, isNext, -⟩⟩ :=
      nextBodyItem_ok eager turned quiet
    · cases bare.takeComments.symm.trans ranComments
      refine ⟨there, ?_⟩
      have same := ForInStep.done.inj found
      rw [same, BodyItems.addComments, List.map_nil, List.append_nil]
    · cases isNext
  · -- A second item would be one too many.
    have grown : items.count < next.count := nextBodyItem_grows _ _ turned
    have atMost : next.count ≤ 1 := by
      rcases ends with ⟨-, rest⟩ | ⟨-, same, -⟩
      · exact one ▸ count_le_of_loop rest
      · exact Nat.le_of_eq (same ▸ one)
    omega

/-- A body that holds nothing but one statement ends where the statement ends. -/
theorem statement_of_bodyItems (eager : parts.AreEager fun _ => True) {parser later : Parser}
    {statement : Stmt} (bare : parser.Bare) (clean : later.Clean)
    (ran : bodyItems parts .callable parser = .ok ⟨[statement], []⟩ later) :
    statementWith parts parser = .ok statement later := by
  have quiet : Parser.CleanWith later.options later := ⟨clean, rfl⟩
  rcases loop_ok ran with turned | ⟨next, between, turned, ends⟩
  · obtain ⟨comments, taken, ranComments, ⟨found, -, -⟩ | ⟨next, isNext, -⟩⟩ :=
      nextBodyItem_ok eager turned quiet
    · cases bare.takeComments.symm.trans ranComments
      cases found
    · cases isNext
  · have last : later = between ∧ next = ⟨[statement], []⟩ := by
      rcases ends with ⟨-, rest⟩ | ⟨-, same, there⟩
      · have bareBetween := bare.of_ok ((nextBodyItem_turn eager _ _).orderly parser) turned
        exact last_of_loop eager bareBetween (nextBodyItem_grows _ _ turned) quiet rest
      · exact ⟨there, same.symm⟩
    obtain ⟨rfl, rfl⟩ := last
    obtain ⟨comments, taken, ranComments, ⟨found, -, -⟩ | ⟨_, isNext, -, ranItem⟩⟩ :=
      nextBodyItem_ok eager turned quiet
    · cases found
    · cases bare.takeComments.symm.trans ranComments
      cases isNext
      rcases bodyItem_ok ranItem with ⟨found, -, -, -, same⟩ | ⟨other, -, ranStatement, same⟩
      · cases same
      · cases same
        exact ranStatement

end Body

/-! ### The function around -/

def functionKinds : List Kind :=
  [.keyword .functionKw, .identifier, .symbol .leftParen, .symbol .rightParen, .symbol .leftBrace]

section Header

variable (room : Nat) {parser : Parser} {rest : List Kind}

theorem params_of_kinds
    (ahead : parser.cursor.kinds = .symbol .leftParen :: .symbol .rightParen :: rest) :
    params room parser = .ok [] parser.advance.advance := by
  obtain ⟨isOpen, behind⟩ := peek_of_kinds ahead
  obtain ⟨isClose, -⟩ := peek_of_kinds behind
  have none : listBefore .rightParen (param room) parser.advance = .ok [] parser.advance := by
    rw [listBefore, look_bind (check_eq _ _), isClose]
    rfl
  have closed : closedList .rightParen (param room) parser.advance =
      .ok ([], parser.advance.cursor.peek) parser.advance.advance := by
    rw [closedList, bind_of_ok none, expectSymbol, bind_of_ok (expect_of_kind isClose)]
    rfl
  rw [params, expectSymbol, bind_of_ok (expect_of_kind isOpen), bind_of_ok closed]
  rfl

theorem signature_of_kinds
    (ahead : parser.cursor.kinds =
      .identifier :: .symbol .leftParen :: .symbol .rightParen :: .symbol .leftBrace :: rest) :
    ∃ signature, Grammar.signature room parser =
      .ok signature parser.advance.advance.advance := by
  obtain ⟨isName, behindName⟩ := peek_of_kinds ahead
  obtain ⟨-, behindOpen⟩ := peek_of_kinds behindName
  obtain ⟨-, behindClose⟩ := peek_of_kinds behindOpen
  obtain ⟨isBrace, -⟩ := peek_of_kinds behindClose
  have none : ifAt (.symbol .leftParen) (returns room) parser.advance.advance.advance =
      .ok none parser.advance.advance.advance := by
    rw [ifAt, look_bind (check_eq _ _), isBrace]
    rfl
  apply Exists.intro
  rw [Grammar.signature, bind_of_ok (expectIdentifier_of_kind isName),
    bind_of_ok (params_of_kinds room behindName), bind_of_ok none, look_bind (spanFrom_eq _ _)]
  rfl

def restOfFunction (signature : Signature) (start opening : Span) : Step CallableDef := do
  let items ← bodyItems (.within room) .callable
  let close ← closeBrace
  let span ← spanFrom opening
  return ⟨[], false, signature, some ⟨items.statements, items.workers, close, span⟩,
    ← spanFrom start⟩

/-- What is read of a function without parameters is read behind its opening brace. -/
theorem definition_of_functionKinds (ahead : parser.cursor.kinds = functionKinds ++ rest) :
    ∃ signature start opening, definition (room + 1) parser = (do
      return .function (← restOfFunction room signature start opening) : Step Definition)
        (parser.advanceBy functionKinds.length) := by
  obtain ⟨isWord, behindWord⟩ := peek_of_kinds ahead
  obtain ⟨signature, ranSignature⟩ := signature_of_kinds (room + 1) behindWord
  obtain ⟨-, behindName⟩ := peek_of_kinds behindWord
  obtain ⟨-, behindOpen⟩ := peek_of_kinds behindName
  obtain ⟨-, behindClose⟩ := peek_of_kinds behindOpen
  obtain ⟨isBrace, -⟩ := peek_of_kinds behindClose
  refine ⟨signature, parser.cursor.peek.span,
    parser.advance.advance.advance.advance.cursor.peek.span, ?_⟩
  have body : callableEnd false (body (room + 1) .callable)
      parser.advance.advance.advance.advance = (do
        let items ← bodyItems (.within room) .callable
        let close ← closeBrace
        let span ← spanFrom parser.advance.advance.advance.advance.cursor.peek.span
        return some ⟨items.statements, items.workers, close, span⟩ : Step (Option CallableBody))
        (parser.advanceBy functionKinds.length) := by
    rw [callableEnd, if_neg (by decide)]
    change (bodyWith (.within room) .callable >>= fun body => pure (some body)) _ = _
    rw [bodyWith, bind_assoc, expectSymbol, bind_of_ok (expect_of_kind isBrace)]
    simp only [bind_assoc, pure_bind]
    rfl
  have function : function (room + 1) ⟨[], parser.cursor.peek.span⟩ parser =
      restOfFunction room signature parser.cursor.peek.span
        parser.advance.advance.advance.advance.cursor.peek.span
        (parser.advanceBy functionKinds.length) := by
    rw [Grammar.function, bind_of_ok (eat_of_other (by rw [isWord]; decide)), expectKeyword,
      bind_of_ok (expect_of_kind isWord), bind_of_ok ranSignature, bind_of_eq body, restOfFunction]
    simp only [bind_assoc, pure_bind]
  rw [definition, look_bind (peek_eq parser),
    bind_of_ok (attachments_of_other _ (by rw [isWord]; decide)), headedDefinition,
    look_bind (current_eq parser), isWord]
  exact bind_of_eq function

theorem statement_eager : Eager (fun _ => True) (Grammar.statement room) :=
  statementWith_eager (StmtParts.within_areEager room)

theorem restOfFunction_of_statement {later : Parser} {statement : Stmt} (bare : parser.Bare)
    (ran : Grammar.statement room parser = .ok statement later)
    (closed : later.cursor.peek.kind = .symbol .rightBrace) (signature : Signature)
    (start opening : Span) :
    ∃ function, restOfFunction room signature start opening parser = .ok function later.advance ∧
      function.IsJust statement := by
  have eager := statement_eager room
  have items := bodyItems_of_statement bare (bare.of_ok (eager.orderly parser) ran)
    (eager.strict ran) ran closed
  apply Exists.intro
  constructor
  · rw [restOfFunction, bind_of_ok items, bind_of_ok (closeBrace_of_kind closed),
      look_bind (spanFrom_eq _ _), look_bind (spanFrom_eq _ _)]
    rfl
  · exact ⟨_, rfl, rfl, rfl⟩

theorem statement_of_restOfFunction {later : Parser} {statement : Stmt} {signature : Signature}
    {start opening : Span} {function : CallableDef} (bare : parser.Bare) (clean : later.Clean)
    (ran : restOfFunction room signature start opening parser = .ok function later)
    (isJust : function.IsJust statement) :
    ∃ last, Grammar.statement room parser = .ok statement last ∧ last.Clean ∧
      last.cursor.peek.kind = .symbol .rightBrace ∧ later = last.advance := by
  obtain ⟨items, last, ranItems, ran⟩ := bind_ok ran
  obtain ⟨close, behind, ranClose, ran⟩ := bind_ok ran
  rw [look_bind (spanFrom_eq _ _), look_bind (spanFrom_eq _ _)] at ran
  cases ran
  have quiet : Parser.CleanWith later.options later := ⟨clean, rfl⟩
  obtain ⟨closed, -, rfl⟩ := closeBrace_ok ranClose quiet
  obtain ⟨body, isBody, isStatement, noWorker⟩ := isJust
  cases isBody
  obtain ⟨statements, workers⟩ := items
  cases isStatement
  cases noWorker
  have cleanLast := Parser.clean_of_advance clean
  exact ⟨last, statement_of_bodyItems (StmtParts.within_areEager room) bare cleanLast ranItems,
    cleanLast, closed, rfl⟩

end Header

/-! ### One definition -/

section Definitions

variable {room : Nat} {parser later : Parser} {item : Definition}

theorem definitions_of_definition (more : parser.cursor.peek.kind ≠ .endOfFile)
    (atEnd : later.cursor.ahead = []) (ran : definition room parser = .ok item later) :
    definitions room parser = .ok [item] later := by
  obtain ⟨_, _, ranSkip, shorter, reads⟩ := nextDefinition_of_more room more
  cases (tryCatch_of_ok ran).symm.trans ranSkip
  rw [definitions, loop_of_yield (reads []) shorter,
    loop_of_done (nextDefinition_of_end room (later.cursor.peek_isEnd_iff.mpr atEnd) _)]
  rfl

theorem eq_of_definitions_nil (ran : definitions room parser = .ok [] later) :
    later = parser ∧ parser.cursor.ahead = [] := by
  by_cases atEnd : parser.cursor.peek.kind = .endOfFile
  · rw [definitions, loop_of_done (nextDefinition_of_end room atEnd [])] at ran
    cases ran
    exact ⟨rfl, parser.cursor.peek_isEnd_iff.mp atEnd⟩
  · obtain ⟨first, between, -, shorter, reads⟩ := nextDefinition_of_more room atEnd
    obtain ⟨items, last, rest⟩ := definitions_of_found room between
    rw [definitions, loop_of_yield (reads []) shorter, rest] at ran
    cases ran

/-- A source that is read as one definition is read to its end by the rule for definitions. -/
theorem definition_of_single (more : parser.cursor.peek.kind ≠ .endOfFile) (clean : later.Clean)
    (ran : definitions room parser = .ok [item] later) :
    definition room parser = .ok item later ∧ later.cursor.ahead = [] := by
  obtain ⟨first, rest, between, same, ranFirst, ranRest, -⟩ :=
    definition_of_definitions room more ran clean
  cases same
  obtain ⟨rfl, nothing⟩ := eq_of_definitions_nil ranRest
  exact ⟨ranFirst, nothing⟩

end Definitions

end Grammar

/-- A source without a head is one definition exactly if the rule for definitions reads it to its
end. -/
theorem parseTokens_one_iff {tokens : List Token} {options : Options} {item : Definition}
    (plain : (Parser.ofTokens tokens [] options).cursor.peek.kind ∉ Grammar.headWords)
    (more : (Parser.ofTokens tokens [] options).cursor.peek.kind ≠ .endOfFile) :
    ((parseTokens tokens options).2.entries = [] ∧ (parseTokens tokens options).1.items = [item]) ↔
      ∃ later, Grammar.definition options.maxDepth (.ofTokens tokens [] options) =
        .ok item later ∧ later.Clean ∧ later.cursor.ahead = [] := by
  constructor
  · rintro ⟨nothing, isOnly⟩
    obtain ⟨unit, later, ran⟩ :=
      Grammar.sourceUnit_succeeds options.maxDepth (Parser.ofTokens tokens [] options)
    have clean := clean_of_parseTokens ran nothing
    rw [parseTokens_of_ok ran] at isOnly
    change unit.items = [item] at isOnly
    have ranItems := Grammar.definitions_of_sourceUnit options.maxDepth plain ran
    rw [isOnly] at ranItems
    obtain ⟨ranDefinition, atEnd⟩ := Grammar.definition_of_single more clean ranItems
    exact ⟨later, ranDefinition, clean, atEnd⟩
  · rintro ⟨later, ran, clean, atEnd⟩
    have ranItems := Grammar.definitions_of_definition more atEnd ran
    have ranUnit := Grammar.sourceUnit_of_plain options.maxDepth plain
    rw [Grammar.definitions] at ranItems
    rw [Step.bind_of_ok ranItems, Step.look_bind (Step.peek_eq _), Step.pure_eq] at ranUnit
    rw [parseTokens_of_ok ranUnit]
    exact ⟨clean.nothingReported, rfl⟩

end ServiceLang
