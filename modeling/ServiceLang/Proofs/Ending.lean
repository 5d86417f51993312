import ServiceLang.Proofs.DepthDefinition
import ServiceLang.Proofs.OrderlyDefinition
import ServiceLang.Proofs.Place

set_option autoImplicit false

/-! Every parse ends. The reading of a whole source never fails, passes over a token
in every turn of a loop that goes on, stays within its buffer, and stops at the end
of file. -/

namespace ServiceLang

namespace Step

variable {α β σ : Type}

def Succeeds (step : Step α) : Prop :=
  ∀ parser, ∃ value later, step parser = .ok value later

namespace Succeeds

theorem pure (value : α) : Succeeds (Pure.pure value : Step α) :=
  fun parser => ⟨value, parser, rfl⟩

theorem bind {first : Step α} {next : α → Step β} (here : Succeeds first)
    (onwards : ∀ value, Succeeds (next value)) : Succeeds (first >>= next) := by
  intro parser
  obtain ⟨value, between, ran⟩ := here parser
  obtain ⟨result, later, rest⟩ := onwards value between
  exact ⟨result, later, (bind_of_ok ran).trans rest⟩

theorem ite {condition : Prop} [Decidable condition] {left right : Step α}
    (onTrue : Succeeds left) (onFalse : Succeeds right) :
    Succeeds (if condition then left else right) := by
  split
  · exact onTrue
  · exact onFalse

theorem peek : Succeeds Step.peek :=
  fun parser => ⟨_, _, peek_eq parser⟩

theorem current : Succeeds Step.current :=
  fun parser => ⟨_, _, current_eq parser⟩

theorem check (kind : Kind) : Succeeds (Step.check kind) :=
  fun parser => ⟨_, _, check_eq parser kind⟩

theorem orSkip (part : Step α) (instead : Span → α) : Succeeds (Step.orSkip part instead) := by
  intro parser
  rcases orSkip_cases part instead parser with ⟨value, later, _, ran⟩ | ⟨_, _, _, later, _, ran, _⟩
  · exact ⟨value, later, ran⟩
  · exact ⟨_, later, ran⟩

theorem loop {turn : σ → Step (ForInStep σ)} (turns : ∀ state, Succeeds (turn state))
    (state : σ) : Succeeds (Step.loop turn state) := by
  intro parser
  obtain ⟨decision, later, ran⟩ := turns state parser
  rw [Step.loop, ran]
  cases decision with
  | done final => exact ⟨final, later, rfl⟩
  | yield next =>
      by_cases shorter : later.cursor.remaining < parser.cursor.remaining
      · obtain ⟨final, last, rest⟩ := loop turns next later
        exact ⟨final, last, (if_pos shorter).trans rest⟩
      · exact ⟨next, later, if_neg shorter⟩
termination_by parser => parser.cursor.remaining

end Succeeds

/-- A turn of a loop that passes over a token whenever it is not the last. -/
def Advancing (turn : σ → Step (ForInStep σ)) : Prop :=
  ∀ state next parser later, turn state parser = .ok (.yield next) later →
    later.cursor.remaining < parser.cursor.remaining

theorem advancing_of_turn {turn : σ → Step (ForInStep σ)}
    (turns : ∀ state, Turn (fun _ => True) (turn state)) : Advancing turn :=
  fun state _ _ _ ran => (turns state).advances ran

/-- Behind a loop whose turns advance stands its last turn. -/
theorem lastTurn_of_loop {turn : σ → Step (ForInStep σ)} (advancing : Advancing turn)
    {state final : σ} {parser later : Parser} (ran : loop turn state parser = .ok final later) :
    ∃ last before, turn last before = .ok (.done final) later := by
  rcases loop_ok ran with ran | ⟨next, between, ran, ⟨shorter, rest⟩ | ⟨still, -, -⟩⟩
  · exact ⟨state, parser, ran⟩
  · exact lastTurn_of_loop advancing rest
  · exact absurd (advancing _ _ _ _ ran) still
termination_by parser.cursor.remaining

theorem final_of_loop {turn : σ → Step (ForInStep σ)} (holds : σ → Prop)
    (turns : ∀ state parser decision later, turn state parser = .ok decision later →
      holds decision.value)
    {state final : σ} {parser later : Parser} (ran : loop turn state parser = .ok final later) :
    holds final := by
  rcases loop_ok ran with ran | ⟨next, between, ran, ⟨shorter, rest⟩ | ⟨-, rfl, -⟩⟩
  · exact turns _ _ _ _ ran
  · exact final_of_loop holds turns rest
  · exact turns _ _ _ _ ran
termination_by parser.cursor.remaining

theorem ne_nil_of_commaSeparated {item : Step α} {items : List α} {parser later : Parser}
    (ran : commaSeparated item parser = .ok items later) : items ≠ [] := by
  refine final_of_loop (· ≠ []) (fun found parser decision later ran => ?_) ran
  obtain ⟨value, between, -, ran⟩ := bind_ok ran
  obtain ⟨more, last, -, ran⟩ := bind_ok ran
  cases more <;> cases ran <;> exact List.append_ne_nil_of_right_ne_nil _ (List.cons_ne_nil _ _)

end Step

namespace Grammar

open Step

/-- Every turn of a loop of the rules passes over a token unless it is the last,
whatever stands before it. -/
structure LoopsAdvance : Prop where
  segments : Advancing nextSegment
  directives : Advancing nextDirective
  definitions : ∀ room, Advancing (nextDefinition room)
  serviceMembers : ∀ room, Advancing (nextMember (serviceMember room))
  connectorMembers : ∀ room, Advancing (nextMember (connectorMember room))
  fields : ∀ room, Advancing (nextMember (field room))
  attachments : ∀ room, Advancing (nextAt (.symbol .atSign) (attachment room))
  attributes : ∀ room, Advancing (nextListed (annotationEntry (annotationValue room)))
  annotationValues : ∀ room, Advancing (nextListed (annotationValue room))
  attachPoints : Advancing (nextListed attachPoint)
  parameters : ∀ room, Advancing (nextListed (param room))
  resultTypes : ∀ room, Advancing (nextListed (typeName room))
  bodyItems : ∀ room kind, Advancing (nextBodyItem (.within room) kind)
  forkWorkers : ∀ room, Advancing (nextForkWorker (.within room))
  workerNames : Advancing (nextListed expectIdentifier)
  branches : ∀ room, Advancing (nextBranch (.within room))
  catches : ∀ room, Advancing (nextAt (.keyword .catchKw) (catchClause (.within room)))
  handlers : ∀ room, Advancing (nextHandler (.within room))
  expressions : ∀ room, Advancing (nextListed (expr room 0))
  mapEntries : ∀ room, Advancing (nextListed (mapEntry (.within room)))
  targets : ∀ room, Advancing (nextListed (reference (.within room)))
  operators : ∀ room power, Advancing (extend (.within room) power)
  suffixes : ∀ room, Advancing (suffix (.within room))
  dimensions : Advancing dimension

theorem attachPoint_orderly : Orderly (fun _ => True) attachPoint := by
  refine fun parser => .lookThen (fun _ alike => peek_alike alike) ?_
  split
  · exact .bind (Run.advance fun _ => trivial) fun _ later _ => Orderly.pure _ later
  · exact Orderly.fail (isComplaint_wrongToken _ _) parser

theorem loopsAdvance : LoopsAdvance := by
  have exprParts (room : Nat) : (ExprParts.within room).AreEager (fun _ => True) :=
    within_areEager room
  have stmtParts (room : Nat) : (StmtParts.within room).AreEager (fun _ => True) :=
    StmtParts.within_areEager room
  have listed {α : Type} {item : Step α} (orderly : Orderly (fun _ => True) item) :
      Advancing (nextListed item) :=
    advancing_of_turn (.nextListed orderly)
  exact {
    segments := advancing_of_turn nextSegment_turn
    directives := advancing_of_turn nextDirective_turn
    definitions := fun room => advancing_of_turn (nextDefinition_turn room)
    serviceMembers := fun room => advancing_of_turn (nextMember_turn (serviceMember_eager room))
    connectorMembers := fun room => advancing_of_turn (nextMember_turn (connectorMember_eager room))
    fields := fun room => advancing_of_turn (nextMember_turn (field_eager room))
    attachments := fun room => advancing_of_turn (.nextAt (attachment_eager room))
    attributes := fun room => listed (annotationEntry_orderly (annotationValue_orderly room))
    annotationValues := fun room => listed (annotationValue_orderly room)
    attachPoints := listed attachPoint_orderly
    parameters := fun room => listed (param_orderly room)
    resultTypes := fun room => listed (typeName_eager room).orderly
    bodyItems := fun room kind => advancing_of_turn (nextBodyItem_turn (stmtParts room) kind)
    forkWorkers := fun room => advancing_of_turn (nextForkWorker_turn (stmtParts room))
    workerNames := listed .expectIdentifier
    branches := fun room => advancing_of_turn (nextBranch_turn (stmtParts room))
    catches := fun room => advancing_of_turn (.nextAt (catchClause_eager (stmtParts room)))
    handlers := fun room => advancing_of_turn (nextHandler_turn (stmtParts room))
    expressions := fun room => listed (expr_eager room 0).orderly
    mapEntries := fun room => listed (mapEntry_orderly (exprParts room))
    targets := fun room => listed (reference_eager (exprParts room)).orderly
    operators := fun room power => advancing_of_turn (extend_turn (exprParts room) power)
    suffixes := fun room => advancing_of_turn (suffix_turn (exprParts room))
    dimensions := advancing_of_turn dimension_turn }

/-! ### The whole source -/

variable (room : Nat)

theorem packageHeader_succeeds : Succeeds packageHeader :=
  .bind (.check _) fun _ => .ite (.orSkip _ _) (.pure _)

theorem directives_succeeds : Succeeds directives :=
  .loop (fun _ => .bind .current fun _ => .ite (.bind (.orSkip _ _) fun _ => .pure _) (.pure _)) []

theorem definitions_succeeds : Succeeds (definitions room) :=
  .loop (fun _ => .bind (.check _) fun _ => .ite (.pure _) (.bind (.orSkip _ _) fun _ => .pure _)) []

theorem sourceUnit_succeeds : Succeeds (sourceUnit room) :=
  .bind .peek fun _ => .bind packageHeader_succeeds fun _ => .bind directives_succeeds fun _ =>
    .bind (definitions_succeeds room) fun _ => .bind .peek fun _ => .pure _

/-- Reading definitions stops at the end of file only. -/
theorem isEnd_of_definitions {found : List Definition} {parser later : Parser}
    (ran : definitions room parser = .ok found later) : later.cursor.peek.kind = .endOfFile := by
  obtain ⟨last, before, ran⟩ := lastTurn_of_loop (loopsAdvance.definitions room) ran
  rw [nextDefinition, isEnd, look_bind (check_eq before _)] at ran
  split at ran
  · rename_i atEnd
    cases ran
    exact beq_iff_eq.mp atEnd
  · obtain ⟨value, between, -, ran⟩ := bind_ok ran
    cases ran

theorem isEnd_of_sourceUnit {unit : SourceUnit} {parser later : Parser}
    (ran : sourceUnit room parser = .ok unit later) : later.cursor.peek.kind = .endOfFile := by
  obtain ⟨_, _, -, ran⟩ := bind_ok ran
  obtain ⟨_, _, -, ran⟩ := bind_ok ran
  obtain ⟨_, _, -, ran⟩ := bind_ok ran
  obtain ⟨_, between, ranItems, ran⟩ := bind_ok ran
  rw [look_bind (peek_eq between)] at ran
  cases ran
  exact isEnd_of_definitions room ranItems

end Grammar

/-- Getting past an error ends: it always gives a span, skips no more tokens than
there are, and takes no count of braces below zero on the way. -/
structure RecoveryEnds : Prop where
  body : ∀ point start diagnostic, Step.Succeeds (Step.recover point start diagnostic)
  definition : ∀ start diagnostic, Step.Succeeds (Step.recoverDefinition start diagnostic)
  bodySkips : ∀ point moved depth kinds, syncLength point moved depth kinds ≤ kinds.length
  definitionSkips : ∀ depth kinds, definitionSyncLength depth kinds ≤ kinds.length
  bodyBraces : ∀ point moved depth kinds taken, taken ≤ syncLength point moved depth kinds →
    BracesWithin depth (kinds.take taken)
  definitionBraces : ∀ depth kinds taken, taken ≤ definitionSyncLength depth kinds →
    BracesWithin depth (kinds.take taken) ∨
      ∃ counted, BracesWithin depth (kinds.take counted) ∧
        ∀ kind ∈ (kinds.take taken).drop counted, kind = .symbol .rightBrace

theorem recoveryEnds : RecoveryEnds where
  body point start diagnostic parser := by
    obtain ⟨span, later, ran, -⟩ := Step.recover_eq point start diagnostic parser
    exact ⟨span, later, ran⟩
  definition start diagnostic parser := by
    obtain ⟨span, later, ran, -⟩ := Step.recoverDefinition_eq start diagnostic parser
    exact ⟨span, later, ran⟩
  bodySkips := syncLength_le
  definitionSkips := definitionSyncLength_le
  bodyBraces := bracesWithin_of_syncLength
  definitionBraces := bracesWithin_of_definitionSyncLength

/-- The end of file is the last token of a buffer and stands nowhere else in it. -/
theorem isEnd_iff_last_of_buffer (tokens : List Token) (index : Nat) (slot : Slot)
    (found : (Slot.buffer tokens)[index]? = some slot) :
    slot.token.kind = .endOfFile ↔ index + 1 = (Slot.buffer tokens).length := by
  obtain ⟨notEnd, isEnd⟩ := Slot.ofTokens_kinds [] tokens
  rw [Slot.buffer, List.length_append, List.length_singleton]
  rw [Slot.buffer] at found
  by_cases before : index < (Slot.ofTokens [] tokens).1.length
  · rw [List.getElem?_append_left before] at found
    have inner := notEnd slot (List.mem_of_getElem? found)
    constructor
    · intro atEnd
      contradiction
    · omega
  · rw [List.getElem?_append_right (by omega)] at found
    have isLast : index - (Slot.ofTokens [] tokens).1.length = 0 := by
      have inside := (List.getElem?_eq_some_iff.mp found).1
      rw [List.length_singleton] at inside
      omega
    rw [isLast] at found
    cases found
    exact ⟨fun _ => by omega, fun _ => isEnd⟩

theorem parseTokens_of_ok {tokens : List Token} {options : Options} {unit : SourceUnit}
    {later : Parser}
    (ran : Grammar.sourceUnit options.maxDepth (.ofTokens tokens [] options) = .ok unit later) :
    parseTokens tokens options = (unit, later.diagnostics) :=
  Parser.readUnit_of_ok (Parser.depth_ofTokens tokens [] options) ran

theorem parseWith_of_ok {source : String} {options : Options} {unit : SourceUnit} {later : Parser}
    (ran : Grammar.sourceUnit options.maxDepth (.ofSource source options) = .ok unit later) :
    parseWith source options = (unit, later.diagnostics) := by
  rw [parseWith]
  refine Parser.readUnit_of_ok (Parser.depth_ofSource source options) ?_
  rw [Parser.options_ofSource, ran]

/-- Every list of tokens is read to its end, whatever the options: the parse gives
a unit and stops at the only end of file. On its way it never leaves the buffer,
every loop passes over a token in each turn but its last, and getting past errors
ends. -/
theorem parseTokens_ends (tokens : List Token) (options : Options) :
    (∃ unit later,
      Grammar.sourceUnit options.maxDepth (.ofTokens tokens [] options) = .ok unit later ∧
      parseTokens tokens options = (unit, later.diagnostics) ∧
      later.cursor.At (Slot.buffer tokens) ((Slot.buffer tokens).length - 1) ∧
      later.cursor.peek.kind = .endOfFile) ∧
    (∀ index slot, (Slot.buffer tokens)[index]? = some slot →
      (slot.token.kind = .endOfFile ↔ index + 1 = (Slot.buffer tokens).length)) ∧
    Step.Run (fun parser => parser.cursor.IsIn (Slot.buffer tokens)) (fun _ => True)
      (Grammar.sourceUnit options.maxDepth) (.ofTokens tokens [] options) ∧
    Grammar.LoopsAdvance ∧ RecoveryEnds ∧
    (∀ room exprs parser later,
      Grammar.expressions (.within room) parser = .ok exprs later → exprs ≠ []) := by
  have run := Grammar.sourceUnit_orderly options.maxDepth (.ofTokens tokens [] options)
  obtain ⟨within, placeBehind⟩ :=
    run.isIn (Cursor.isIn_iff.mpr ⟨0, Cursor.At.ofTokens tokens⟩)
  refine ⟨?_, isEnd_iff_last_of_buffer tokens, within, Grammar.loopsAdvance, recoveryEnds,
    fun room exprs parser later ran => Step.ne_nil_of_commaSeparated ran⟩
  obtain ⟨unit, later, ran⟩ :=
    Grammar.sourceUnit_succeeds options.maxDepth (.ofTokens tokens [] options)
  have atEnd := Grammar.isEnd_of_sourceUnit options.maxDepth ran
  refine ⟨unit, later, ran, parseTokens_of_ok ran, ?_, atEnd⟩
  -- Only the end of file is left, so the place where the parse stops is the last of the buffer.
  rw [Step.after_of_ok ran] at placeBehind
  obtain ⟨index, place⟩ := Cursor.isIn_iff.mp placeBehind
  have lengths := place.length_eq
  have nothing : later.cursor.remaining = 0 :=
    List.length_eq_zero_iff.mpr (later.cursor.peek_isEnd_iff.mp atEnd)
  have isLast : (Slot.buffer tokens).length - 1 = index := by omega
  rw [isLast]
  exact place

end ServiceLang
