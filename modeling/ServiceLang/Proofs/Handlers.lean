import ServiceLang.Proofs.Alone
import ServiceLang.Proofs.ErrorLimit
import ServiceLang.Proofs.Positions

set_option autoImplicit false

/-! The handlers of a transaction. Each is read as it would be alone, whatever surrounds it and
whatever has been reported before. The first one of a kind is kept, and every other one is
reported and dropped, so that of their order only the one within each kind counts. -/

namespace ServiceLang

open Step

/-! ### Reading behind reports -/

/-- What the limit leaves of a list of diagnostics: those up to it, and a note in place of the
rest. -/
def Options.listed (options : Options) (diagnostics : List Diagnostic) : List Diagnostic :=
  match options.maxErrors with
  | none => diagnostics
  | some limit =>
      diagnostics.take limit ++ (diagnostics[limit]?.map (Diagnostic.closing limit)).toList

namespace Parser

def movedTo (parser : Parser) (place : Cursor) : Parser :=
  { parser with cursor := place }

def reportAll (parser : Parser) (diagnostics : List Diagnostic) : Parser :=
  diagnostics.foldl report parser

theorem reportAll_append (parser : Parser) (diagnostics others : List Diagnostic) :
    parser.reportAll (diagnostics ++ others) = (parser.reportAll diagnostics).reportAll others :=
  List.foldl_append

theorem reportAll_moved (parser : Parser) (place : Cursor) (diagnostics : List Diagnostic) :
    (parser.movedTo place).reportAll diagnostics =
      (parser.reportAll diagnostics).movedTo place :=
  List.foldl_hom (movedTo · place) fun parser diagnostic => parser.report_moved place diagnostic

theorem cursor_reportAll (parser : Parser) (diagnostics : List Diagnostic) :
    (parser.reportAll diagnostics).cursor = parser.cursor :=
  List.foldlRecOn (motive := fun later : Parser => later.cursor = parser.cursor) diagnostics _ rfl
    fun later same diagnostic _ => (later.cursor_report diagnostic).trans same

theorem options_reportAll (parser : Parser) (diagnostics : List Diagnostic) :
    (parser.reportAll diagnostics).options = parser.options :=
  List.foldlRecOn (motive := fun later : Parser => later.options = parser.options) diagnostics _ rfl
    fun later same diagnostic _ => (later.options_report diagnostic).trans same

/-- Without a limit, errors at different offsets that have none yet are all added. -/
theorem Unlimited.entries_reportAll {parser : Parser} (unlimited : parser.Unlimited)
    {diagnostics : List Diagnostic} (apart : (diagnostics.map (·.span.start)).Nodup)
    (isNew : ∀ diagnostic ∈ diagnostics, diagnostic.span.start ∉ parser.reportedAt) :
    (parser.reportAll diagnostics).diagnostics.entries =
      parser.diagnostics.entries ++ diagnostics := by
  induction diagnostics generalizing parser with
  | nil => exact (List.append_nil _).symm
  | cons diagnostic rest ih =>
      obtain ⟨here, others⟩ := List.nodup_cons.mp apart
      obtain ⟨isNewHere, isNewRest⟩ := List.forall_mem_cons.mp isNew
      have step := unlimited.report fun repeated : parser.Repeats diagnostic =>
        isNewHere repeated.2
      have next : (parser.report diagnostic).Unlimited := by
        rw [step]
        exact ⟨unlimited.below, unlimited.noLimit⟩
      refine (ih next others fun other member again => ?_).trans ?_
      · rw [step, mem_offsetsWith] at again
        rcases again with ⟨-, same⟩ | early
        · exact here (List.mem_map.mpr ⟨other, member, same⟩)
        · exact isNewRest other member early
      · rw [step]
        exact List.append_assoc ..

end Parser

namespace Matching.Cut

variable {limit : Nat} {left right : Parser}

theorem reportAll (cut : Cut limit left right) (diagnostics : List Diagnostic) :
    Cut limit (left.reportAll diagnostics) (right.reportAll diagnostics) :=
  List.foldl_rel cut fun diagnostic _ _ _ cut => cut.report diagnostic

theorem entries (cut : Cut limit left right) : left.diagnostics.entries =
    right.diagnostics.entries.take limit ++
      (right.diagnostics.entries[limit]?.map (Diagnostic.closing limit)).toList := by
  rcases cut.course with ⟨-, same, within, -⟩ | ⟨-, next, found, entries⟩
  · rw [same] at within ⊢
    rw [List.take_of_length_le within, List.getElem?_eq_none within, Option.map_none,
      Option.toList_none, List.append_nil]
  · rw [entries, found, Option.map_some, Option.toList_some]

end Matching.Cut

namespace Parser

/-- Errors at different offsets are all listed, as far as the limit goes. -/
theorem Clean.entries_reportAll {parser : Parser} (clean : parser.Clean)
    {diagnostics : List Diagnostic} (apart : (diagnostics.map (·.span.start)).Nodup) :
    (parser.reportAll diagnostics).diagnostics.entries =
      parser.options.listed diagnostics := by
  have all {free : Parser} (unlimited : free.Unlimited) (fresh : free.Clean) :
      (free.reportAll diagnostics).diagnostics.entries = diagnostics := by
    rw [unlimited.entries_reportAll apart (by simp [fresh.nothingRemembered]),
      fresh.nothingReported, List.nil_append]
  cases bound : parser.options.maxErrors with
  | none =>
      rw [Options.listed, bound]
      exact all ⟨clean.belowLimit, bound⟩ clean
  | some limit =>
      -- A parser without the limit goes along, whose list is then cut off.
      have free : { parser with options := parser.options.withLimit none }.Unlimited :=
        ⟨clean.belowLimit, rfl⟩
      have within : parser.diagnostics.size ≤ limit := by
        rw [Report.size, clean.nothingReported]
        exact Nat.zero_le limit
      have cut : Matching.Cut limit parser
          { parser with options := parser.options.withLimit none } :=
        ⟨bound, free, .inl ⟨clean.belowLimit, rfl, within, rfl⟩⟩
      have freeEntries := all free
        ⟨clean.nothingReported, clean.nothingRemembered, clean.belowLimit⟩
      rw [Options.listed, bound, (cut.reportAll diagnostics).entries, freeEntries]

end Parser

/-- Parses of the same tokens, of which nothing is said once the left one has reported anything.
Until then the right one stays with what it had reported at the start. -/
def Matching.unnoticed (start : Parser) : Matching where
  toView := .exact
  Records left right := left.Clean → right.movedTo start.cursor = start
  moved _ _ records clean := records ((Parser.clean_moved _).mp clean)
  reported _ _ _ clean := absurd clean (Parser.not_clean_report _ _)

namespace View

theorem eq_of_token_exact {left right : Token} (same : exact.Agree left right) : left = right := by
  obtain ⟨kind, lexeme, span⟩ := left
  obtain ⟨rfl, rfl, spans⟩ := same
  cases spans
  rfl

theorem eq_of_slot_exact {left right : Slot} (same : exact.Slots left right) : left = right := by
  have comments : left.comments = right.comments :=
    List.forall₂_eq_eq_eq ▸ (same.comments rfl).imp fun _ _ => eq_of_token_exact
  have token : left.token = right.token := eq_of_token_exact same.token
  cases left
  cases right
  cases comments
  cases token
  rfl

theorem eq_of_slots_exact {left right : List Slot}
    (same : List.Forall₂ exact.Slots left right) : left = right :=
  List.forall₂_eq_eq_eq ▸ same.imp fun _ _ => eq_of_slot_exact

theorem eq_of_block_exact {left right : Block} (same : exact.Agree left right) : left = right := by
  have shown : (left.placedBy id).sifted .whole = (right.placedBy id).sifted .whole := same.same
  rwa [Block.sifted_whole, Block.sifted_whole, Block.placedBy_id_apply,
    Block.placedBy_id_apply] at shown

end View

namespace Grammar

variable {room : Nat}

/-- A block that nothing is reported about is read the same behind any reports. -/
theorem block_of_cleared {start later : Parser} {found : Block}
    (ran : block room start.cleared = .ok found later) (clean : later.Clean) :
    ∃ place, block room start = .ok found (start.movedTo place) ∧
      place.ahead = later.cursor.ahead ∧ place.final = later.cursor.final := by
  have steady : Steady (Matching.unnoticed start) (block room) :=
    block_steady (stmtParts_areSteady room)
  have places : View.exact.Agree start.cursor start.cursor :=
    Matchable.agree_self _ (fun _ => rfl) _
  have parsers : (Matching.unnoticed start).Parsers start.cleared start :=
    ⟨places, rfl, fun _ => rfl, fun _ => rfl⟩
  obtain ⟨other, last, ranLast, same, agree⟩ := steady.ok_of_ok parsers ran
  obtain rfl := View.eq_of_block_exact same
  refine ⟨last.cursor, ?_, (View.eq_of_slots_exact agree.cursor.ahead).symm,
    (View.eq_of_slot_exact agree.cursor.final).symm⟩
  have kept : (last.movedTo start.cursor).movedTo last.cursor = start.movedTo last.cursor :=
    congrArg (Parser.movedTo · last.cursor) (agree.records clean)
  change last = start.movedTo last.cursor at kept
  rw [ranLast, ← kept]

theorem block_fresh : Fresh True (block room) := by
  cases room with
  | zero => exact .bind .tooDeep
  | succ room => exact .bind (.bind (.symbol _))

end Grammar

/-! ### Blocks alone and among other tokens -/

/-- The tokens ahead are these. Comments may stand in front of them. -/
def Cursor.StandsBefore (cursor : Cursor) (tokens : List Token) : Prop :=
  ∃ pending, cursor.ahead = (Slot.ofTokens pending tokens).1 ∧
    cursor.final = (Slot.ofTokens pending tokens).2

structure Grammar.IsBlock (room : Nat) (options : Options) (tokens : List Token) (found : Block) :
    Prop where
  noEnd : ∀ token ∈ tokens, token.kind ≠ .endOfFile
  reads : ∃ later, Grammar.block room (.ofTokens tokens [] options) = .ok found later ∧
    later.cursor.ahead = [] ∧ later.diagnostics.entries = []

namespace Grammar.IsBlock

variable {room : Nat} {options : Options} {tokens behind : List Token} {found : Block}
  (isBlock : IsBlock room options tokens found)

include isBlock

theorem append (behind : List Token) :
    ∃ last, Grammar.block room (.ofTokens (tokens ++ behind) [] options) = .ok found last ∧
      last.Clean ∧ last.cursor.StandsBefore behind := by
  obtain ⟨later, ran, atEnd, nothing⟩ := isBlock.reads
  obtain ⟨slots, left, cut, -⟩ := Slot.ofTokens_front [] tokens isBlock.noEnd
  have orderly : Orderly (fun _ => True) (block room) := (block_eager room).orderly
  have clean := Parser.clean_of_entries_nil (orderly _) (Parser.clean_ofTokens tokens options)
    (by rw [after_of_ok ran]; exact nothing)
  rw [after_of_ok ran] at clean
  have carried := block_stable room ran clean
  obtain ⟨front, split, passed⟩ := carried.passed
  have isFront : slots = front := by
    have whole := cut []
    rw [List.append_nil] at whole
    change (Slot.ofTokens [] tokens).1 = _ at split
    rw [whole, atEnd] at split
    exact (List.append_nil slots).symm.trans (split.trans (List.append_nil front))
  have ends : EndsDefinition slots := isFront ▸ .of_passed passed (by decide)
  obtain ⟨last, ranLast, joined⟩ := carried.again _ slots [] _
    (Parser.joined_ofTokens cut ends behind options) nofun atEnd fun _ => .inl rfl
  exact ⟨last, ranLast, joined.clean, left, joined.other, joined.final⟩

theorem run {parser : Parser} (sameOptions : parser.options = options)
    (stands : parser.cursor.StandsBefore (tokens ++ behind)) :
    ∃ place, Grammar.block room parser = .ok found (parser.movedTo place) ∧
      place.StandsBefore behind := by
  obtain ⟨pending, ahead, final⟩ := stands
  obtain ⟨later, ran, clean, left, aheadLater, finalLater⟩ := isBlock.append behind
  have near := Parser.near_of_clean parser.clean_cleared sameOptions rfl ahead final
  obtain ⟨place, ranPlace, sameAhead, sameFinal⟩ :=
    block_of_cleared ((block_fresh.ok_iff near).mpr ran) clean
  exact ⟨place, ranPlace, left, sameAhead.trans aheadLater, sameFinal.trans finalLater⟩

end Grammar.IsBlock

namespace Cursor.StandsBefore

variable {cursor : Cursor} {token : Token} {tokens behind : List Token}

theorem peek (stands : cursor.StandsBefore tokens) :
    cursor.peek = (tokens.find? Token.isRead).getD .missingEnd := by
  obtain ⟨pending, ahead, final⟩ := stands
  rw [Cursor.peek, ahead, final, Slot.token_first_ofTokens]

variable {word : Keyword} (stands : cursor.StandsBefore (token :: behind))
  (isWord : token.kind = .keyword word)

include stands isWord

theorem peek_word : cursor.peek = token := by
  rw [stands.peek, List.find?_cons_of_pos (by simp [Token.isRead, isWord]), Option.getD_some]

theorem advance : cursor.advance.StandsBefore behind := by
  obtain ⟨pending, ahead, final⟩ := stands
  have cut : Slot.ofTokens pending (token :: behind) =
      (⟨token, pending⟩ :: (Slot.ofTokens [] behind).1, (Slot.ofTokens [] behind).2) := by
    rw [Slot.ofTokens, isWord]
  refine ⟨[], ?_, ?_⟩
  · rw [Cursor.ahead_advance, ahead, cut, List.tail_cons]
  · rw [Cursor.final_advance, final, cut]

end Cursor.StandsBefore

/-! ### Texts of handlers -/

/-- The text of a handler: its word, and the tokens of its block. -/
structure HandlerText (room : Nat) (options : Options) where
  isAborted : Bool
  word : Token
  body : List Token
  block : Block
  isWord : word.kind = .keyword (Grammar.handlerWord isAborted)
  isBlock : Grammar.IsBlock room options body block

namespace HandlerText

variable {room : Nat} {options : Options}

def tokens (handler : HandlerText room options) : List Token :=
  handler.word :: handler.body

def duplicate (handler : HandlerText room options) : Diagnostic :=
  .error .duplicateClause handler.word.span
    ("duplicate " ++ handler.word.kind.description ++ " clause")

def first? (handlers : List (HandlerText room options)) (isAborted : Bool) : Option Block :=
  (handlers.find? (·.isAborted == isAborted)).map HandlerText.block

/-- The handlers that have one of their kind before them, be it an earlier one or one of these. -/
def repeated (earlier : List (HandlerText room options)) :
    List (HandlerText room options) → List (HandlerText room options)
  | [] => []
  | handler :: rest =>
      (if earlier.any (·.isAborted == handler.isAborted) then [handler] else []) ++
        repeated (earlier ++ [handler]) rest

variable {earlier : List (HandlerText room options)} {handler : HandlerText room options}
  {kind : Bool}

theorem isSome_first? : (first? earlier kind).isSome = earlier.any (·.isAborted == kind) := by
  rw [first?, Option.isSome_map, List.isSome_find?]

theorem first?_concat : first? (earlier ++ [handler]) kind =
    (first? earlier kind).or (if kind = handler.isAborted then some handler.block else none) := by
  rw [first?, first?, List.find?_append]
  cases earlier.find? (·.isAborted == kind) with
  | some first => rfl
  | none =>
      rw [Option.none_or, List.find?_singleton, Option.map_none, Option.none_or]
      by_cases same : kind = handler.isAborted
      · rw [if_pos (beq_iff_eq.mpr same.symm), if_pos same]
        rfl
      · rw [if_neg fun equal => same (beq_iff_eq.mp equal).symm, if_neg same]
        rfl

theorem repeated_cons (earlier rest : List (HandlerText room options))
    (handler : HandlerText room options) : repeated earlier (handler :: rest) =
      repeated earlier [handler] ++ repeated (earlier ++ [handler]) rest := by
  rw [repeated, repeated, repeated, List.append_nil]

theorem repeated_sublist (earlier handlers : List (HandlerText room options)) :
    (repeated earlier handlers).Sublist handlers := by
  induction handlers generalizing earlier with
  | nil => exact List.Sublist.refl _
  | cons handler rest ih =>
      have here : (if earlier.any (·.isAborted == handler.isAborted) then [handler] else
          []).Sublist [handler] := by
        split
        · exact List.Sublist.refl _
        · exact List.nil_sublist _
      exact here.append (ih _)

end HandlerText

/-! ### Reading handlers -/

namespace Grammar

def Handlers.AreFirst {room : Nat} {options : Options} (found : Handlers)
    (handlers : List (HandlerText room options)) : Prop :=
  ∀ isAborted, found.get isAborted = HandlerText.first? handlers isAborted

variable {room : Nat} {options : Options} {found : Handlers} {parser : Parser}

theorem nextHandler_of_word {parts : StmtParts} {isAborted : Bool}
    (here : parser.cursor.peek.kind = .keyword (handlerWord isAborted)) :
    nextHandler parts found parser =
      (handler parts isAborted found >>= fun next => pure (.yield next)) parser := by
  rw [nextHandler, look_bind (check_eq parser _)]
  cases isAborted with
  | true => rw [if_pos (by simp [here, handlerWord])]
  | false =>
      rw [if_neg (by simp [here, handlerWord]), look_bind (check_eq parser _),
        if_pos (by simp [here, handlerWord])]

/-- A handler is read, and kept if it is the first one of its kind. Otherwise it is reported. -/
theorem nextHandler_of_text (text : HandlerText room options) {behind : List Token}
    (sameOptions : parser.options = options)
    (stands : parser.cursor.StandsBefore (text.tokens ++ behind))
    {earlier : List (HandlerText room options)} (areFirst : found.AreFirst earlier) :
    ∃ next place, nextHandler (.within room) found parser = .ok (.yield next)
        ((parser.movedTo place).reportAll
          ((HandlerText.repeated earlier [text]).map HandlerText.duplicate)) ∧
      next.AreFirst (earlier ++ [text]) ∧ place.StandsBefore behind := by
  have word := stands.peek_word text.isWord
  have here : parser.cursor.peek.kind = .keyword (handlerWord text.isAborted) := by
    rw [word, text.isWord]
  have sameBehind : parser.advance.options = options := sameOptions
  obtain ⟨place, ran, behindBlock⟩ := text.isBlock.run sameBehind (stands.advance text.isWord)
  have ranBlock : (StmtParts.within room).block parser.advance = .ok text.block _ := ran
  have seen : (found.get text.isAborted).isSome = earlier.any (·.isAborted == text.isAborted) := by
    rw [areFirst, HandlerText.isSome_first?]
  rw [nextHandler_of_word here, handler, bind_assoc, expectKeyword,
    bind_of_ok (expect_of_kind here), bind_assoc, bind_of_ok ranBlock, word, HandlerText.repeated,
    ← seen]
  cases first : found.get text.isAborted with
  | none =>
      refine ⟨_, place, rfl, fun kind => ?_, behindBlock⟩
      rw [Handlers.get_set, HandlerText.first?_concat, ← areFirst kind]
      split
      · rename_i same
        rw [same, first, Option.none_or]
      · rw [Option.or_none]
  | some block =>
      refine ⟨found, place, rfl, fun kind => ?_, behindBlock⟩
      rw [HandlerText.first?_concat, ← areFirst kind]
      split
      · rename_i same
        rw [same, first, Option.some_or]
      · rw [Option.or_none]

/-- No handler stands here: the first token that is read is the word of none. -/
def StopsHandlers (tokens : List Token) : Prop :=
  ∀ token ∈ tokens.find? Token.isRead, ∀ isAborted, token.kind ≠ .keyword (handlerWord isAborted)

theorem nextHandler_of_stops {behind : List Token} (stands : parser.cursor.StandsBefore behind)
    (stops : StopsHandlers behind) :
    nextHandler (.within room) found parser = .ok (.done found) parser := by
  have notWord (isAborted : Bool) :
      parser.cursor.peek.kind ≠ .keyword (handlerWord isAborted) := by
    rw [stands.peek]
    cases first : behind.find? Token.isRead with
    | none => exact nofun
    | some token => exact stops token first isAborted
  rw [nextHandler, look_bind (check_eq parser _),
    if_neg (by simpa [handlerWord] using notWord true), look_bind (check_eq parser _),
    if_neg (by simpa [handlerWord] using notWord false), pure_eq]

/-- The loop over the handlers keeps the first one of each kind, and reports the others in the
order in which they stand. -/
theorem handlers_of_texts {earlier handlers : List (HandlerText room options)}
    {behind : List Token} (sameOptions : parser.options = options)
    (stands : parser.cursor.StandsBefore (handlers.flatMap HandlerText.tokens ++ behind))
    (areFirst : found.AreFirst earlier) (stops : StopsHandlers behind) :
    ∃ final place, loop (nextHandler (.within room)) found parser = .ok final
        ((parser.movedTo place).reportAll
          ((HandlerText.repeated earlier handlers).map HandlerText.duplicate)) ∧
      final.AreFirst (earlier ++ handlers) ∧ place.StandsBefore behind := by
  induction handlers generalizing found parser earlier with
  | nil =>
      refine ⟨found, parser.cursor, loop_of_done (nextHandler_of_stops stands stops), ?_, stands⟩
      rwa [List.append_nil]
  | cons text rest ih =>
      rw [List.flatMap_cons, List.append_assoc] at stands
      obtain ⟨next, between, turned, areFirstNext, standsNext⟩ :=
        nextHandler_of_text text sameOptions stands areFirst
      have sameNext := (Parser.options_reportAll (parser.movedTo between)
        ((HandlerText.repeated earlier [text]).map HandlerText.duplicate)).trans sameOptions
      have here := Parser.cursor_reportAll (parser.movedTo between)
        ((HandlerText.repeated earlier [text]).map HandlerText.duplicate)
      obtain ⟨final, place, ran, areFirstFinal, behindAll⟩ :=
        ih sameNext (here ▸ standsNext) areFirstNext
      have advancing := advancing_of_turn (nextHandler_turn (StmtParts.within_areEager room))
      refine ⟨final, place, ?_, ?_, behindAll⟩
      · rw [loop_of_yield turned (advancing _ _ _ _ turned), ran, ← Parser.reportAll_moved,
          ← Parser.reportAll_append, ← List.map_append, ← HandlerText.repeated_cons]
        rfl
      · rwa [List.append_assoc, List.singleton_append] at areFirstFinal

end Grammar

/-! ### Transactions -/

/-- The text of a transaction: its word, the tokens of its body, and the handlers behind. The
tokens stand in order. -/
structure TransactionText (room : Nat) (options : Options) where
  word : Token
  body : List Token
  block : Block
  handlers : List (HandlerText room options)
  isWord : word.kind = .keyword .transactionKw
  isBlock : Grammar.IsBlock room options body block
  inOrder : StartsIncrease (word :: body ++ handlers.flatMap HandlerText.tokens)

def Stmt.unplaced (statement : Stmt) : Stmt :=
  statement.placedBy fun _ => .nowhere

namespace TransactionText

variable {room : Nat} {options : Options} (text other : TransactionText room options)

def tokens : List Token :=
  text.word :: text.body ++ text.handlers.flatMap HandlerText.tokens

def start (behind : List Token) : Parser :=
  .ofTokens (text.tokens ++ behind) [] options

def statement (span : Span) : Stmt :=
  .transaction text.block (HandlerText.first? text.handlers true)
    (HandlerText.first? text.handlers false) span

/-- The other transaction has the same body, and the same handlers of each kind in the same order.
How those of one kind stand among those of the other may differ, and so may all places. -/
structure Reorders : Prop where
  body : List.Forall₂ Token.Resembles text.body other.body
  handlers : ∀ isAborted, List.Forall₂
    (fun handler again => List.Forall₂ Token.Resembles handler.body again.body)
    (text.handlers.filter (·.isAborted == isAborted))
    (other.handlers.filter (·.isAborted == isAborted))

theorem nodup_words : (text.handlers.map fun handler => handler.word.span.start).Nodup := by
  have words : (text.handlers.map HandlerText.word).Sublist
      (text.word :: text.body ++ text.handlers.flatMap HandlerText.tokens) := by
    refine List.Sublist.trans ?_ (List.sublist_append_right _ _)
    induction text.handlers with
    | nil => exact List.Sublist.refl _
    | cons handler rest ih =>
        exact List.Sublist.cons_cons _ (ih.trans (List.sublist_append_right _ _))
  have inOrder := List.pairwise_map.mp (text.inOrder.sublist words)
  exact List.pairwise_map.mpr (inOrder.imp Nat.ne_of_lt)

/-- A transaction with its handlers is read up to what stands behind, and every handler but the
first one of its kind is reported. -/
theorem run {behind : List Token} (stops : Grammar.StopsHandlers behind) :
    ∃ span place, place.StandsBefore behind ∧
      Grammar.transactionStatement (.within room) (text.start behind) = .ok (text.statement span)
        (((text.start behind).movedTo place).reportAll
          ((HandlerText.repeated [] text.handlers).map HandlerText.duplicate)) := by
  have stands : (text.start behind).cursor.StandsBefore (text.word :: (text.body ++
      (text.handlers.flatMap HandlerText.tokens ++ behind))) := by
    rw [← List.append_assoc]
    exact ⟨[], rfl, rfl⟩
  have word := stands.peek_word text.isWord
  have here : (text.start behind).cursor.peek.kind = .keyword .transactionKw := by
    rw [word, text.isWord]
  have sameBehind : (text.start behind).advance.options = options := rfl
  obtain ⟨between, ran, behindBlock⟩ := text.isBlock.run sameBehind (stands.advance text.isWord)
  have ranBlock : (Grammar.StmtParts.within room).block (text.start behind).advance =
    .ok text.block _ := ran
  have areFirst : Grammar.Handlers.none.AreFirst ([] : List (HandlerText room options)) := by
    intro isAborted
    cases isAborted <;> rfl
  have sameBetween : ((text.start behind).advance.movedTo between).options = options := rfl
  obtain ⟨final, place, ranHandlers, areFirstFinal, behindAll⟩ :=
    Grammar.handlers_of_texts sameBetween behindBlock areFirst stops
  have aborted : final.aborted = HandlerText.first? text.handlers true := areFirstFinal true
  have committed : final.committed = HandlerText.first? text.handlers false := areFirstFinal false
  refine ⟨place.spanFrom text.word.span, place, behindAll, ?_⟩
  rw [Grammar.transactionStatement, expectKeyword, bind_of_ok (expect_of_kind here),
    bind_of_ok ranBlock, Grammar.handlers, bind_of_ok ranHandlers, look_bind (spanFrom_eq _ _),
    pure_eq, aborted, committed, word, Parser.cursor_reportAll]
  rfl

end TransactionText

theorem Grammar.IsBlock.unplaced_eq {room : Nat} {options : Options} {tokens others : List Token}
    {found again : Block} (isBlock : Grammar.IsBlock room options tokens found)
    (isBlockToo : Grammar.IsBlock room options others again)
    (same : List.Forall₂ Token.Resembles tokens others) :
    found.placedBy (fun _ => .nowhere) = again.placedBy (fun _ => .nowhere) := by
  obtain ⟨later, ran, -⟩ := isBlock.reads
  obtain ⟨last, ranToo, -⟩ := isBlockToo.reads
  have steady : Steady Matching.unplaced (Grammar.block room) :=
    Grammar.block_steady (Grammar.stmtParts_areSteady room)
  have heard : List.Forall₂ Matching.unplaced.Heard tokens others :=
    same.imp fun _ _ resembles =>
      ⟨resembles.kind, fun _ => ⟨resembles.kind, resembles.lexeme, trivial⟩⟩
  have parsers : Matching.unplaced.Parsers (.ofTokens tokens [] options)
      (.ofTokens others [] options) :=
    Matching.parsers_ofTokens heard (.inr ⟨rfl, rfl, trivial⟩) rfl (fun _ => rfl) trivial
  obtain ⟨other, _, ranOther, agree, -⟩ := steady.ok_of_ok parsers ran
  obtain ⟨rfl, -⟩ := EStateM.Result.ok.inj (ranToo.symm.trans ranOther)
  have shown : (found.placedBy _).sifted .whole = (again.placedBy _).sifted .whole := agree.same
  rwa [Block.sifted_whole, Block.sifted_whole] at shown

/-- Transactions of which one reorders the other give the same but for the places. -/
theorem TransactionText.unplaced_statement {room : Nat} {options : Options}
    {text other : TransactionText room options} (reorders : text.Reorders other)
    (span again : Span) : (other.statement again).unplaced = (text.statement span).unplaced := by
  have first (isAborted : Bool) :
      (HandlerText.first? other.handlers isAborted).map (Block.placedBy fun _ => .nowhere) =
        (HandlerText.first? text.handlers isAborted).map (Block.placedBy fun _ => .nowhere) := by
    have pairs := reorders.handlers isAborted
    rw [HandlerText.first?, HandlerText.first?, ← List.head?_filter, ← List.head?_filter]
    generalize text.handlers.filter _ = here, other.handlers.filter _ = there at pairs
    cases pairs with
    | nil => rfl
    | @cons handler again _ _ same _ =>
        exact congrArg some (handler.isBlock.unplaced_eq again.isBlock same).symm
  have body := text.isBlock.unplaced_eq other.isBlock reorders.body
  rw [Stmt.unplaced, Stmt.unplaced, statement, statement, Stmt.placedBy, Stmt.placedBy,
    Block.placedByIfAny_eq_map, Block.placedByIfAny_eq_map, Block.placedByIfAny_eq_map,
    Block.placedByIfAny_eq_map, first, first, body]

/-- A transaction keeps the first handler of each kind, whatever their order. Every later one of a
kind is reported at its word, once, and nothing else is; all of them are read. Where the handlers
of the two kinds are arranged in another way, the statement is the same but for its places. -/
theorem transaction_handlers {room : Nat} {options : Options} (text : TransactionText room options)
    {behind : List Token} (stops : Grammar.StopsHandlers behind) :
    ∃ span last, Grammar.transactionStatement (.within room) (text.start behind) =
        .ok (.transaction text.block (HandlerText.first? text.handlers true)
          (HandlerText.first? text.handlers false) span) last ∧
      last.diagnostics.entries =
        options.listed ((HandlerText.repeated [] text.handlers).map HandlerText.duplicate) ∧
      last.cursor.StandsBefore behind ∧
      ∀ other, text.Reorders other → ∀ after, Grammar.StopsHandlers after →
        ∃ statement lastOther, Grammar.transactionStatement (.within room) (other.start after) =
            .ok statement lastOther ∧
          statement.unplaced = (text.statement span).unplaced := by
  obtain ⟨span, place, standsBehind, ran⟩ := text.run stops
  refine ⟨span, _, ran, ?_, ?_, fun other reorders after stopsToo => ?_⟩
  · -- The words stand at different offsets, so none of the reports is dropped for another one.
    have apart : (((HandlerText.repeated [] text.handlers).map HandlerText.duplicate).map
        (·.span.start)).Nodup := by
      rw [List.map_map]
      exact text.nodup_words.sublist ((HandlerText.repeated_sublist [] text.handlers).map _)
    have clean : ((text.start behind).movedTo place).Clean := ⟨rfl, rfl, rfl⟩
    exact clean.entries_reportAll apart
  · rw [Parser.cursor_reportAll]
    exact standsBehind
  · obtain ⟨again, placeOther, -, ranOther⟩ := other.run stopsToo
    exact ⟨_, _, ranOther, TransactionText.unplaced_statement reorders span again⟩

/-! A transaction with a second handler for one of the kinds, and the same in another order. -/

def Grammar.readBlock? (room : Nat) (options : Options) (tokens : List Token) : Option Block :=
  match Grammar.block room (.ofTokens tokens [] options) with
  | .ok found later =>
      if later.cursor.ahead.isEmpty && later.diagnostics.entries.isEmpty &&
          tokens.all (·.kind != .endOfFile) then some found
      else none
  | .error _ _ => none

theorem Grammar.isBlock_get {room : Nat} {options : Options} {tokens : List Token}
    (reads : (readBlock? room options tokens).isSome) :
    IsBlock room options tokens ((readBlock? room options tokens).get reads) := by
  obtain ⟨found, known⟩ := Option.isSome_iff_exists.mp reads
  simp only [known, Option.get_some]
  rw [readBlock?] at known
  split at known
  · rename_i value later ran
    split at known
    · rename_i clean
      simp only [Bool.and_eq_true, List.isEmpty_iff, List.all_eq_true, bne_iff_ne] at clean
      cases known
      exact ⟨clean.2, later, ran, clean.1.1, clean.1.2⟩
    · cases known
  · cases known

/-- `{ }` at an offset of the first line -/
def emptyBody (offset : Nat) : List Token :=
  [⟨.symbol .leftBrace, "\x7b", ⟨offset, offset + 1, 1, offset + 1⟩⟩,
    ⟨.symbol .rightBrace, "\x7d", ⟨offset + 2, offset + 3, 1, offset + 3⟩⟩]

def abortBody (offset : Nat) : List Token :=
  [⟨.symbol .leftBrace, "\x7b", ⟨offset, offset + 1, 1, offset + 1⟩⟩,
    ⟨.keyword .abortKw, "abort", ⟨offset + 2, offset + 7, 1, offset + 3⟩⟩,
    ⟨.symbol .semicolon, ";", ⟨offset + 7, offset + 8, 1, offset + 8⟩⟩,
    ⟨.symbol .rightBrace, "\x7d", ⟨offset + 9, offset + 10, 1, offset + 10⟩⟩]

def HandlerText.of (isAborted : Bool) (offset : Nat) (body : List Token)
    (reads : (Grammar.readBlock? 64 {} body).isSome) : HandlerText 64 {} where
  isAborted := isAborted
  word :=
    if isAborted then ⟨.keyword .abortedKw, "aborted", ⟨offset, offset + 7, 1, offset + 1⟩⟩
    else ⟨.keyword .committedKw, "committed", ⟨offset, offset + 9, 1, offset + 1⟩⟩
  body := body
  block := (Grammar.readBlock? 64 {} body).get reads
  isWord := by cases isAborted <;> rfl
  isBlock := Grammar.isBlock_get reads

def TransactionText.of (handlers : List (HandlerText 64 {}))
    (inOrder : StartsIncrease (⟨.keyword .transactionKw, "transaction", ⟨0, 11, 1, 1⟩⟩ ::
      emptyBody 12 ++ handlers.flatMap HandlerText.tokens)) : TransactionText 64 {} where
  word := ⟨.keyword .transactionKw, "transaction", ⟨0, 11, 1, 1⟩⟩
  body := emptyBody 12
  block := (Grammar.readBlock? 64 {} (emptyBody 12)).get (by decide +kernel)
  handlers := handlers
  isWord := rfl
  isBlock := Grammar.isBlock_get _
  inOrder := inOrder

/-- `transaction { } aborted { abort; } committed { } aborted { }` -/
def abortedTwice : TransactionText 64 {} :=
  .of [.of true 16 (abortBody 24) (by decide +kernel),
    .of false 35 (emptyBody 45) (by decide +kernel),
    .of true 49 (emptyBody 57) (by decide +kernel)] (by rw [StartsIncrease]; decide)

/-- `transaction { } committed { } aborted { abort; } aborted { }` -/
def committedFirst : TransactionText 64 {} :=
  .of [.of false 16 (emptyBody 26) (by decide +kernel),
    .of true 30 (abortBody 38) (by decide +kernel),
    .of true 49 (emptyBody 57) (by decide +kernel)] (by rw [StartsIncrease]; decide)

theorem transaction_handlers_abortedTwice :
    (tokenize "transaction { } aborted { abort; } committed { } aborted { }").1 =
      abortedTwice.tokens ++ [⟨.endOfFile, "", ⟨60, 60, 1, 61⟩⟩] ∧
    abortedTwice.Reorders committedFirst ∧
    ∃ span last other otherLast,
      Grammar.transactionStatement (.within 64)
          (abortedTwice.start [⟨.endOfFile, "", ⟨60, 60, 1, 61⟩⟩]) =
        .ok (.transaction abortedTwice.block (some abortedTwice.handlers[0].block)
          (some abortedTwice.handlers[1].block) span) last ∧
      last.diagnostics.entries =
        [.error .duplicateClause ⟨49, 56, 1, 50⟩ "duplicate 'aborted' clause"] ∧
      Grammar.transactionStatement (.within 64) (committedFirst.start []) = .ok other otherLast ∧
      other.unplaced = (abortedTwice.statement span).unplaced := by
  have stops : Grammar.StopsHandlers [⟨.endOfFile, "", ⟨60, 60, 1, 61⟩⟩] := by
    rintro _ ⟨⟩ (_ | _) ⟨⟩
  have empty (offset other : Nat) :
      List.Forall₂ Token.Resembles (emptyBody offset) (emptyBody other) :=
    .cons ⟨rfl, rfl⟩ (.cons ⟨rfl, rfl⟩ .nil)
  have abort (offset other : Nat) :
      List.Forall₂ Token.Resembles (abortBody offset) (abortBody other) :=
    .cons ⟨rfl, rfl⟩ (.cons ⟨rfl, rfl⟩ (.cons ⟨rfl, rfl⟩ (.cons ⟨rfl, rfl⟩ .nil)))
  have reorders : abortedTwice.Reorders committedFirst := by
    refine ⟨empty 12 12, fun isAborted => ?_⟩
    cases isAborted with
    | true => exact .cons (abort 24 38) (.cons (empty 57 57) .nil)
    | false => exact .cons (empty 45 26) .nil
  obtain ⟨span, last, ran, entries, -, others⟩ := transaction_handlers abortedTwice stops
  obtain ⟨other, otherLast, ranOther, same⟩ := others committedFirst reorders [] nofun
  refine ⟨by decide +kernel, reorders, span, last, other, otherLast, ran, entries, ranOther, same⟩

end ServiceLang
