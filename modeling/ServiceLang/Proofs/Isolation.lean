import ServiceLang.Proofs.Ending
import ServiceLang.Proofs.Parallel

set_option autoImplicit false

/-! What stands before a word that opens a definition does not reach behind it. However
broken it is, the definitions behind are read as if nothing stood before them; only
annotations that are left over go to the first one. -/

namespace ServiceLang

/-! ### Two lists of tokens, one behind the other -/

/-- Whether a token takes part in reading at all. -/
def Token.isRead (token : Token) : Bool :=
  token.kind != .comment && token.kind != .invalid

namespace Slot

/-- What a list of tokens is cut into, and the comments that it leaves, do not depend on
what stands behind it. -/
theorem ofTokens_front (pending before : List Token)
    (noEnd : ∀ token ∈ before, token.kind ≠ .endOfFile) :
    ∃ slots left, (∀ after, ofTokens pending (before ++ after) =
        (slots ++ (ofTokens left after).1, (ofTokens left after).2)) ∧
      slots.map Slot.token = before.filter Token.isRead := by
  induction before generalizing pending with
  | nil => exact ⟨[], pending, fun _ => rfl, rfl⟩
  | cons token before ih =>
      have rest : ∀ token ∈ before, token.kind ≠ .endOfFile := fun other member =>
        noEnd other (List.mem_cons_of_mem token member)
      have here : ∀ after, ofTokens pending (token :: before ++ after) =
          ofTokens pending (token :: (before ++ after)) := fun _ => rfl
      simp only [here, ofTokens]
      split
      · rename_i atEnd
        exact absurd atEnd (noEnd token List.mem_cons_self)
      · rename_i comment
        obtain ⟨slots, left, cut, tokens⟩ := ih (pending ++ [token]) rest
        refine ⟨slots, left, cut, ?_⟩
        rw [tokens, List.filter_cons_of_neg (by simp [Token.isRead, comment])]
      · rename_i invalid
        obtain ⟨slots, left, cut, tokens⟩ := ih pending rest
        refine ⟨slots, left, cut, ?_⟩
        rw [tokens, List.filter_cons_of_neg (by simp [Token.isRead, invalid])]
      · rename_i notEnd notComment notInvalid
        obtain ⟨slots, left, cut, tokens⟩ := ih [] rest
        refine ⟨⟨token, pending⟩ :: slots, left, fun after => ?_, ?_⟩
        · rw [cut]
          rfl
        · rw [List.map_cons, tokens,
            List.filter_cons_of_pos (by simpa [Token.isRead] using ⟨notComment, notInvalid⟩)]

theorem ofTokens_append (pending before after : List Token)
    (noEnd : ∀ token ∈ before, token.kind ≠ .endOfFile) :
    ∃ slots left, ofTokens pending (before ++ after) =
        (slots ++ (ofTokens left after).1, (ofTokens left after).2) ∧
      slots.map Slot.token = before.filter Token.isRead := by
  obtain ⟨slots, left, cut, tokens⟩ := ofTokens_front pending before noEnd
  exact ⟨slots, left, cut after, tokens⟩

theorem ofTokens_cons_of_isBarrier {token : Token} (pending rest : List Token)
    (barrier : token.kind.isBarrier = true) :
    ofTokens pending (token :: rest) =
      (⟨token, pending⟩ :: (ofTokens [] rest).1, (ofTokens [] rest).2) := by
  rw [ofTokens]
  split
  · rename_i here
    rw [here] at barrier
    cases barrier
  · rename_i here
    rw [here] at barrier
    cases barrier
  · rename_i here
    rw [here] at barrier
    cases barrier
  · rfl

end Slot

theorem Cursor.peek_of_rest {cursor : Cursor} {slot : Slot} {behind : List Slot}
    (rest : cursor.ahead ++ [cursor.final] = slot :: behind) : cursor.peek = slot.token := by
  have head := congrArg List.head? rest
  rw [Cursor.peek]
  cases ahead : cursor.ahead with
  | nil =>
      rw [ahead] at head
      exact congrArg Slot.token (Option.some.inj head)
  | cons next others =>
      rw [ahead] at head
      exact congrArg Slot.token (Option.some.inj head)

/-- A buffer with a place before a word that opens a definition, no token right
before taking that word. -/
structure CutBuffer where
  before : List Slot
  first : Slot
  behind : List Slot
  barrier : first.token.kind.isBarrier = true
  unsheltered : ∀ slot, before.getLast? = some slot → slot.token.kind.sheltersBarrier = false

namespace CutBuffer

variable (cut : CutBuffer)

def whole : List Slot :=
  cut.before ++ cut.first :: cut.behind

/-- A place where a token may be passed over without going beyond the cut. -/
def Legal (cursor : Cursor) : Prop :=
  cursor.IsIn cut.whole → cursor.remaining ≠ cut.behind.length

def Within (parser : Parser) : Prop :=
  parser.cursor.IsIn cut.whole ∧ cut.behind.length ≤ parser.cursor.remaining

variable {cut} {cursor : Cursor}

theorem index_of_remaining {index : Nat} (place : cursor.At cut.whole index) :
    index + cursor.remaining = cut.before.length + cut.behind.length := by
  have lengths := place.length_eq
  rw [whole, List.length_append, List.length_cons] at lengths
  omega

/-- The cursor at the cut. -/
theorem at_cut (place : cursor.IsIn cut.whole)
    (here : cursor.remaining = cut.behind.length) : cursor.At cut.whole cut.before.length := by
  obtain ⟨index, place⟩ := Cursor.isIn_iff.mp place
  have sum := index_of_remaining place
  obtain rfl : index = cut.before.length := by omega
  exact place

theorem within_ofTokens {tokens : List Token} {options : Options}
    (whole : Slot.buffer tokens = cut.whole) : cut.Within (.ofTokens tokens [] options) := by
  have place := Cursor.At.ofTokens tokens
  rw [whole] at place
  have sum := index_of_remaining place
  refine ⟨Cursor.isIn_iff.mpr ⟨0, place⟩, ?_⟩
  change _ ≤ (Cursor.ofTokens tokens).remaining
  omega

/-- Where a word opens a definition behind tokens that do not take it, the buffer is cut. -/
theorem exists_of_append {before : List Token} {opening : Token} (tokens : List Token)
    (noEnd : ∀ token ∈ before, token.kind ≠ .endOfFile)
    (unsheltered : ∀ token, (before.filter Token.isRead).getLast? = some token →
      token.kind ∉ [.keyword .nativeKw, .keyword .attachKw, .symbol .comma])
    (barrier : opening.kind.isBarrier = true) :
    ∃ cut : CutBuffer, cut.first.token = opening ∧
      cut.before.map Slot.token = before.filter Token.isRead ∧
      Slot.buffer (before ++ opening :: tokens) = cut.whole ∧
      Slot.buffer (opening :: tokens) = ⟨opening, []⟩ :: cut.behind := by
  obtain ⟨slots, left, cutSlots, readTokens⟩ :=
    Slot.ofTokens_append [] before (opening :: tokens) noEnd
  have notTaken : ∀ slot, slots.getLast? = some slot →
      slot.token.kind.sheltersBarrier = false := by
    intro slot last
    have isLast : (before.filter Token.isRead).getLast? = some slot.token := by
      rw [← readTokens, List.getLast?_map, last]
      rfl
    simpa [Kind.sheltersBarrier] using unsheltered slot.token isLast
  refine ⟨⟨slots, ⟨opening, left⟩, (Slot.ofTokens [] tokens).1 ++ [(Slot.ofTokens [] tokens).2],
    barrier, notTaken⟩, rfl, readTokens, ?_, ?_⟩
  · rw [Slot.buffer, cutSlots, Slot.ofTokens_cons_of_isBarrier left tokens barrier]
    exact List.append_assoc _ _ _
  · rw [Slot.buffer, Slot.ofTokens_cons_of_isBarrier [] tokens barrier]
    rfl

theorem rest_at_cut (place : cursor.At cut.whole cut.before.length) :
    cursor.ahead ++ [cursor.final] = cut.first :: cut.behind := by
  rw [place.rest, whole, List.drop_left]

theorem peek_at_cut (place : cursor.At cut.whole cut.before.length) :
    cursor.peek = cut.first.token :=
  Cursor.peek_of_rest (rest_at_cut place)

theorem not_isOpen_at_cut (place : cursor.At cut.whole cut.before.length) :
    ¬cursor.IsOpen := by
  rintro (free | ⟨token, previous, shelters⟩)
  · rw [peek_at_cut place, cut.barrier] at free
    cases free
  · rw [place.previous, whole, List.take_left] at previous
    obtain ⟨slot, last, rfl⟩ := Option.map_eq_some_iff.mp previous
    rw [cut.unsheltered slot last] at shelters
    cases shelters

instance : Permissive cut.Legal where
  ofIsOpen _ isOpen place here := not_isOpen_at_cut (at_cut place here) isOpen
  ofSamePlace left right same legal place := by
    obtain ⟨index, place⟩ := Cursor.isIn_iff.mp place
    rw [Cursor.remaining, same.ahead]
    refine legal (Cursor.isIn_iff.mpr ⟨index, ?_, ?_⟩)
    · rw [← place.rest, same.ahead, same.final]
    · rw [← place.previous, same.previous]

/-- A run that is legal does not go beyond the cut. -/
theorem Within.after {α : Type} {step : Step α} {parser : Parser}
    (run : Step.RunsIn cut.Legal step parser) (start : cut.Within parser) :
    cut.Within (step.after parser) := by
  refine (run.keeping cut.Within (fun parser within isLegal more => ?_)
    (fun parser within => ?_) (fun parser diagnostic within => ?_) start).2
  · obtain ⟨index, place⟩ := Cursor.isIn_iff.mp within.1
    refine ⟨Cursor.isIn_iff.mpr ⟨index + 1, place.advance more⟩, ?_⟩
    have notHere := isLegal within.1
    have behind := within.2
    change _ ≤ parser.cursor.advance.remaining
    rw [Cursor.remaining_advance]
    omega
  · obtain ⟨index, place⟩ := Cursor.isIn_iff.mp within.1
    exact ⟨Cursor.isIn_iff.mpr ⟨index, place.dropComments⟩, within.2⟩
  · rw [Within, Parser.cursor_report]
    exact within

theorem Within.ofOk {α : Type} {step : Step α} {parser later : Parser} {value : α}
    (start : cut.Within parser) (run : Step.RunsIn cut.Legal step parser)
    (ran : step parser = .ok value later) : cut.Within later := by
  have within := Within.after run start
  rwa [Step.after_of_ok ran] at within

end CutBuffer

/-- Behind the word that opens a definition, two cursors at that word stand at the
same place. -/
theorem Cursor.advance_eq_of_rest {left right : Cursor} {leftFirst rightFirst : Slot}
    {behind : List Slot} (leftRest : left.ahead ++ [left.final] = leftFirst :: behind)
    (rightRest : right.ahead ++ [right.final] = rightFirst :: behind)
    (sameToken : rightFirst.token = leftFirst.token)
    (notEnd : leftFirst.token.kind ≠ .endOfFile) : right.advance = left.advance := by
  have leftMore : left.ahead ≠ [] := by
    intro empty
    rw [empty] at leftRest
    cases leftRest
    exact notEnd left.final_isEnd
  have rightMore : right.ahead ≠ [] := by
    intro empty
    rw [empty] at rightRest
    cases rightRest
    exact notEnd (sameToken ▸ right.final_isEnd)
  obtain ⟨leftSlot, leftAhead, leftSplit⟩ := List.exists_cons_of_ne_nil leftMore
  obtain ⟨rightSlot, rightAhead, rightSplit⟩ := List.exists_cons_of_ne_nil rightMore
  rw [leftSplit, List.cons_append, List.cons.injEq] at leftRest
  rw [rightSplit, List.cons_append, List.cons.injEq] at rightRest
  have same := leftRest.2.trans rightRest.2.symm
  obtain ⟨sameAhead, sameFinal⟩ := List.append_inj' same rfl
  have sameFinal : left.final = right.final := List.singleton_inj.mp sameFinal
  have samePeek : right.peek = left.peek := by
    rw [Cursor.peek, Cursor.peek, rightSplit, leftSplit]
    exact (congrArg Slot.token rightRest.1).trans
      (sameToken.trans (congrArg Slot.token leftRest.1).symm)
  apply Cursor.ext
  · rw [right.previous_advance rightMore, left.previous_advance leftMore, samePeek]
  · rw [right.comments_advance rightMore, left.comments_advance leftMore, rightSplit, leftSplit,
      List.tail_cons, List.tail_cons, sameAhead, sameFinal]
  · rw [right.ahead_advance, left.ahead_advance, rightSplit, leftSplit, List.tail_cons,
      List.tail_cons, sameAhead]
  · rw [right.final_advance, left.final_advance, sameFinal]

namespace Grammar

open Step

variable (room : Nat)

/-! ### Reading definitions one by one -/

theorem nextDefinition_of_end {parser : Parser}
    (atEnd : parser.cursor.peek.kind = .endOfFile) (found : List Definition) :
    nextDefinition room found parser = .ok (.done found) parser := by
  rw [nextDefinition, isEnd, look_bind (check_eq parser _), if_pos (by simpa using atEnd), pure_eq]

theorem nextDefinition_of_more {parser : Parser}
    (more : parser.cursor.peek.kind ≠ .endOfFile) :
    ∃ definition later,
      orSkip (Grammar.definition room) (fun span => .broken span) parser = .ok definition later ∧
      later.cursor.remaining < parser.cursor.remaining ∧
      ∀ found, nextDefinition room found parser = .ok (.yield (found ++ [definition])) later := by
  obtain ⟨definition, later, ran⟩ :=
    Succeeds.orSkip (Grammar.definition room) (fun span => .broken span) parser
  have reads (found : List Definition) :
      nextDefinition room found parser = .ok (.yield (found ++ [definition])) later := by
    rw [nextDefinition, isEnd, look_bind (check_eq parser _), if_neg (by simpa using more),
      bind_of_ok ran, pure_eq]
  exact ⟨definition, later, ran, loopsAdvance.definitions room _ _ _ _ (reads []), reads⟩

theorem definitions_of_found (parser : Parser) :
    ∃ items later, ∀ found, loop (nextDefinition room) found parser = .ok (found ++ items) later := by
  by_cases atEnd : parser.cursor.peek.kind = .endOfFile
  · refine ⟨[], parser, fun found => ?_⟩
    rw [loop_of_done (nextDefinition_of_end room atEnd found), List.append_nil]
  · obtain ⟨definition, between, -, shorter, reads⟩ := nextDefinition_of_more room atEnd
    obtain ⟨items, later, rest⟩ := definitions_of_found between
    refine ⟨definition :: items, later, fun found => ?_⟩
    rw [loop_of_yield (reads found) shorter, rest, List.append_assoc, List.singleton_append]
termination_by parser.cursor.remaining

theorem definition_of_definitions {parser later : Parser} {items : List Definition}
    (more : parser.cursor.peek.kind ≠ .endOfFile)
    (ran : definitions room parser = .ok items later) (clean : later.Clean) :
    ∃ first rest between, items = first :: rest ∧ definition room parser = .ok first between ∧
      definitions room between = .ok rest later ∧ between.Clean := by
  obtain ⟨first, between, ranFirst, shorter, reads⟩ := nextDefinition_of_more room more
  obtain ⟨rest, last, onwards⟩ := definitions_of_found room between
  rw [definitions, loop_of_yield (reads []) shorter, onwards, EStateM.Result.ok.injEq] at ran
  obtain ⟨rfl, rfl⟩ := ran
  have cleanBetween : between.Clean := by
    refine (Orderly.loop (nextDefinition_turn room) [] between).clean_of_after ?_
    rw [after_of_ok (onwards [])]
    exact clean
  rcases orSkip_cases (definition room) (fun span => .broken span) parser with
    ⟨_, _, ranDefinition, same⟩ | ⟨_, _, _, _, _, same, _, reported⟩
  · cases same.symm.trans ranFirst
    exact ⟨first, rest, between, rfl, ranDefinition, onwards [], cleanBetween⟩
  · cases same.symm.trans ranFirst
    exact absurd cleanBetween reported

/-! ### Annotations in front of a definition -/

theorem attachments_of_other {parser : Parser}
    (other : parser.cursor.peek.kind ≠ .symbol .atSign) :
    attachments room parser = .ok [] parser := by
  refine loop_of_done ?_
  rw [nextAt, look_bind (check_eq parser _), if_neg (by simpa using other), pure_eq]

theorem length_le_of_whileAt {α : Type} {kind : Kind} {item : Step α} {found items : List α}
    {parser later : Parser} (ran : loop (nextAt kind item) found parser = .ok items later) :
    found.length ≤ items.length := by
  have grows {next : List α} {decision : List α → ForInStep (List α)} {between : Parser}
      (isNext : decision = .done ∨ decision = .yield)
      (ran : nextAt kind item found parser = .ok (decision next) between) :
      found.length ≤ next.length := by
    rw [nextAt, look_bind (check_eq parser kind)] at ran
    split at ran
    · obtain ⟨value, _, -, ran⟩ := bind_ok ran
      rcases isNext with rfl | rfl <;> cases ran
      rw [List.length_append]
      exact Nat.le_add_right _ _
    · rcases isNext with rfl | rfl <;> cases ran
      exact Nat.le_refl _
  rcases loop_ok ran with ran | ⟨next, between, ran, ⟨shorter, rest⟩ | ⟨-, rfl, -⟩⟩
  · exact grows (.inl rfl) ran
  · exact Nat.le_trans (grows (.inr rfl) ran) (length_le_of_whileAt rest)
  · exact grows (.inr rfl) ran
termination_by parser.cursor.remaining

/-- Without annotations nothing is passed over. -/
theorem eq_of_attachments_nil {parser later : Parser}
    (ran : attachments room parser = .ok [] later) : later = parser := by
  by_cases sign : parser.cursor.peek.kind = .symbol .atSign
  · rcases loop_ok ran with ran | ⟨next, between, ran, ⟨-, rest⟩ | ⟨-, rfl, -⟩⟩
    · rw [nextAt, look_bind (check_eq parser _), if_pos (by simpa using sign)] at ran
      obtain ⟨_, _, -, ran⟩ := bind_ok ran
      cases ran
    · rw [nextAt, look_bind (check_eq parser _), if_pos (by simpa using sign)] at ran
      obtain ⟨_, _, -, ran⟩ := bind_ok ran
      cases ran
      exact absurd (length_le_of_whileAt rest) (by simp)
    · rw [nextAt, look_bind (check_eq parser _), if_pos (by simpa using sign)] at ran
      obtain ⟨_, _, -, ran⟩ := bind_ok ran
      cases ran
  · rw [attachments_of_other room sign] at ran
    cases ran
    rfl

/-! ### Getting to the cut -/

section Cut

variable {room} {cut : CutBuffer}

/-- A token that has not been passed over before the cut. -/
theorem CutBuffer.peek_mem {parser : Parser} (within : cut.Within parser) :
    ∃ slot ∈ cut.before ++ [cut.first], parser.cursor.peek = slot.token := by
  obtain ⟨index, place⟩ := Cursor.isIn_iff.mp within.1
  have sum := CutBuffer.index_of_remaining place
  have behind := within.2
  have inside : index < (cut.before ++ [cut.first]).length := by
    rw [List.length_append, List.length_singleton]
    omega
  have token := place.peek
  rw [CutBuffer.whole, ← List.singleton_append, ← List.append_assoc,
    List.getElem?_append_left inside, List.getElem?_eq_getElem inside] at token
  exact ⟨_, List.getElem_mem inside, (Option.some.inj token).symm⟩

theorem CutBuffer.notEnd {parser : Parser} (within : cut.Within parser) :
    parser.cursor.peek.kind ≠ .endOfFile := by
  intro atEnd
  obtain ⟨index, place⟩ := Cursor.isIn_iff.mp within.1
  have nothing : parser.cursor.remaining = 0 :=
    List.length_eq_zero_iff.mpr (parser.cursor.peek_isEnd_iff.mp atEnd)
  have here := CutBuffer.at_cut within.1 (by have behind := within.2; omega)
  have barrier := cut.barrier
  rw [← CutBuffer.peek_at_cut here, atEnd] at barrier
  cases barrier

/-- Before the cut a definition does not go beyond it, unless its annotations end
right there. -/
theorem definition_runsIn {parser : Parser}
    (ends : ∀ extra later, attachments room parser = .ok extra later →
      later.cursor.remaining ≠ cut.behind.length) :
    RunsIn cut.Legal (definition room) parser := by
  refine .lookThen (fun _ alike => peek_alike alike) ?_
  refine .bind (attachments_orderly room parser) fun extra later ran => ?_
  exact (headedDefinition_eagerAt room _ fun _ => ends extra later ran).run

structure ReadsFromCut (room : Nat) (cut : CutBuffer) (first : Definition)
    (rest : List Definition) (origin between : Parser) : Prop where
  atCut : ∃ slot, slot.token = cut.first.token ∧
    origin.cursor.ahead ++ [origin.cursor.final] = slot :: cut.behind
  reads : headedDefinition room ⟨[], cut.first.token.span⟩ origin = .ok first between
  others : ∃ later, ∀ found, loop (nextDefinition room) found between = .ok (found ++ rest) later

variable {first : Definition} {rest : List Definition} {origin between : Parser}

/-- At the cut, with annotations left over or not, the same is read as alone. -/
theorem ReadsFromCut.atPlace (alone : ReadsFromCut room cut first rest origin between)
    {parser : Parser} (within : cut.Within parser) (same : parser.options = origin.options)
    (here : parser.cursor.remaining = cut.behind.length) (header : Header) :
    ∃ later, headedDefinition room header parser =
        .ok (first.reheaded header.attachments (between.cursor.spanFrom header.start)) later ∧
      between.Alike later := by
  have place := CutBuffer.at_cut within.1 here
  obtain ⟨slot, token, originRest⟩ := alone.atCut
  have barrier := cut.barrier
  have notEnd : slot.token.kind ≠ .endOfFile := by
    intro atEnd
    rw [← token, atEnd] at barrier
    cases barrier
  have behind := Cursor.advance_eq_of_rest originRest (CutBuffer.rest_at_cut place) token.symm
    notEnd
  have originPeek := (Cursor.peek_of_rest originRest).trans token
  have sameBehind : SameBehind origin parser := by
    refine ⟨?_, behind, same⟩
    rw [originPeek, CutBuffer.peek_at_cut place]
  have parallel : Parallel (Reheaded ⟨[], cut.first.token.span⟩ header)
      (headedDefinition room _) (headedDefinition room header) origin parser :=
    headedDefinition_parallel sameBehind (by rw [originPeek]; exact barrier)
  obtain ⟨definition, later, ran, reheaded, alike⟩ := parallel.of_ok alone.reads
  exact ⟨later, ran.trans (by rw [reheaded.other]), alike⟩

/-- What the cut leaves of the definitions read before it: at most annotations, which
go to the first definition behind. -/
structure Pending (room : Nat) (cut : CutBuffer) (options : Options) (header : Header) : Prop where
  /-- The annotations are read from a place before the cut on, up to the cut. -/
  reads : ∃ origin later : Parser, origin.options = options ∧ origin.cursor.IsIn cut.whole ∧
    attachments room origin = .ok header.attachments later ∧
    later.cursor.At cut.whole cut.before.length
  none : header.attachments = [] → header.start = cut.first.token.span
  start : ∃ slot ∈ cut.before ++ [cut.first], header.start = slot.token.span

theorem Pending.of_attachments {parser later : Parser} {extra : List Attachment}
    (within : cut.Within parser) (ran : attachments room parser = .ok extra later)
    (here : later.cursor.remaining = cut.behind.length) :
    Pending room cut parser.options ⟨extra, parser.cursor.peek.span⟩ := by
  have run : RunsIn cut.Legal (attachments room) parser := attachments_orderly room parser
  have atCut := CutBuffer.at_cut (within.ofOk run ran).1 here
  obtain ⟨slot, member, isToken⟩ := CutBuffer.peek_mem within
  refine ⟨⟨parser, later, rfl, within.1, ran, atCut⟩, fun none => ?_,
    slot, member, congrArg Token.span isToken⟩
  change extra = [] at none
  subst none
  obtain rfl := eq_of_attachments_nil room ran
  exact congrArg Token.span (CutBuffer.peek_at_cut atCut)

/-- Read alone, the first definition has no annotations and starts at the cut. -/
theorem ReadsFromCut.first_eq (alone : ReadsFromCut room cut first rest origin between) :
    first.attachments = [] ∧ first.span = between.cursor.spanFrom cut.first.token.span := by
  obtain ⟨slot, token, originRest⟩ := alone.atCut
  have peek := (Cursor.peek_of_rest originRest).trans token
  have parallel : Parallel (Reheaded ⟨[], cut.first.token.span⟩ ⟨[], cut.first.token.span⟩)
      (headedDefinition room _) (headedDefinition room _) origin origin :=
    headedDefinition_parallel ⟨rfl, .refl _⟩ (by rw [peek]; exact cut.barrier)
  obtain ⟨_, _, -, reheaded, -⟩ := parallel.of_ok alone.reads
  exact ⟨reheaded.attachments, reheaded.span⟩

/-- Behind the first definition the same is read as alone. -/
theorem ReadsFromCut.same_behind (alone : ReadsFromCut room cut first rest origin between)
    {parser : Parser} (alike : between.Alike parser) :
    ∃ later, ∀ found, loop (nextDefinition room) found parser = .ok (found ++ rest) later := by
  obtain ⟨finish, others⟩ := alone.others
  obtain ⟨items, later, reads⟩ := definitions_of_found room parser
  have agree := (Orderly.loop (nextDefinition_turn room) [] between).agree parser alike
  unfold Run.Agree at agree
  rw [others, reads] at agree
  obtain ⟨other, ran, -⟩ := agree
  cases ran
  exact ⟨later, reads⟩

/-- From any place before the cut, reading gets to it, and then reads on as alone. -/
theorem ReadsFromCut.reached (alone : ReadsFromCut room cut first rest origin between)
    (parser : Parser) (within : cut.Within parser) (same : parser.options = origin.options) :
    ∃ earlier header later, Pending room cut parser.options header ∧
      ∀ found, loop (nextDefinition room) found parser =
        .ok (found ++ (earlier ++
          first.reheaded header.attachments (between.cursor.spanFrom header.start) :: rest))
          later := by
  obtain ⟨item, next, ran, shorter, readsNext⟩ :=
    nextDefinition_of_more room (CutBuffer.notEnd within)
  by_cases ends : ∃ extra later, attachments room parser = .ok extra later ∧
      later.cursor.remaining = cut.behind.length
  · -- The annotations end at the cut: the next definition is the first behind it.
    obtain ⟨extra, later, ranAttachments, here⟩ := ends
    have run : RunsIn cut.Legal (attachments room) parser := attachments_orderly room parser
    have withinLater := within.ofOk run ranAttachments
    have sameLater : later.options = origin.options :=
      (run.options_of_ok ranAttachments).trans same
    obtain ⟨last, ranHeaded, alike⟩ :=
      alone.atPlace withinLater sameLater here ⟨extra, parser.cursor.peek.span⟩
    have ranDefinition : definition room parser =
        .ok (first.reheaded extra (between.cursor.spanFrom parser.cursor.peek.span)) last := by
      rw [definition, look_bind (peek_eq parser), bind_of_ok ranAttachments]
      exact ranHeaded
    have isFirst := (tryCatch_of_ok ranDefinition).symm.trans ran
    cases isFirst
    obtain ⟨finish, onwards⟩ := alone.same_behind alike
    refine ⟨[], ⟨extra, parser.cursor.peek.span⟩, finish,
      .of_attachments within ranAttachments here, fun found => ?_⟩
    rw [loop_of_yield (readsNext found) shorter, onwards, List.append_assoc]
    rfl
  · -- The cut is still ahead of what the next definition gives.
    have notHere : parser.cursor.remaining ≠ cut.behind.length := by
      intro here
      have peek := CutBuffer.peek_at_cut (CutBuffer.at_cut within.1 here)
      refine ends ⟨[], parser, attachments_of_other room ?_, here⟩
      intro sign
      have barrier := cut.barrier
      rw [← peek, sign] at barrier
      cases barrier
    have run : RunsIn cut.Legal (orSkip (definition room) (fun span => .broken span)) parser :=
      .orSkip (definition_runsIn fun extra later ran here => ends ⟨extra, later, ran, here⟩)
        fun _ => notHere
    have sameNext : next.options = origin.options := (run.options_of_ok ran).trans same
    obtain ⟨earlier, header, finish, pending, onwards⟩ :=
      alone.reached next (within.ofOk run ran) sameNext
    refine ⟨item :: earlier, header, finish, run.options_of_ok ran ▸ pending, fun found => ?_⟩
    rw [loop_of_yield (readsNext found) shorter, onwards, List.append_assoc]
    rfl
termination_by parser.cursor.remaining

/-- A source that has not gone beyond the cut ends with what is read from there
alone. -/
theorem ReadsFromCut.items (alone : ReadsFromCut room cut first rest origin between)
    {parser later : Parser} {unit : SourceUnit} (within : cut.Within parser)
    (same : parser.options = origin.options) (ran : sourceUnit room parser = .ok unit later) :
    ∃ earlier header, Pending room cut parser.options header ∧
      unit.items = earlier ++
        first.reheaded header.attachments (between.cursor.spanFrom header.start) :: rest := by
  rw [sourceUnit, look_bind (peek_eq parser)] at ran
  obtain ⟨package, afterPackage, ranPackage, ran⟩ := bind_ok ran
  obtain ⟨found, afterDirectives, ranDirectives, ran⟩ := bind_ok ran
  obtain ⟨items, afterItems, ranItems, ran⟩ := bind_ok ran
  rw [look_bind (peek_eq afterItems)] at ran
  cases ran
  have header : RunsIn cut.Legal packageHeader parser := packageHeader_orderly parser
  have others : RunsIn cut.Legal directives afterPackage := directives_orderly afterPackage
  obtain ⟨earlier, pendingHeader, last, pending, reads⟩ :=
    alone.reached afterDirectives ((within.ofOk header ranPackage).ofOk others ranDirectives)
      (((others.options_of_ok ranDirectives).trans (header.options_of_ok ranPackage)).trans same)
  rw [definitions, reads, EStateM.Result.ok.injEq] at ranItems
  have kept := (others.options_of_ok ranDirectives).trans (header.options_of_ok ranPackage)
  exact ⟨earlier, pendingHeader, kept ▸ pending, ranItems.1.symm⟩

end Cut

end Grammar

/-! ### The whole source -/

namespace Parser

/-- A report leaves something in the list of diagnostics, unless something has been
dropped before that is not in it. -/
theorem reported_report {parser : Parser} (diagnostic : Diagnostic)
    (start : parser.Clean ∨ parser.diagnostics.entries ≠ []) :
    (parser.report diagnostic).diagnostics.entries ≠ [] := by
  rcases parser.report_cases diagnostic with ⟨dropped, reason⟩ | ⟨entry, added⟩
  · rw [dropped]
    rcases start with clean | reported
    · rcases reason with hit | remembered
      · rw [clean.belowLimit] at hit
        contradiction
      · exact absurd clean.nothingRemembered remembered
    · exact reported
  · rw [added]
    exact List.append_ne_nil_of_right_ne_nil _ (List.cons_ne_nil _ _)

theorem clean_or_reported_after {α : Type} {legal : Cursor → Prop} {step : Step α}
    {parser : Parser} (run : Step.RunsIn legal step parser)
    (start : parser.Clean ∨ parser.diagnostics.entries ≠ []) :
    (Step.after step parser).Clean ∨ (Step.after step parser).diagnostics.entries ≠ [] :=
  (run.keeping (fun later => later.Clean ∨ later.diagnostics.entries ≠ [])
    (fun _ state _ _ => state.imp_left (Parser.clean_moved _).mpr)
    (fun _ state => state.imp_left (Parser.clean_moved _).mpr)
    (fun _ diagnostic state => .inr (reported_report diagnostic state)) start).2

/-- When nothing is in the list of diagnostics, nothing has been dropped from it. -/
theorem clean_of_entries_nil {α : Type} {legal : Cursor → Prop} {step : Step α}
    {parser : Parser} (run : Step.RunsIn legal step parser) (start : parser.Clean)
    (nothing : (Step.after step parser).diagnostics.entries = []) :
    (Step.after step parser).Clean :=
  (clean_or_reported_after run (.inl start)).resolve_right fun reported => reported nothing

theorem clean_ofTokens (tokens : List Token) (options : Options) :
    (ofTokens tokens [] options).Clean :=
  ⟨rfl, rfl, rfl⟩

end Parser

namespace Grammar

open Step

/-- A source that starts with a word that opens a definition has neither a package
nor directives. -/
theorem sourceUnit_of_isBarrier (room : Nat) {parser later : Parser} {unit : SourceUnit}
    (barrier : parser.cursor.peek.kind.isBarrier = true)
    (ran : sourceUnit room parser = .ok unit later) :
    definitions room parser = .ok unit.items later := by
  have notHeader : ∀ {word : Keyword}, (Kind.keyword word).isBarrier = false →
      parser.cursor.peek.kind ≠ .keyword word := by
    intro word free here
    rw [here, free] at barrier
    cases barrier
  have noPackage : packageHeader parser = .ok none parser := by
    rw [packageHeader, look_bind (check_eq parser _), if_neg (by simpa using notHeader rfl), pure_eq]
  have noDirectives : directives parser = .ok [] parser := by
    refine loop_of_done ?_
    rw [nextDirective, look_bind (current_eq parser), if_neg, pure_eq]
    simpa using ⟨notHeader rfl, notHeader rfl⟩
  rw [sourceUnit, look_bind (peek_eq parser), bind_of_ok noPackage, bind_of_ok noDirectives] at ran
  obtain ⟨items, between, ranItems, ran⟩ := bind_ok ran
  rw [look_bind (peek_eq between)] at ran
  cases ran
  exact ranItems

/-- A source that is read cleanly alone is read from the cut on. -/
theorem readsFromCut_of_clean (room : Nat) (cut : CutBuffer) {parser later : Parser}
    {unit : SourceUnit} {slot : Slot}
    (ran : sourceUnit room parser = .ok unit later) (clean : later.Clean)
    (rest : parser.cursor.ahead ++ [parser.cursor.final] = slot :: cut.behind)
    (token : slot.token = cut.first.token) :
    ∃ first others between, unit.items = first :: others ∧
      ReadsFromCut room cut first others parser between ∧
      between.cursor.remaining < parser.cursor.remaining := by
  have peek := (Cursor.peek_of_rest rest).trans token
  have barrier : parser.cursor.peek.kind.isBarrier = true := by
    rw [peek]
    exact cut.barrier
  have notEnd : parser.cursor.peek.kind ≠ .endOfFile := by
    intro atEnd
    rw [atEnd] at barrier
    cases barrier
  have notSign : parser.cursor.peek.kind ≠ .symbol .atSign := by
    intro sign
    rw [sign] at barrier
    cases barrier
  obtain ⟨first, between, ranFirst, shorter, reads⟩ := nextDefinition_of_more room notEnd
  obtain ⟨others, last, onwards⟩ := definitions_of_found room between
  have items := sourceUnit_of_isBarrier room barrier ran
  rw [definitions, loop_of_yield (reads []) shorter, onwards, EStateM.Result.ok.injEq] at items
  obtain ⟨isItems, rfl⟩ := items
  have cleanBetween : between.Clean := by
    refine (Orderly.loop (nextDefinition_turn room) [] between).clean_of_after ?_
    rw [after_of_ok (onwards [])]
    exact clean
  rcases orSkip_cases (definition room) (fun span => .broken span) parser with
    ⟨_, _, ranDefinition, same⟩ | ⟨_, _, _, _, _, same, _, reported⟩
  · cases same.symm.trans ranFirst
    rw [definition, look_bind (peek_eq parser), bind_of_ok (attachments_of_other room notSign),
      peek] at ranDefinition
    exact ⟨first, others, between, isItems.symm,
      ⟨⟨slot, token, rest⟩, ranDefinition, last, onwards⟩, shorter⟩
  · cases same.symm.trans ranFirst
    exact absurd cleanBetween reported

end Grammar

/-! ### Where the first definition ends -/

/-- Tokens of which none starts or stops before one in front of it does. -/
def InOrder (tokens : List Token) : Prop :=
  tokens.Pairwise fun left right =>
    left.span.start ≤ right.span.start ∧ left.span.stop ≤ right.span.stop

theorem InOrder.stop_le_of_append {before tokens : List Token} {opening last : Token}
    (inOrder : InOrder (before ++ opening :: tokens)) (member : last ∈ opening :: tokens) :
    opening.span.stop ≤ last.span.stop := by
  rcases List.mem_cons.mp member with rfl | isBehind
  · exact Nat.le_refl _
  · have inOrder := List.pairwise_append.mp inOrder
    exact (List.rel_of_pairwise_cons inOrder.2.1 isBehind).2

/-- What the annotations before the cut start with starts before the word at the cut. -/
theorem Grammar.Pending.start_le {room : Nat} {cut : CutBuffer} {options : Options}
    {header : Header} {before tokens : List Token} {opening : Token}
    (pending : Pending room cut options header)
    (readTokens : cut.before.map Slot.token = before.filter Token.isRead)
    (sameFirst : cut.first.token = opening) (inOrder : InOrder (before ++ opening :: tokens)) :
    header.start.start ≤ cut.first.token.span.start := by
  obtain ⟨slot, member, isStart⟩ := pending.start
  rw [isStart]
  rcases List.mem_append.mp member with member | member
  · have read : slot.token ∈ before.filter Token.isRead :=
      readTokens ▸ List.mem_map_of_mem member
    have inOrder := List.pairwise_append.mp inOrder
    rw [sameFirst]
    exact (inOrder.2.2 _ (List.mem_filter.mp read).1 _ List.mem_cons_self).1
  · obtain rfl := List.mem_singleton.mp member
    exact Nat.le_refl _

theorem Cursor.contains_spanFrom {cursor : Cursor} {last : Token} {start opening : Span}
    (previous : cursor.previous = some last) (starts : start.start ≤ opening.start)
    (stops : opening.stop ≤ last.span.stop) :
    (cursor.spanFrom start).contains (cursor.spanFrom opening) = true := by
  rw [spanFrom, spanFrom, previous, Span.contains, Bool.and_eq_true, decide_eq_true_eq,
    decide_eq_true_eq]
  simp only [Span.merge_start, Span.merge_stop]
  omega

theorem Grammar.ReadsFromCut.exists_previous {room : Nat} {cut : CutBuffer}
    {first : Definition} {rest : List Definition} {tokens : List Token} {options : Options}
    {between : Parser}
    (alone : ReadsFromCut room cut first rest (.ofTokens tokens [] options) between)
    (moved : between.cursor.remaining <
      (Parser.ofTokens tokens [] options).cursor.remaining) :
    ∃ last ∈ tokens, between.cursor.previous = some last := by
  have start : (Parser.ofTokens tokens [] options).cursor.At (Slot.buffer tokens) 0 :=
    Cursor.At.ofTokens tokens
  have reads : Step.EagerAt (fun _ => True) (headedDefinition room _) (.ofTokens tokens [] options) :=
    headedDefinition_eagerAt room ⟨[], cut.first.token.span⟩ trivial
  have within := (reads.run.isIn (Cursor.isIn_iff.mpr ⟨0, start⟩)).2
  rw [Step.after_of_ok alone.reads] at within
  obtain ⟨index, place⟩ := Cursor.isIn_iff.mp within
  have lengths := place.length_eq
  have startLengths := start.length_eq
  have total : (Slot.buffer tokens).length = (Slot.ofTokens [] tokens).1.length + 1 := by
    rw [Slot.buffer, List.length_append, List.length_singleton]
  have inside : index - 1 < (Slot.ofTokens [] tokens).1.length := by omega
  refine ⟨(Slot.ofTokens [] tokens).1[index - 1].token, ?_, ?_⟩
  · exact (Slot.ofTokens_sublist [] tokens).subset
      (List.mem_map_of_mem (List.getElem_mem inside))
  · rw [place.previous, List.getLast?_take, if_neg (by omega), Slot.buffer,
      List.getElem?_append_left inside, List.getElem?_eq_getElem inside]
    rfl

/-- Annotations that are left over at the end of `before`: reading annotations from one of its
places on gives these and ends right before `after`. -/
def LeftOver (before after : List Token) (options : Options)
    (attachments : List Attachment) : Prop :=
  ∃ origin later : Parser, origin.options = options ∧
    origin.cursor.IsIn (Slot.buffer (before ++ after)) ∧
    Grammar.attachments options.maxDepth origin = .ok attachments later ∧
    later.cursor.At (Slot.buffer (before ++ after)) (before.filter Token.isRead).length

/-- Recovery isolates broken tokens from what follows them. Let `after` start with a
word that opens a definition and be read without any diagnostic, and let `before` not
end with a token that takes such a word. Then `before ++ after` ends with exactly the
definitions of `after`; the first of them may get the annotations that are left over at
the end of `before`, and starts with these. -/
theorem items_of_append (before after : List Token) (options : Options) (opening : Token)
    (noEnd : ∀ token ∈ before, token.kind ≠ .endOfFile)
    (unsheltered : ∀ token, (before.filter Token.isRead).getLast? = some token →
      token.kind ∉ [.keyword .nativeKw, .keyword .attachKw, .symbol .comma])
    (starts : after.head? = some opening)
    (opens : opening.kind ∈ ([.keyword .serviceKw, .keyword .functionKw, .keyword .connectorKw,
      .keyword .structKw, .keyword .typemapperKw, .keyword .constKw,
      .keyword .annotationKw] : List Kind))
    (clean : (parseTokens after options).2.entries = []) :
    ∃ first rest earlier attachments span,
      (parseTokens after options).1.items = first :: rest ∧
      (parseTokens (before ++ after) options).1.items =
        earlier ++ first.reheaded (attachments ++ first.attachments) span :: rest ∧
      LeftOver before after options attachments ∧
      (attachments = [] → span = first.span) ∧
      (InOrder (before ++ after) → span.contains first.span = true) := by
  have barrier : opening.kind.isBarrier = true := by
    simp only [List.mem_cons, List.not_mem_nil, or_false] at opens
    rcases opens with here | here | here | here | here | here | here <;> rw [here] <;> rfl
  obtain ⟨tokens, rfl⟩ : ∃ tokens, after = opening :: tokens := by
    cases after with
    | nil => cases starts
    | cons first tokens =>
        cases starts
        exact ⟨tokens, rfl⟩
  -- In the buffer of both lists `after` starts at a cut, beyond which nothing in front of it goes.
  obtain ⟨cut, sameFirst, readTokens, whole, alone⟩ :=
    CutBuffer.exists_of_append tokens noEnd unsheltered barrier
  obtain ⟨unit, later, ran⟩ :=
    Grammar.sourceUnit_succeeds options.maxDepth (.ofTokens (opening :: tokens) [] options)
  obtain ⟨wholeUnit, wholeLater, wholeRan⟩ :=
    Grammar.sourceUnit_succeeds options.maxDepth
      (.ofTokens (before ++ opening :: tokens) [] options)
  rw [parseTokens_of_ok ran] at clean
  rw [parseTokens_of_ok ran, parseTokens_of_ok wholeRan]
  have cleanLater : later.Clean := by
    have kept := Parser.clean_of_entries_nil
      (Grammar.sourceUnit_orderly options.maxDepth (.ofTokens (opening :: tokens) [] options))
      (Parser.clean_ofTokens _ _) (by rw [Step.after_of_ok ran]; exact clean)
    rwa [Step.after_of_ok ran] at kept
  obtain ⟨first, rest, between, isItems, readsAlone, moved⟩ :=
    Grammar.readsFromCut_of_clean options.maxDepth cut ran cleanLater alone sameFirst.symm
  obtain ⟨earlier, header, pending, wholeItems⟩ :=
    readsAlone.items (CutBuffer.within_ofTokens whole) rfl wholeRan
  -- Read alone, `after` starts with its word, so all annotations in the whole stem from `before`.
  obtain ⟨noAttachments, firstSpan⟩ := readsAlone.first_eq
  refine ⟨first, rest, earlier, header.attachments, between.cursor.spanFrom header.start, isItems,
    ?_, ?_, fun none => ?_, fun inOrder => ?_⟩
  · rw [noAttachments, List.append_nil]
    exact wholeItems
  · obtain ⟨origin, finish, sameOptions, place, ranAttachments, atCut⟩ := pending.reads
    have length : (before.filter Token.isRead).length = cut.before.length := by
      rw [← readTokens, List.length_map]
    rw [← whole] at place atCut
    exact ⟨origin, finish, sameOptions, place, ranAttachments, length ▸ atCut⟩
  · rw [firstSpan, pending.none none]
  · obtain ⟨last, isBehind, previous⟩ := readsAlone.exists_previous moved
    have starts := pending.start_le readTokens sameFirst inOrder
    have stops := inOrder.stop_le_of_append isBehind
    rw [firstSpan]
    exact Cursor.contains_spanFrom previous starts (sameFirst ▸ stops)

/-- `x;` and `@mark \x7b \x7d`: a definition that is none, and an annotation with nothing
behind it. -/
def strayTokens : List Token :=
  [⟨.identifier, "x", .point 0 1 1⟩, ⟨.symbol .semicolon, ";", .point 1 1 2⟩,
    ⟨.symbol .atSign, "@", .point 3 1 4⟩, ⟨.identifier, "mark", .point 4 1 5⟩,
    ⟨.symbol .leftBrace, "\x7b", .point 9 1 10⟩, ⟨.symbol .rightBrace, "\x7d", .point 11 1 12⟩]

/-- `const int y = 1;` -/
def constTokens : List Token :=
  [⟨.keyword .constKw, "const", .point 13 2 1⟩, ⟨.keyword .intKw, "int", .point 19 2 7⟩,
    ⟨.identifier, "y", .point 23 2 11⟩, ⟨.symbol .equal, "=", .point 25 2 13⟩,
    ⟨.integer, "1", .point 27 2 15⟩, ⟨.symbol .semicolon, ";", .point 28 2 16⟩]

theorem items_of_strayTokens_append_constTokens :
    (parseTokens constTokens {}).2.entries = [] ∧
      ∃ first rest earlier attachments span,
        (parseTokens constTokens {}).1.items = first :: rest ∧
        (parseTokens (strayTokens ++ constTokens) {}).1.items =
          earlier ++ first.reheaded (attachments ++ first.attachments) span :: rest ∧
        LeftOver strayTokens constTokens {} attachments ∧
        (attachments = [] → span = first.span) ∧
        (InOrder (strayTokens ++ constTokens) → span.contains first.span = true) :=
  ⟨by decide +kernel,
    items_of_append strayTokens constTokens {} ⟨.keyword .constKw, "const", .point 13 2 1⟩
      (by decide) (by decide) rfl (by decide) (by decide +kernel)⟩

example : ((parseTokens (strayTokens ++ constTokens) {}).1.items.map
    (fun item => item.attachments.length)) = [0, 1] := by
  decide +kernel

end ServiceLang
