import ServiceLang.Proofs.AbreastDefinition
import ServiceLang.Proofs.Appending
import ServiceLang.Proofs.Reporting

set_option autoImplicit false

/-! Closing tokens left out. A parse that nothing is reported in stands beside one of tokens
from which a run of closing tokens is left out. Up to the gap both read the same. There the
second one assumes what is missing, and says so once; from then on the two go on with what
stands behind, or the first one only closes what the second one has closed already. -/

namespace ServiceLang

structure Parser.Noted (note : Diagnostic) (parser : Parser) : Prop where
  entries : parser.diagnostics.entries = [note]
  remembered : parser.reportedAt = [note.span.start]
  belowLimit : parser.limitHit = false

namespace Parser

variable {parser : Parser} {note : Diagnostic}

theorem Clean.not_repeats (clean : parser.Clean) : ¬parser.Repeats note := by
  rintro ⟨-, member⟩
  rw [clean.nothingRemembered] at member
  cases member

theorem Clean.report (clean : parser.Clean) (room : parser.options.maxErrors ≠ some 0)
    (isError : note.isError = true) : (parser.report note).Noted note := by
  have hasRoom : parser.HasRoom := by
    intro limit bound
    rw [Report.size, clean.nothingReported]
    refine Nat.pos_of_ne_zero fun zero => ?_
    rw [zero] at bound
    exact room bound
  rw [report_of_room clean.belowLimit clean.not_repeats hasRoom]
  refine ⟨?_, ?_, clean.belowLimit⟩
  · rw [Report.push, clean.nothingReported]
    rfl
  · rw [offsetsWith, if_pos isError, clean.nothingRemembered]

/-- A second error at the same offset is dropped. -/
theorem Noted.report (noted : parser.Noted note) {diagnostic : Diagnostic}
    (isError : diagnostic.isError = true) (same : diagnostic.span.start = note.span.start) :
    parser.report diagnostic = parser := by
  refine report_of_repeats ⟨isError, ?_⟩
  rw [noted.remembered, same]
  exact List.mem_singleton_self _

theorem Noted.moved (noted : parser.Noted note) (cursor : Cursor) :
    { parser with cursor := cursor }.Noted note :=
  ⟨noted.entries, noted.remembered, noted.belowLimit⟩

end Parser

/-! ### Gaps -/

/-- What is left out of the tokens of one side, and what stands behind it on both. -/
structure Omission where
  /-- The symbol that is left out. -/
  sign : Symbol
  /-- The tokens that stand on the left only. -/
  missing : List Slot
  /-- What stands behind them. -/
  behind : List Slot
  /-- What stands on the right where they are missing, and the end. -/
  other : List Slot
  final : Slot
  /-- What of the trees is compared. -/
  sieve : Sieve

namespace Omission

variable (gap : Omission)

def seam : Seam :=
  ⟨gap.missing ++ gap.behind, gap.other, gap.final⟩

def next : Token :=
  gap.seam.first

def note : Diagnostic :=
  (Step.wrongToken gap.next (Kind.symbol gap.sign).description).withRecovery
    (.inserted (Kind.symbol gap.sign).description)

def view : View where
  shown _ := .nowhere
  sieve := gap.sieve
  Spans _ _ := True
  shown_eq _ := rfl
  shown_after _ := rfl
  merge _ _ := trivial

structure IsSemicolon : Prop where
  isSign : gap.sign = .semicolon
  single : gap.missing.tail = []
  follows : Step.mayFollowStatement gap.next.kind = true
  same : List.Forall₂ gap.view.Slots gap.behind gap.other

/-- Closing braces are missing up to the end of the one side. On the other side a definition
starts there, which is no action of a connector. -/
structure IsBraces : Prop where
  isSign : gap.sign = .rightBrace
  nothing : gap.behind = []
  marks : gap.sieve.marks = false
  starts : gap.next.kind.startsDefinition = true
  ends : Grammar.endsMembers gap.next.kind (gap.other[1]?.getD gap.final).token.kind = true

end Omission

/-- Closing tokens left out before a token at which nothing goes on. -/
structure Gap extends Omission where
  options : Options
  someMissing : missing ≠ []
  signs : ∀ slot ∈ missing, slot.token.kind = .symbol sign
  inert : StartsInert other
  room : options.maxErrors ≠ some 0
  silent : sieve.comments = false
  sort : toOmission.IsSemicolon ∨ toOmission.IsBraces

namespace Gap

variable (gap : Gap)

/-- The kinds at which the one side stands where the other one has gone past the gap. -/
def Stops (kind : Kind) : Prop :=
  kind = .symbol gap.sign ∨ kind = .endOfFile

theorem isSign : gap.sign = .semicolon ∨ gap.sign = .rightBrace :=
  gap.sort.imp Omission.IsSemicolon.isSign Omission.IsBraces.isSign

variable {gap}

theorem away_of_stops {kind : Kind} (stops : gap.Stops kind) :
    kind = .symbol .semicolon ∨ kind = .symbol .rightBrace ∨ kind = .endOfFile := by
  rcases stops with rfl | rfl
  · rcases gap.isSign with same | same <;> rw [same]
    · exact .inl rfl
    · exact .inr (.inl rfl)
  · exact .inr (.inr rfl)

theorem inert_of_sign : (Kind.symbol gap.sign).isInert = true := by
  rcases gap.isSign with same | same <;> rw [same] <;> rfl

theorem ne_of_stops {kind other : Kind} (stops : gap.Stops kind)
    (spared : other ∉ ([.symbol .semicolon, .symbol .rightBrace, .endOfFile] : List Kind)) :
    kind ≠ other := by
  rintro rfl
  rcases away_of_stops stops with rfl | rfl | rfl <;> simp at spared

theorem spared_of_away {kind : Kind} (away : kind.isInert = false) (notEnd : kind ≠ .endOfFile) :
    kind ∉ ([.symbol .semicolon, .symbol .rightBrace, .endOfFile] : List Kind) := by
  intro member
  simp only [List.mem_cons, List.not_mem_nil, or_false] at member
  rcases member with rfl | rfl | rfl
  · cases away
  · cases away
  · exact notEnd rfl

/-- Nothing is seen at a stop. -/
theorem nothing_of_stops {cursor : Cursor} (stops : gap.Stops cursor.peek.kind) :
    (∀ look, startsVarDef look cursor.kinds = false) ∧ startsInvocation cursor.kinds = false := by
  have away := away_of_stops stops
  rw [Cursor.kind_peek] at away
  cases ahead : cursor.kinds with
  | nil => exact ⟨fun look => by cases look <;> rfl, rfl⟩
  | cons kind rest =>
      rw [ahead] at away
      change kind = _ ∨ kind = _ ∨ kind = _ at away
      rcases away with rfl | rfl | rfl
      all_goals exact ⟨fun look => by cases look <;> rfl, rfl⟩

theorem not_isBraces_of_isSemicolon (semicolon : gap.IsSemicolon) : ¬gap.IsBraces := by
  intro braces
  have same := semicolon.isSign.symm.trans braces.isSign
  cases same

theorem startsInert_rest : StartsInert gap.seam.rest := by
  obtain ⟨slot, others, same⟩ := List.exists_cons_of_ne_nil gap.someMissing
  refine ⟨slot, others ++ gap.behind, ?_, ?_⟩
  · rw [Omission.seam, same, List.cons_append]
  · rw [gap.signs slot (same ▸ List.mem_cons_self)]
    exact inert_of_sign

theorem soft : gap.seam.IsSoft True :=
  ⟨trivial, startsInert_rest, gap.inert⟩

theorem inert_next : gap.next.kind.isInert = true := by
  obtain ⟨slot, others, same, inert⟩ := gap.inert
  rw [Omission.next, Seam.first, Omission.seam, same]
  exact inert

theorem next_ne_end : gap.next.kind ≠ .endOfFile := by
  intro isEnd
  have inert := gap.inert_next
  rw [isEnd] at inert
  cases inert

theorem note_eq : gap.note =
    (Diagnostic.expectedToken gap.next.span (Kind.symbol gap.sign).description
      gap.next.kind.description).withRecovery (.inserted (Kind.symbol gap.sign).description) := by
  rw [Omission.note, Step.wrongToken, if_neg gap.next_ne_end]

theorem isError_note : gap.note.isError = true := by
  rw [note_eq]
  rfl

theorem agree_self {α : Type} [Matchable α] (value : α) : gap.view.Agree value value :=
  Matchable.agree_self _ (fun _ => trivial) value

theorem comments_agree (left right : List Token) : gap.view.Comments left right := by
  intro kept
  rw [show gap.view.sieve.comments = false from gap.silent] at kept
  cases kept

/-- Both sides behind the gap: as long as nothing is reported on the left, the right one has
said what is missing, and nothing else. -/
def matching (gap : Gap) : Matching where
  toView := gap.view
  Records left right := left.Clean → right.Noted gap.note
  moved _ otherPlace records clean :=
    (records ((Parser.clean_moved _).mp clean)).moved otherPlace
  reported _ _ _ clean := absurd clean (Parser.not_clean_report _ _)

def unchanging (view : View) (options : Options) : Matching where
  toView := view
  Records left _ := left.options = options
  moved _ _ records := records
  reported records _ _ := by rw [Parser.options_report, records]

end Gap

/-! ### The two sides -/

structure Gap.Before (gap : Gap) (shared : List Slot) (left right : Parser) : Prop where
  joined : left.Joined True gap.seam shared right
  options : left.options = gap.options
  final : gap.IsSemicolon → left.cursor.final = gap.final

structure Gap.Through (gap : Gap) (left right : Parser) : Prop where
  ahead : left.cursor.ahead <:+ gap.missing
  other : right.cursor.ahead = gap.other
  final : right.cursor.final = gap.final
  options : right.options = gap.options
  noted : right.Noted gap.note

/-- Where two parsers may stand: before the gap with a shared token left, anywhere up to the
gap, or among the missing braces too. -/
inductive Gap.Side where
  | inside
  | edge
  | among
deriving DecidableEq

class Gap.Side.Widens (wide narrow : Gap.Side) : Prop where
  wider : narrow = .inside ∨ wide = .among ∨ narrow = wide

instance (side : Gap.Side) : side.Widens side := ⟨.inr (.inr rfl)⟩

instance (side : Gap.Side) : side.Widens .inside := ⟨.inl rfl⟩

instance (side : Gap.Side) : Gap.Side.among.Widens side := ⟨.inr (.inl rfl)⟩

inductive Gap.Across (gap : Gap) (side : Gap.Side) (left right : Parser) : Prop
  | before {shared : List Slot} (before : gap.Before shared left right)
      (place : side = .inside → shared ≠ []) : Across gap side left right
  | behind (semicolon : gap.IsSemicolon) (parsers : gap.matching.Parsers left right) :
      Across gap side left right
  | through (isAmong : side = .among) (braces : gap.IsBraces)
      (through : gap.Through left right) : Across gap side left right

namespace Gap

variable {gap : Gap} {left right : Parser} {shared : List Slot}

theorem Before.room (before : gap.Before shared left right) :
    right.options.maxErrors ≠ some 0 := by
  rw [before.joined.options, before.options]
  exact gap.room

theorem Before.advance {slot : Slot} {rest : List Slot}
    (before : gap.Before (slot :: rest) left right) :
    gap.Before rest left.advance right.advance :=
  ⟨before.joined.advance rfl, before.options, fun semicolon =>
    left.cursor.final_advance.trans (before.final semicolon)⟩

theorem Before.peek_left (before : gap.Before [] left right) :
    left.cursor.peek.kind = .symbol gap.sign := by
  obtain ⟨slot, others, same⟩ := List.exists_cons_of_ne_nil gap.someMissing
  have ahead := before.joined.ahead
  rw [Omission.seam, same] at ahead
  rw [Cursor.peek, ahead]
  exact gap.signs slot (same ▸ List.mem_cons_self)

theorem Before.peek (before : gap.Before shared left right) (more : shared ≠ []) :
    right.cursor.peek = left.cursor.peek :=
  before.joined.peek more

theorem Before.ne_nil (before : gap.Before shared left right)
    (away : ¬gap.Stops left.cursor.peek.kind) : shared ≠ [] := by
  rintro rfl
  exact away (.inl before.peek_left)

theorem Through.stops (through : gap.Through left right) : gap.Stops left.cursor.peek.kind := by
  cases ahead : left.cursor.ahead with
  | nil => exact .inr (left.cursor.peek_isEnd_iff.mpr ahead)
  | cons slot others =>
      refine .inl ?_
      rw [Cursor.peek, ahead]
      exact gap.signs slot (through.ahead.mem (ahead ▸ List.mem_cons_self))

structure AtOther (gap : Gap) (right : Parser) : Prop where
  ahead : right.cursor.ahead = gap.other
  final : right.cursor.final = gap.final

theorem AtOther.peek (atOther : gap.AtOther right) : right.cursor.peek = gap.next := by
  rw [Cursor.peek, atOther.ahead, atOther.final]
  rfl

theorem Before.atOther (before : gap.Before [] left right) : gap.AtOther right :=
  ⟨before.joined.other, before.joined.final⟩

theorem Through.atOther (through : gap.Through left right) : gap.AtOther right :=
  ⟨through.other, through.final⟩

/-- Both sides stand before a token of one kind, or the left one stops and the right one has
come to what follows the gap. -/
theorem Across.kind_peek_or {side : Side} (across : gap.Across side left right) :
    right.cursor.peek.kind = left.cursor.peek.kind ∨
      side ≠ .inside ∧ gap.Stops left.cursor.peek.kind ∧ gap.AtOther right := by
  cases across with
  | @before shared before place =>
      by_cases empty : shared = []
      · subst empty
        exact .inr ⟨fun inside => place inside rfl, .inl before.peek_left, before.atOther⟩
      · exact .inl (congrArg Token.kind (before.peek empty))
  | behind semicolon parsers => exact .inl parsers.cursor.peek.kind.symm
  | through isAmong braces through =>
      exact .inr ⟨by rw [isAmong]; nofun, through.stops, through.atOther⟩

theorem Across.kind_peek (across : gap.Across .inside left right) :
    right.cursor.peek.kind = left.cursor.peek.kind :=
  across.kind_peek_or.resolve_right fun found => found.1 rfl

theorem Across.peek_iff {side : Side} (across : gap.Across side left right) {kind : Kind}
    (away : kind.isInert = false) (notEnd : kind ≠ .endOfFile) :
    right.cursor.peek.kind = kind ↔ left.cursor.peek.kind = kind := by
  rcases across.kind_peek_or with same | ⟨-, stops, atOther⟩
  · rw [same]
  · refine iff_of_false ?_ ?_
    · rintro rfl
      rw [atOther.peek, inert_next] at away
      cases away
    · exact ne_of_stops stops (spared_of_away away notEnd)

theorem Across.kinds (across : gap.Across .inside left right) :
    right.options.maxDepth = left.options.maxDepth ∧
      (right.cursor.kinds = left.cursor.kinds ∨
        ∃ shared behind others, shared ≠ [] ∧
          left.cursor.kinds = shared ++ .symbol gap.sign :: behind ∧
          right.cursor.kinds = shared ++ gap.next.kind :: others ∧
          (gap.IsBraces → ∀ kind ∈ behind, kind = .symbol .rightBrace)) := by
  cases across with
  | @before shared before place =>
      obtain ⟨slot, missing, isMissing⟩ := List.exists_cons_of_ne_nil gap.someMissing
      obtain ⟨first, others, isOther, -⟩ := gap.inert
      refine ⟨congrArg Options.maxDepth before.joined.options, .inr ⟨
        shared.map fun slot => slot.token.kind,
        (missing ++ gap.behind).map fun slot => slot.token.kind,
        others.map fun slot => slot.token.kind, ?_, ?_, ?_, ?_⟩⟩
      · exact fun empty => place rfl (List.map_eq_nil_iff.mp empty)
      · rw [before.joined.kinds, Omission.seam, isMissing, List.cons_append, List.map_cons,
          gap.signs slot (isMissing ▸ List.mem_cons_self)]
      · rw [before.joined.otherKinds, Omission.next, Seam.first, Omission.seam, isOther,
          List.map_cons]
        rfl
      · intro braces kind member
        rw [braces.nothing, List.append_nil] at member
        obtain ⟨other, inside, rfl⟩ := List.mem_map.mp member
        rw [gap.signs other (isMissing ▸ List.mem_cons_of_mem slot inside), braces.isSign]
  | behind semicolon parsers =>
      exact ⟨parsers.maxDepth.symm, .inl parsers.cursor.kinds.symm⟩
  | through isAmong => cases isAmong

/-- The second tokens are of one kind, or they stand behind the last shared one. -/
theorem Across.second (across : gap.Across .inside left right) :
    (right.cursor.peekNth 1).kind = (left.cursor.peekNth 1).kind ∨
      (left.cursor.peekNth 1).kind = .symbol gap.sign ∧
        (right.cursor.peekNth 1).kind = gap.next.kind := by
  simp only [Cursor.kind_peekNth]
  rcases across.kinds.2 with same | ⟨shared, behind, others, more, isLeft, isRight, -⟩
  · rw [same]
    exact .inl rfl
  · rw [isLeft, isRight]
    match shared with
    | [] => exact absurd rfl more
    | [_] => exact .inr ⟨rfl, rfl⟩
    | _ :: _ :: _ => exact .inl rfl

/-- Where the left side does not stand among missing braces, a token is shared or both sides are
behind the gap, or the left side stands before what is missing. -/
theorem Across.inside_or {side : Side} (across : gap.Across side left right)
    (closed : side ≠ .among ∨ ¬gap.IsBraces) :
    gap.Across .inside left right ∨ left.cursor.peek.kind = .symbol gap.sign := by
  cases across with
  | @before shared before place =>
      by_cases empty : shared = []
      · subst empty
        exact .inr before.peek_left
      · exact .inl (.before before fun _ => empty)
  | behind semicolon parsers => exact .inl (.behind semicolon parsers)
  | through isAmong braces =>
      exact (closed.elim (absurd isAmong) (absurd braces))

/-- A place is known more exactly than it need be. -/
theorem Across.weaken {side other : Side} [widens : other.Widens side]
    (across : gap.Across side left right) : gap.Across other left right := by
  cases across with
  | before before place =>
      rcases widens.wider with rfl | rfl | rfl
      · exact .before before fun _ => place rfl
      · exact .before before nofun
      · exact .before before place
  | behind semicolon parsers => exact .behind semicolon parsers
  | through isAmong braces through =>
      rcases widens.wider with same | same | same
      · cases isAmong.symm.trans same
      · exact .through same braces through
      · exact .through (same.symm.trans isAmong) braces through

/-- At the end of its tokens the left side is past the gap. -/
theorem Before.ne_end (before : gap.Before shared left right) :
    left.cursor.peek.kind ≠ .endOfFile := by
  intro atEnd
  have nothing := left.cursor.peek_isEnd_iff.mp atEnd
  rw [before.joined.ahead] at nothing
  obtain ⟨slot, others, isRest, -⟩ := gap.startsInert_rest
  rw [isRest] at nothing
  exact absurd (List.append_eq_nil_iff.mp nothing).2 (List.cons_ne_nil _ _)

theorem Across.parsers_of_end {side : Side} (across : gap.Across side left right)
    (semicolon : gap.IsSemicolon) (atEnd : left.cursor.peek.kind = .endOfFile) :
    gap.matching.Parsers left right := by
  cases across with
  | before before => exact absurd atEnd before.ne_end
  | behind semicolon parsers => exact parsers
  | through isAmong braces => exact absurd braces (not_isBraces_of_isSemicolon semicolon)

theorem Across.through_of_end {side : Side} (across : gap.Across side left right)
    (braces : gap.IsBraces) (atEnd : left.cursor.peek.kind = .endOfFile) :
    gap.Through left right := by
  cases across with
  | before before => exact absurd atEnd before.ne_end
  | behind semicolon => exact absurd braces (not_isBraces_of_isSemicolon semicolon)
  | through isAmong braces through => exact through

/-! ### Getting across -/

theorem Before.behind (before : gap.Before [] left right) (semicolon : gap.IsSemicolon) :
    gap.matching.Parsers left.advance (right.report gap.note) := by
  have ahead : left.advance.cursor.ahead = gap.behind := by
    obtain ⟨slot, rest, isMissing⟩ := List.exists_cons_of_ne_nil gap.someMissing
    have single := semicolon.single
    rw [isMissing, List.tail_cons] at single
    change left.cursor.advance.ahead = _
    rw [Cursor.ahead_advance, before.joined.ahead, Omission.seam, isMissing, single]
    rfl
  have final : left.advance.cursor.final = gap.final :=
    left.cursor.final_advance.trans (before.final semicolon)
  refine ⟨⟨.inl fun _ _ => trivial, comments_agree _ _, ?_, ?_⟩, ?_, fun kept => ?_, fun clean => ?_⟩
  · rw [ahead, Parser.cursor_report, before.joined.other]
    exact semicolon.same
  · rw [final, Parser.cursor_report, before.joined.final]
    exact View.slots_self _ (fun _ => trivial) _
  · rw [Parser.options_report, before.joined.options]
    rfl
  · rw [show gap.matching.sieve.comments = false from gap.silent] at kept
    cases kept
  · exact before.joined.clean.report before.room gap.isError_note

theorem Before.through (before : gap.Before [] left right) (braces : gap.IsBraces) :
    gap.Through left.advance (right.report gap.note) := by
  constructor
  · change left.cursor.advance.ahead <:+ _
    rw [Cursor.ahead_advance, before.joined.ahead, Omission.seam, braces.nothing]
    simpa using List.tail_suffix gap.missing
  · rw [Parser.cursor_report, before.joined.other]
    rfl
  · rw [Parser.cursor_report, before.joined.final]
    rfl
  · rw [Parser.options_report, before.joined.options, before.options]
  · exact before.joined.clean.report before.room gap.isError_note

/-- What is missing is said only once. -/
theorem Through.advance (through : gap.Through left right) :
    gap.Through left.advance (right.report gap.note) := by
  rw [through.noted.report gap.isError_note rfl]
  refine ⟨?_, through.other, through.final, through.options, through.noted⟩
  change left.cursor.advance.ahead <:+ _
  rw [Cursor.ahead_advance]
  exact (List.tail_suffix _).trans through.ahead

end Gap

/-- A parser of which the comments have been taken, if they are to be kept. -/
def Parser.withoutComments (parser : Parser) : Parser :=
  { parser with
    cursor := { parser.cursor with
      comments := if parser.options.keepComments then [] else parser.cursor.comments } }

theorem Parser.withoutComments_eq (parser : Parser) :
    parser.withoutComments = if parser.options.keepComments
      then { parser with cursor := { parser.cursor with comments := [] } } else parser := by
  rw [withoutComments]
  split <;> rfl

theorem Step.takeComments_moves (parser : Parser) :
    ∃ comments, takeComments parser = .ok comments parser.withoutComments := by
  rw [takeComments_eq, parser.withoutComments_eq]
  split
  · exact ⟨_, rfl⟩
  · exact ⟨_, rfl⟩

/-- Which comments are taken does not matter. -/
theorem Gap.Across.withoutComments {gap : Gap} {side : Gap.Side} {left right : Parser}
    (across : gap.Across side left right) :
    gap.Across side left.withoutComments right.withoutComments := by
  cases across with
  | before before place =>
      refine .before ⟨?_, before.options, before.final⟩ place
      have same : right.options.keepComments = left.options.keepComments :=
        congrArg Options.keepComments before.joined.options
      rw [left.withoutComments_eq, right.withoutComments_eq, same]
      split
      · exact before.joined.dropComments
      · exact before.joined
  | behind semicolon parsers =>
      exact .behind semicolon (parsers.moved ⟨parsers.cursor.previous, comments_agree _ _,
        parsers.cursor.ahead, parsers.cursor.final⟩)
  | through isAmong braces through =>
      exact .through isAmong braces ⟨through.ahead, through.other, through.final, through.options,
        through.noted.moved _⟩

end ServiceLang
