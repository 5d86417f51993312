import ServiceLang.Proofs.Skipping
import ServiceLang.Tree.Placed

set_option autoImplicit false

/-! Two parses of the same tokens with different margins: the second one may allow for more
levels, and it may have its end of file elsewhere. As long as the first one is not refused a
level, both take the same course. What they read is the same, and what they report is too, but
for where the end is and for what this makes a repetition. -/

namespace ServiceLang

/-- What sets two parses of the same tokens apart. -/
structure Margins where
  /-- The levels that the first one allows. -/
  depth : Nat
  /-- How many more the second one allows. -/
  extra : Nat
  /-- Where the first one has its end of file. -/
  ends : Span
  /-- Where the second one has it. -/
  otherEnds : Span

/-! ### Where errors are met -/

/-- Whether reading may go on before a token of this kind where something has been assumed or
skipped. -/
def Kind.isLanding (kind : Kind) : Bool :=
  Step.mayFollowStatement kind || kind ∈ [.keyword .resourceKw, .keyword .actionKw]

theorem Kind.isLanding_of_startsDefinition {kind : Kind} (starts : kind.startsDefinition = true) :
    kind.isLanding = true := by
  rw [isLanding, Step.mayFollowStatement, starts, Bool.or_true, Bool.true_or, Bool.true_or]

namespace Cursor

def offset (cursor : Cursor) : Nat :=
  cursor.peek.span.start

def Rising (cursor : Cursor) : Prop :=
  ∀ first second, first < second → second ≤ cursor.remaining →
    (cursor.peekNth first).span.start < (cursor.peekNth second).span.start

/-- Before the word `native` with nothing behind it that can be native. The definition that
starts here is broken behind that word, but nothing of it is passed over. -/
def IsStray (cursor : Cursor) : Prop :=
  cursor.peek.kind = .keyword .nativeKw ∧
    (cursor.peekNth 1).kind ∉ [.keyword .functionKw, .keyword .typemapperKw]

/-- An error can be about this offset once the cursor has got here. -/
inductive Reaches (cursor : Cursor) (offset : Nat) : Prop
  | upTo (order : offset ≤ cursor.offset)
  | stray (isStray : cursor.IsStray) (next : offset = (cursor.peekNth 1).span.start)

/-- An error at this offset may have been reported when reading goes on here. -/
inductive Passed (cursor : Cursor) (offset : Nat) : Prop
  | before (order : offset < cursor.offset)
  | here (isLanding : cursor.peek.kind.isLanding = true) (same : offset = cursor.offset)
  | stray (isStray : cursor.IsStray) (next : offset = (cursor.peekNth 1).span.start)

structure Onwards (cursor later : Cursor) : Prop where
  offset : cursor.offset ≤ later.offset
  remaining : later.remaining ≤ cursor.remaining

theorem Onwards.refl (cursor : Cursor) : cursor.Onwards cursor :=
  ⟨Nat.le_refl _, Nat.le_refl _⟩

theorem Onwards.trans {cursor later last : Cursor} (here : cursor.Onwards later)
    (behind : later.Onwards last) : cursor.Onwards last :=
  ⟨Nat.le_trans here.offset behind.offset, Nat.le_trans behind.remaining here.remaining⟩

theorem Onwards.peek_isEnd {cursor later : Cursor} (onwards : cursor.Onwards later)
    (atEnd : cursor.peek.kind = .endOfFile) : later.peek.kind = .endOfFile := by
  have none := onwards.remaining
  rw [Cursor.remaining, Cursor.remaining, cursor.peek_isEnd_iff.mp atEnd] at none
  exact later.peek_isEnd_iff.mpr (List.eq_nil_of_length_eq_zero (Nat.le_zero.mp none))

theorem peekNth_advanceBy (cursor : Cursor) (count index : Nat) :
    (cursor.advanceBy count).peekNth index = cursor.peekNth (count + index) := by
  induction count generalizing cursor with
  | zero => rw [Nat.zero_add]; rfl
  | succ count ih => rw [advanceBy, ih, peekNth_advance, Nat.succ_add]

theorem peek_advanceBy (cursor : Cursor) (count : Nat) :
    (cursor.advanceBy count).peek = cursor.peekNth count := by
  rw [peek_eq_peekNth, peekNth_advanceBy, Nat.add_zero]

theorem Rising.advanceBy {cursor : Cursor} (rising : cursor.Rising) (count : Nat) :
    (cursor.advanceBy count).Rising := by
  intro first second less inside
  rw [remaining_advanceBy] at inside
  rw [peekNth_advanceBy, peekNth_advanceBy]
  exact rising _ _ (by omega) (by omega)

theorem Rising.advance {cursor : Cursor} (rising : cursor.Rising) : cursor.advance.Rising :=
  rising.advanceBy 1

theorem Rising.offset_lt {cursor : Cursor} (rising : cursor.Rising) {count : Nat}
    (some : 0 < count) (inside : count ≤ cursor.remaining) :
    cursor.offset < (cursor.advanceBy count).offset := by
  rw [offset, offset, peek_advanceBy, peek_eq_peekNth]
  exact rising 0 count some inside

theorem Rising.onwards {cursor : Cursor} (rising : cursor.Rising) {count : Nat}
    (inside : count ≤ cursor.remaining) : cursor.Onwards (cursor.advanceBy count) := by
  refine ⟨?_, by rw [remaining_advanceBy]; omega⟩
  cases count with
  | zero => exact Nat.le_refl _
  | succ count => exact Nat.le_of_lt (rising.offset_lt (Nat.succ_pos count) inside)

/-- Passing over this many tokens leads to where reading goes on, and never back to where an
error may be. -/
structure Lands (cursor : Cursor) (count : Nat) : Prop where
  inside : count ≤ cursor.remaining
  still : count = 0 → cursor.peek.kind.isLanding = true
  once : count = 1 → cursor.IsStray → (cursor.advanceBy 1).peek.kind.isLanding = true

/-- What may have been reported before some tokens are passed over may have been reported
behind them, as long as reading goes on there. -/
theorem Passed.advanceBy {cursor : Cursor} (rising : cursor.Rising) {offset count : Nat}
    (reaches : cursor.Reaches offset) (lands : cursor.Lands count) :
    (cursor.advanceBy count).Passed offset := by
  obtain ⟨inside, still, once⟩ := lands
  rcases Nat.eq_zero_or_pos count with rfl | some
  · rcases reaches with order | ⟨isStray, next⟩
    · rcases Nat.lt_or_eq_of_le order with less | same
      · exact .before less
      · exact .here (still rfl) same
    · exact .stray isStray next
  have behind := rising.offset_lt some inside
  rcases reaches with order | ⟨isStray, next⟩
  · exact .before (Nat.lt_of_le_of_lt order behind)
  rcases Nat.lt_or_eq_of_le (Nat.succ_le_of_lt some) with more | rfl
  · refine .before ?_
    rw [next, Cursor.offset, peek_advanceBy]
    exact rising 1 count more inside
  · refine .here (once rfl isStray) ?_
    rw [next, Cursor.offset, peek_advanceBy]

theorem Passed.reaches {cursor : Cursor} {offset : Nat} (passed : cursor.Passed offset) :
    cursor.Reaches offset := by
  rcases passed with less | ⟨-, same⟩ | ⟨isStray, next⟩
  · exact .upTo (Nat.le_of_lt less)
  · exact .upTo (Nat.le_of_eq same)
  · exact .stray isStray next

end Cursor

/-- Skipping inside a body stops at once only where reading can go on. -/
theorem isLanding_of_syncLength_eq_zero {point : SyncPoint} {kinds : List Kind}
    (stops : syncLength point true 0 kinds = 0) :
    (kinds.head?.getD .endOfFile).isLanding = true := by
  cases kinds with
  | nil => rfl
  | cons kind rest =>
      rw [List.head?_cons, Option.getD_some]
      rw [syncLength] at stops
      split at stops
      · cases stops
      split at stops
      · omega
      split at stops
      · rename_i brace
        rw [brace]
        rfl
      split at stops
      · rename_i starts
        exact Kind.isLanding_of_startsDefinition starts
      split at stops
      · rename_i resumes
        have resumes := resumes.2.2
        rw [SyncPoint.resumesAt, Bool.or_eq_true, Bool.or_eq_true, Bool.and_eq_true] at resumes
        rcases resumes with (starts | isWorker) | ⟨-, isMember⟩
        · rw [Kind.isLanding, Step.mayFollowStatement, starts, Bool.true_or, Bool.true_or,
            Bool.true_or]
        · rw [beq_iff_eq.mp isWorker]
          rfl
        · simp only [List.mem_cons, List.not_mem_nil, or_false, decide_eq_true_eq] at isMember
          rcases isMember with rfl | rfl | rfl <;> rfl
      · omega

/-- Skipping between definitions stops at once only where reading can go on. -/
theorem isLanding_of_definitionSyncLength_eq_zero {depth : Nat} {kinds : List Kind}
    (stops : definitionSyncLength depth kinds = 0) :
    (kinds.head?.getD .endOfFile).isLanding = true := by
  cases kinds with
  | nil => rfl
  | cons kind rest =>
      rw [List.head?_cons, Option.getD_some]
      rw [definitionSyncLength.eq_def] at stops
      dsimp only at stops
      split at stops
      · cases stops
      split at stops
      · omega
      split at stops
      · rename_i brace
        rw [brace]
        rfl
      split at stops
      · rename_i starts
        exact Kind.isLanding_of_startsDefinition starts
      split at stops
      · rename_i sign
        rw [sign.1]
        rfl
      · omega

namespace Margins

variable (margins : Margins)

/-! ### What stands for each other -/

/-- Spans that stand for each other: one and the same in front of the end, or the ends. -/
def Spans (span other : Span) : Prop :=
  other = span ∧ span.start < margins.ends.start ∨
    span = margins.ends ∧ other = margins.otherEnds

structure Says (diagnostic other : Diagnostic) : Prop where
  same : diagnostic.unplaced = other.unplaced
  spans : margins.Spans diagnostic.span other.span
  isError : diagnostic.isError = true

structure Places (left right : Cursor) : Prop where
  ahead : right.ahead = left.ahead
  previous : right.previous = left.previous
  comments : right.comments = left.comments
  finalComments : right.final.comments = left.final.comments
  ends : left.final.token.span = margins.ends
  otherEnds : right.final.token.span = margins.otherEnds
  /-- Something is ahead or has been passed over. -/
  some : left.previous = none → left.ahead ≠ []
  rising : left.Rising
  /-- The levels that only the second parse has make no difference to what looking ahead
  passes over. -/
  looks : ∀ kinds, kinds <:+ left.kinds →
    skipType? (margins.depth + margins.extra + 1) kinds = skipType? (margins.depth + 1) kinds

variable {margins}

theorem Says.otherIsError {diagnostic other : Diagnostic} (tells : margins.Says diagnostic other) :
    other.isError = true := by
  rw [← tells.isError]
  exact congrArg (fun diagnostic => diagnostic.severity == .error) tells.same.symm

theorem Says.withRecovery {diagnostic other : Diagnostic} (tells : margins.Says diagnostic other)
    (recovery : Recovery) :
    margins.Says (diagnostic.withRecovery recovery) (other.withRecovery recovery) := by
  refine ⟨?_, tells.spans, tells.isError⟩
  have same := tells.same
  simp only [Diagnostic.unplaced, Diagnostic.withRecovery, Diagnostic.mk.injEq] at same ⊢
  exact ⟨same.1, same.2.1, trivial, same.2.2.2.1, trivial⟩

theorem Spans.error {span other : Span} (spans : margins.Spans span other) (problem : Problem)
    (message : String) :
    margins.Says (.error problem span message) (.error problem other message) :=
  ⟨rfl, spans, rfl⟩

/-- Of spans that stand for each other, two start together on the right if they do on the
left. -/
theorem Spans.start_eq {span other span' other' : Span} (spans : margins.Spans span other)
    (others : margins.Spans span' other') (same : span.start = span'.start) :
    other.start = other'.start := by
  rcases spans with ⟨rfl, inside⟩ | ⟨rfl, rfl⟩ <;> rcases others with ⟨rfl, inside'⟩ | ⟨rfl, rfl⟩
  · exact same
  · omega
  · omega
  · rfl

namespace Places

variable {left right : Cursor} (places : margins.Places left right)

include places

theorem remaining : right.remaining = left.remaining := by
  rw [Cursor.remaining, Cursor.remaining, places.ahead]

theorem kinds : right.kinds = left.kinds := by
  rw [Cursor.kinds, Cursor.kinds, places.ahead]

theorem kindNth (count : Nat) : (right.peekNth count).kind = (left.peekNth count).kind := by
  rw [Cursor.kind_peekNth, Cursor.kind_peekNth, places.kinds]

theorem kind : right.peek.kind = left.peek.kind := by
  rw [Cursor.peek_eq_peekNth, Cursor.peek_eq_peekNth, places.kindNth]

theorem peekNth_eq {count : Nat} (inside : count < left.remaining) :
    right.peekNth count = left.peekNth count := by
  have here : left.ahead[count]? = .some left.ahead[count] := List.getElem?_eq_getElem inside
  rw [Cursor.peekNth, Cursor.peekNth, places.ahead, here]
  rfl

theorem peek_eq (notEnd : left.peek.kind ≠ .endOfFile) : right.peek = left.peek := by
  rw [Cursor.peek_eq_peekNth, Cursor.peek_eq_peekNth]
  exact places.peekNth_eq (left.remaining_pos notEnd)

/-- The end of file is the last token. -/
theorem span_peekNth_remaining : (left.peekNth left.remaining).span = margins.ends := by
  have behind : left.ahead[left.remaining]? = none := List.getElem?_eq_none (Nat.le_refl _)
  rw [Cursor.peekNth, behind]
  exact places.ends

theorem spans_peekNth {count : Nat} (inside : count ≤ left.remaining) :
    margins.Spans (left.peekNth count).span (right.peekNth count).span := by
  rcases Nat.lt_or_eq_of_le inside with less | rfl
  · refine .inl ⟨by rw [places.peekNth_eq less], ?_⟩
    rw [← places.span_peekNth_remaining]
    exact places.rising _ _ less (Nat.le_refl _)
  · refine .inr ⟨places.span_peekNth_remaining, ?_⟩
    have behind : right.ahead[left.remaining]? = none :=
      List.getElem?_eq_none (Nat.le_of_eq places.remaining)
    rw [Cursor.peekNth, behind]
    exact places.otherEnds

theorem spans_peek : margins.Spans left.peek.span right.peek.span := by
  rw [Cursor.peek_eq_peekNth, Cursor.peek_eq_peekNth]
  exact places.spans_peekNth (Nat.zero_le _)

theorem offset_le : left.offset ≤ margins.ends.start := by
  rcases places.spans_peek with ⟨-, less⟩ | ⟨same, -⟩
  · exact Nat.le_of_lt less
  · exact Nat.le_of_eq (congrArg Span.start same)

theorem spanFrom (start : Span) : right.spanFrom start = left.spanFrom start := by
  rw [Cursor.spanFrom, Cursor.spanFrom, places.previous]

theorem previousToken : right.previousToken = left.previousToken := by
  rw [Cursor.previousToken, Cursor.previousToken, places.previous]
  cases before : left.previous with
  | some token => rfl
  | none =>
      refine places.peek_eq fun atEnd => ?_
      exact places.some before (left.peek_isEnd_iff.mp atEnd)

theorem advance : margins.Places left.advance right.advance := by
  by_cases more : left.ahead = []
  · have still := left.advance_of_remaining_zero (List.length_eq_zero_iff.mpr more)
    have otherStill := right.advance_of_remaining_zero
      (places.remaining.trans (List.length_eq_zero_iff.mpr more))
    rw [still, otherStill]
    exact places
  have otherMore : right.ahead ≠ [] := places.ahead ▸ more
  have notEnd : left.peek.kind ≠ .endOfFile := fun atEnd => more (left.peek_isEnd_iff.mp atEnd)
  constructor
  · rw [Cursor.ahead_advance, Cursor.ahead_advance, places.ahead]
  · rw [Cursor.previous_advance _ more, Cursor.previous_advance _ otherMore, places.peek_eq notEnd]
  · rw [Cursor.comments_advance _ more, Cursor.comments_advance _ otherMore, places.ahead]
    cases left.ahead.tail.head? with
    | none => exact places.finalComments
    | some slot => rfl
  · rw [Cursor.final_advance, Cursor.final_advance, places.finalComments]
  · rw [Cursor.final_advance, places.ends]
  · rw [Cursor.final_advance, places.otherEnds]
  · rw [Cursor.previous_advance _ more]
    exact fun nothing => nomatch nothing
  · exact places.rising.advance
  · intro kinds suffix
    refine places.looks kinds (suffix.trans ?_)
    rw [Cursor.kinds, Cursor.ahead_advance, List.map_tail]
    exact List.tail_suffix _

theorem advanceBy (count : Nat) :
    margins.Places (left.advanceBy count) (right.advanceBy count) := by
  induction count generalizing left right with
  | zero => exact places
  | succ count ih => exact ih places.advance

theorem dropComments :
    margins.Places { left with comments := [] } { right with comments := [] } :=
  ⟨places.ahead, places.previous, rfl, places.finalComments, places.ends, places.otherEnds,
    places.some, places.rising, places.looks⟩

variable {start other : Cursor} (starts : margins.Places start other)

include starts

theorem advanceIfStill :
    margins.Places (left.advanceIfStill start) (right.advanceIfStill other) := by
  rw [Cursor.advanceIfStill, Cursor.advanceIfStill, places.remaining, starts.remaining]
  split
  · exact places.advance
  · exact places

theorem sync (point : SyncPoint) :
    margins.Places (left.sync start point) (right.sync other point) := by
  rw [Cursor.sync, Cursor.sync, places.remaining, starts.remaining, places.kinds]
  exact places.advanceBy _

theorem syncDefinition :
    margins.Places (left.syncDefinition start) (right.syncDefinition other) := by
  have still := places.advanceIfStill starts
  rw [Cursor.syncDefinition, Cursor.syncDefinition, Cursor.consumedSince, Cursor.consumedSince,
    places.remaining, starts.remaining, starts.ahead, still.kinds]
  exact still.advanceBy _

theorem spanSince (moved : left.remaining < start.remaining) :
    right.spanSince other = left.spanSince start := by
  have more : start.peek.kind ≠ .endOfFile := by
    intro atEnd
    rw [Cursor.remaining, Cursor.remaining, start.peek_isEnd_iff.mp atEnd] at moved
    exact Nat.not_lt_zero _ moved
  rw [Cursor.spanSince, Cursor.spanSince, places.remaining, starts.remaining,
    if_neg (Nat.ne_of_lt moved), if_neg (Nat.ne_of_lt moved), starts.peek_eq more,
    places.previousToken]

end Places

/-! ### What has been reported -/

variable (margins)

/-- The diagnostics of two parses. Each one of the first has one that stands for it on the
right, unless the place of that one has an error already. -/
inductive Kept : List Diagnostic → List Diagnostic → Prop
  | nil : Kept [] []
  | both {entries others : List Diagnostic} {diagnostic other : Diagnostic}
      (kept : Kept entries others) (tells : margins.Says diagnostic other)
      (isNew : ∀ entry ∈ entries, entry.span.start ≠ diagnostic.span.start)
      (otherIsNew : ∀ entry ∈ others, entry.span.start ≠ other.span.start) :
      Kept (entries ++ [diagnostic]) (others ++ [other])
  | first {entries others : List Diagnostic} {diagnostic other : Diagnostic}
      (kept : Kept entries others) (tells : margins.Says diagnostic other)
      (isNew : ∀ entry ∈ entries, entry.span.start ≠ diagnostic.span.start)
      (repeated : ∃ entry ∈ others, entry.span.start = other.span.start) :
      Kept (entries ++ [diagnostic]) others

/-- Parsers without a limit on errors, which remember where the errors are that they have
reported, and have reported what stands for each other. -/
structure Records (left right : Parser) : Prop where
  unlimited : left.Unlimited
  otherUnlimited : right.Unlimited
  offsets : ∀ offset, offset ∈ left.reportedAt ↔
    ∃ entry ∈ left.diagnostics.entries, entry.span.start = offset
  otherOffsets : ∀ offset, offset ∈ right.reportedAt ↔
    ∃ entry ∈ right.diagnostics.entries, entry.span.start = offset
  kept : margins.Kept left.diagnostics.entries right.diagnostics.entries

variable {margins}

/-- Where the first parse has an error, the second one has one at the offset that stands for
this one. -/
theorem Kept.exists_entry {entries others : List Diagnostic} (kept : margins.Kept entries others)
    {entry : Diagnostic} (member : entry ∈ entries) :
    ∃ span, margins.Spans entry.span span ∧ ∃ found ∈ others, found.span.start = span.start := by
  induction kept with
  | nil => cases member
  | both _ tells _ _ ih =>
      rcases List.mem_append.mp member with earlier | here
      · obtain ⟨span, spans, found, among, same⟩ := ih earlier
        exact ⟨span, spans, found, List.mem_append_left _ among, same⟩
      · rw [List.mem_singleton.mp here]
        exact ⟨_, tells.spans, _, List.mem_append_right _ List.mem_cons_self, rfl⟩
  | first _ tells _ repeated ih =>
      rcases List.mem_append.mp member with earlier | here
      · exact ih earlier
      · rw [List.mem_singleton.mp here]
        exact ⟨_, tells.spans, repeated⟩

theorem offsets_push {parser : Parser} {diagnostic : Diagnostic}
    (offsets : ∀ offset, offset ∈ parser.reportedAt ↔
      ∃ entry ∈ parser.diagnostics.entries, entry.span.start = offset)
    (isError : diagnostic.isError = true) (offset : Nat) :
    offset ∈ parser.offsetsWith diagnostic ↔
      ∃ entry ∈ (parser.diagnostics.push diagnostic).entries, entry.span.start = offset := by
  rw [Parser.mem_offsetsWith, offsets, and_iff_right isError, Report.push]
  constructor
  · rintro (rfl | ⟨entry, member, same⟩)
    · exact ⟨diagnostic, List.mem_append_right _ List.mem_cons_self, rfl⟩
    · exact ⟨entry, List.mem_append_left _ member, same⟩
  · rintro ⟨entry, member, same⟩
    rcases List.mem_append.mp member with earlier | here
    · exact .inr ⟨entry, earlier, same⟩
    · rw [List.mem_singleton.mp here] at same
      exact .inl same.symm

/-- Both parses drop an error, or the first one takes it in. -/
theorem Records.report {left right : Parser} (records : margins.Records left right)
    {diagnostic other : Diagnostic} (tells : margins.Says diagnostic other) :
    margins.Records (left.report diagnostic) (right.report other) := by
  obtain ⟨unlimited, otherUnlimited, offsets, otherOffsets, kept⟩ := records
  by_cases repeated : left.Repeats diagnostic
  · obtain ⟨entry, member, same⟩ := (offsets _).mp repeated.2
    obtain ⟨span, spans, found, among, start⟩ := kept.exists_entry member
    have otherRepeated : right.Repeats other :=
      ⟨tells.otherIsError,
        (otherOffsets _).mpr ⟨found, among, start.trans (spans.start_eq tells.spans same)⟩⟩
    rw [Parser.report_of_repeats repeated, Parser.report_of_repeats otherRepeated]
    exact ⟨unlimited, otherUnlimited, offsets, otherOffsets, kept⟩
  have isNew : ∀ entry ∈ left.diagnostics.entries,
      entry.span.start ≠ diagnostic.span.start := by
    intro entry member same
    exact repeated ⟨tells.isError, (offsets _).mpr ⟨entry, member, same⟩⟩
  rw [unlimited.report repeated]
  by_cases otherRepeated : right.Repeats other
  · rw [Parser.report_of_repeats otherRepeated]
    exact ⟨⟨unlimited.below, unlimited.noLimit⟩, otherUnlimited,
      offsets_push offsets tells.isError, otherOffsets,
      .first kept tells isNew ((otherOffsets _).mp otherRepeated.2)⟩
  · rw [otherUnlimited.report otherRepeated]
    refine ⟨⟨unlimited.below, unlimited.noLimit⟩,
      ⟨otherUnlimited.below, otherUnlimited.noLimit⟩, offsets_push offsets tells.isError,
      offsets_push otherOffsets tells.otherIsError, .both kept tells isNew ?_⟩
    intro entry member same
    exact otherRepeated ⟨tells.otherIsError, (otherOffsets _).mpr ⟨entry, member, same⟩⟩

end Margins

/-! ### Parsers -/

/-- What may have been reported where a parser stands: nothing at the current token or behind
it, or only what may have been where reading goes on. -/
inductive Footing where
  | firm
  | loose

namespace Parser

def On (parser : Parser) : Footing → Prop
  | .firm => ∀ offset ∈ parser.reportedAt, offset < parser.cursor.offset
  | .loose => ∀ offset ∈ parser.reportedAt, parser.cursor.Passed offset

/-- The limit on nesting has been reported. -/
def HasRefusal (parser : Parser) : Prop :=
  ∃ entry ∈ parser.diagnostics.entries, entry.problem = .nestingTooDeep

variable {parser : Parser} {footing : Footing}

theorem On.loosen (on : parser.On footing) : parser.On .loose := by
  cases footing with
  | firm => exact fun offset member => .before (on offset member)
  | loose => exact on

/-- Where no reading would go on, nothing has been reported. -/
theorem On.firm_of_kind (on : parser.On footing)
    (flies : parser.cursor.peek.kind.isLanding = false) : parser.On .firm := by
  intro offset member
  rcases on.loosen offset member with less | ⟨isLanding, -⟩ | ⟨⟨isNative, -⟩, -⟩
  · exact less
  · rw [flies] at isLanding
    cases isLanding
  · rw [isNative] at flies
    cases flies

/-- Behind a token nothing has been reported, unless a definition has been broken there. -/
theorem On.advance (on : parser.On footing) (rising : parser.cursor.Rising)
    (more : parser.cursor.peek.kind ≠ .endOfFile) (known : ¬parser.cursor.IsStray) :
    parser.advance.On .firm := by
  intro offset member
  have behind : parser.cursor.offset < parser.cursor.advance.offset :=
    rising.offset_lt Nat.one_pos (parser.cursor.remaining_pos more)
  rcases on.loosen offset member with less | ⟨-, same⟩ | ⟨isStray, -⟩
  · exact Nat.lt_trans less behind
  · exact Nat.lt_of_le_of_lt (Nat.le_of_eq same) behind
  · exact absurd isStray known

theorem mem_reportedAt_report (diagnostic : Diagnostic) {offset : Nat}
    (unlimited : parser.Unlimited) (member : offset ∈ (parser.report diagnostic).reportedAt) :
    offset = diagnostic.span.start ∨ offset ∈ parser.reportedAt := by
  by_cases repeated : parser.Repeats diagnostic
  · rw [report_of_repeats repeated] at member
    exact .inr member
  · rw [unlimited.report repeated] at member
    exact ((mem_offsetsWith _ _ _).mp member).imp_left And.right

theorem On.report (on : parser.On .loose) (unlimited : parser.Unlimited) {diagnostic : Diagnostic}
    (passed : parser.cursor.Passed diagnostic.span.start) :
    (parser.report diagnostic).On .loose := by
  intro offset member
  rw [cursor_report]
  rcases mem_reportedAt_report diagnostic unlimited member with rfl | earlier
  · exact passed
  · exact on offset earlier

theorem HasRefusal.report (refusal : parser.HasRefusal) (diagnostic : Diagnostic) :
    (parser.report diagnostic).HasRefusal := by
  obtain ⟨entry, member, problem⟩ := refusal
  rcases parser.report_cases diagnostic with ⟨same, -⟩ | ⟨added, entries⟩
  · rw [same]
    exact ⟨entry, member, problem⟩
  · refine ⟨entry, ?_, problem⟩
    rw [entries]
    exact List.mem_append_left _ member

theorem hasRefusal_report (unlimited : parser.Unlimited) {diagnostic : Diagnostic}
    (isNew : ¬parser.Repeats diagnostic) (refusal : diagnostic.problem = .nestingTooDeep) :
    (parser.report diagnostic).HasRefusal := by
  rw [unlimited.report isNew]
  exact ⟨diagnostic, List.mem_append_right _ List.mem_cons_self, refusal⟩

end Parser

structure Margins.Twins (margins : Margins) (left right : Parser) : Prop where
  places : margins.Places left.cursor right.cursor
  records : margins.Records left right
  maxDepth : left.options.maxDepth = margins.depth
  otherMaxDepth : right.options.maxDepth = margins.depth + margins.extra
  keepComments : right.options.keepComments = left.options.keepComments

namespace Margins.Twins

variable {margins : Margins} {left right : Parser} (twins : margins.Twins left right)

include twins

theorem moved {place other : Cursor} (places : margins.Places place other) :
    margins.Twins { left with cursor := place } { right with cursor := other } :=
  ⟨places, ⟨⟨twins.records.unlimited.below, twins.records.unlimited.noLimit⟩,
    ⟨twins.records.otherUnlimited.below, twins.records.otherUnlimited.noLimit⟩,
    twins.records.offsets, twins.records.otherOffsets, twins.records.kept⟩,
    twins.maxDepth, twins.otherMaxDepth, twins.keepComments⟩

theorem report {diagnostic other : Diagnostic} (tells : margins.Says diagnostic other) :
    margins.Twins (left.report diagnostic) (right.report other) := by
  refine ⟨?_, twins.records.report tells, ?_, ?_, ?_⟩
  · rw [Parser.cursor_report, Parser.cursor_report]
    exact twins.places
  · rw [Parser.options_report, twins.maxDepth]
  · rw [Parser.options_report, twins.otherMaxDepth]
  · rw [Parser.options_report, Parser.options_report, twins.keepComments]

theorem startsVarDef :
    startsVarDef (right.options.maxDepth + 1) right.cursor.kinds =
      ServiceLang.startsVarDef (left.options.maxDepth + 1) left.cursor.kinds := by
  rw [ServiceLang.startsVarDef, ServiceLang.startsVarDef, twins.otherMaxDepth, twins.maxDepth,
    twins.places.kinds, twins.places.looks _ (List.suffix_refl _)]

theorem startsCast :
    startsCast (right.options.maxDepth + 1) right.cursor.kinds =
      ServiceLang.startsCast (left.options.maxDepth + 1) left.cursor.kinds := by
  rw [twins.otherMaxDepth, twins.maxDepth, twins.places.kinds]
  unfold ServiceLang.startsCast
  split
  · rename_i inside same
    rw [twins.places.looks inside (same ▸ List.suffix_cons _ _)]
  · rfl

end Margins.Twins

end ServiceLang
