import ServiceLang.Proofs.Looking
import ServiceLang.Proofs.Orderly
import ServiceLang.Proofs.Quiet
import ServiceLang.Proofs.Skipping

set_option autoImplicit false

/-! Reading the same tokens with different ones behind them. A step that nothing goes
wrong in, and that leaves a token of those that are shared, does not notice what stands
behind them; one that ends with a closing token may use them up. Where nothing goes on at
what stands behind on either side, a type or an expression may end there as well. -/

namespace ServiceLang

/-- What stands behind shared tokens: the rest of the one list, and the rest and the end of
the other. -/
structure Seam where
  rest : List Slot
  other : List Slot
  final : Slot

def StartsInert (slots : List Slot) : Prop :=
  ∃ slot others, slots = slot :: others ∧ slot.token.kind.isInert = true

/-- The kinds that no word in front of them looks for. -/
def Kind.isUnsought (kind : Kind) : Bool :=
  kind ∈ [.symbol .semicolon, .symbol .atSign, .keyword .nativeKw]

theorem Kind.endsShape_of_isUnsought {kind : Kind} (unsought : kind.isUnsought = true) :
    kind.endsShape = true := by
  simp only [isUnsought, List.mem_cons, List.not_mem_nil, or_false, decide_eq_true_eq] at unsought
  rcases unsought with rfl | rfl | rfl <;> rfl

/-- Nothing goes on at the seam, as far as such a seam is `reach`ed at all. -/
def Seam.IsSoft (seam : Seam) (reach : Prop) : Prop :=
  reach ∧ StartsInert seam.rest ∧ StartsInert seam.other

def StartsUnsought (slots : List Slot) : Prop :=
  ∃ slot others, slots = slot :: others ∧ slot.token.kind.isUnsought = true

/-- No word in front of the seam looks for what stands at it. -/
structure Seam.IsApart (seam : Seam) : Prop where
  rest : StartsUnsought seam.rest
  other : StartsUnsought seam.other

/-- Two parsers stand before the same shared tokens, and then before what the seam says.
Unless the seam is soft or apart, the last shared token ends a definition. -/
structure Parser.Joined (reach : Prop) (seam : Seam) (shared : List Slot) (left right : Parser) :
    Prop where
  options : right.options = left.options
  depth : right.depth = left.depth
  previous : right.cursor.previous = left.cursor.previous
  comments : shared ≠ [] → right.cursor.comments = left.cursor.comments
  ahead : left.cursor.ahead = shared ++ seam.rest
  other : right.cursor.ahead = shared ++ seam.other
  final : right.cursor.final = seam.final
  edge : (seam.IsSoft reach ∨ seam.IsApart) ∨
    ∀ slot, [slot] <:+ shared → slot.token.kind.endsDefinition
  clean : right.Clean

theorem Parser.Clean.moved {parser : Parser} (clean : parser.Clean) (cursor : Cursor) :
    { parser with cursor := cursor }.Clean :=
  (clean_moved cursor).mpr clean

theorem Parser.clean_of_advance {parser : Parser} (clean : parser.advance.Clean) :
    parser.Clean :=
  (clean_moved _).mp clean

namespace StartsInert

variable {slots : List Slot} (inert : StartsInert slots)

include inert

theorem kinds : ∃ kind others, slots.map (fun slot => slot.token.kind) = kind :: others ∧
    kind.isInert = true := by
  obtain ⟨slot, others, rfl, isInert⟩ := inert
  exact ⟨_, _, rfl, isInert⟩

end StartsInert

theorem StartsUnsought.kinds {slots : List Slot} (unsought : StartsUnsought slots) :
    ∃ kind others, slots.map (fun slot => slot.token.kind) = kind :: others ∧
      kind.isUnsought = true := by
  obtain ⟨slot, others, rfl, isUnsought⟩ := unsought
  exact ⟨_, _, rfl, isUnsought⟩

/-- At a soft seam, and at one that is apart, every shape ends. -/
theorem Seam.endsShape {seam : Seam} {reach : Prop} (edge : seam.IsSoft reach ∨ seam.IsApart) :
    ∃ left behindLeft right behindRight,
      seam.rest.map (fun slot => slot.token.kind) = left :: behindLeft ∧
      seam.other.map (fun slot => slot.token.kind) = right :: behindRight ∧
      left.endsShape = true ∧ right.endsShape = true := by
  rcases edge with soft | apart
  · obtain ⟨left, behindLeft, isRest, leftInert⟩ := soft.2.1.kinds
    obtain ⟨right, behindRight, isOther, rightInert⟩ := soft.2.2.kinds
    exact ⟨left, behindLeft, right, behindRight, isRest, isOther,
      Kind.endsShape_of_isInert leftInert, Kind.endsShape_of_isInert rightInert⟩
  · obtain ⟨left, behindLeft, isRest, leftUnsought⟩ := apart.rest.kinds
    obtain ⟨right, behindRight, isOther, rightUnsought⟩ := apart.other.kinds
    exact ⟨left, behindLeft, right, behindRight, isRest, isOther,
      Kind.endsShape_of_isUnsought leftUnsought, Kind.endsShape_of_isUnsought rightUnsought⟩

theorem Cursor.kind_peek_of_startsInert {cursor : Cursor} {slots : List Slot}
    (ahead : cursor.ahead = slots) (inert : StartsInert slots) :
    cursor.peek.kind.isInert = true := by
  obtain ⟨slot, others, rfl, isInert⟩ := inert
  rw [Cursor.peek, ahead]
  exact isInert

namespace Parser.Joined

variable {reach : Prop} {seam : Seam} {shared : List Slot} {left right : Parser}
  (joined : left.Joined reach seam shared right)

include joined

/-- What holds at the seam may be said in another way. -/
theorem atEdge {other : Prop} (edge : (seam.IsSoft other ∨ seam.IsApart) ∨
    ∀ slot, [slot] <:+ shared → slot.token.kind.endsDefinition) :
    left.Joined other seam shared right :=
  ⟨joined.options, joined.depth, joined.previous, joined.comments, joined.ahead, joined.other, joined.final, edge,
    joined.clean⟩

theorem ne_nil (more : shared ≠ []) : left.cursor.ahead ≠ [] := by
  rw [joined.ahead]
  exact List.append_ne_nil_of_left_ne_nil more _

theorem peek (more : shared ≠ []) : right.cursor.peek = left.cursor.peek := by
  obtain ⟨slot, rest, rfl⟩ := List.exists_cons_of_ne_nil more
  rw [Cursor.peek, Cursor.peek, joined.ahead, joined.other]
  rfl

theorem inert_peek (empty : shared = []) (soft : seam.IsSoft reach) :
    left.cursor.peek.kind.isInert = true ∧ right.cursor.peek.kind.isInert = true := by
  subst empty
  exact ⟨Cursor.kind_peek_of_startsInert joined.ahead soft.2.1,
    Cursor.kind_peek_of_startsInert joined.other soft.2.2⟩

theorem kinds : left.cursor.kinds =
    shared.map (fun slot => slot.token.kind) ++ seam.rest.map (fun slot => slot.token.kind) := by
  rw [Cursor.kinds, joined.ahead, List.map_append]

theorem otherKinds : right.cursor.kinds =
    shared.map (fun slot => slot.token.kind) ++ seam.other.map (fun slot => slot.token.kind) := by
  rw [Cursor.kinds, joined.other, List.map_append]

theorem remaining : left.cursor.remaining = shared.length + seam.rest.length := by
  rw [Cursor.remaining, joined.ahead, List.length_append]

theorem otherRemaining : right.cursor.remaining = shared.length + seam.other.length := by
  rw [Cursor.remaining, joined.other, List.length_append]

/-- The second token is the same too, unless nothing goes on at it or nothing looks for it on
either side, or the first one ends a definition. -/
theorem second (more : shared ≠ []) :
    (right.cursor.peekNth 1).kind = (left.cursor.peekNth 1).kind ∨
      (reach ∧ (left.cursor.peekNth 1).kind.isInert = true ∧
        (right.cursor.peekNth 1).kind.isInert = true) ∨
      ((left.cursor.peekNth 1).kind.isUnsought = true ∧
        (right.cursor.peekNth 1).kind.isUnsought = true) ∨
      left.cursor.peek.kind.endsDefinition := by
  match shared with
  | [] => exact absurd rfl more
  | [slot] =>
      have isPeek : left.cursor.peek = slot.token := by
        rw [Cursor.peek, joined.ahead]
        rfl
      rcases joined.edge with (soft | apart) | ended
      · obtain ⟨first, others, isRest, isInert⟩ := soft.2.1
        obtain ⟨second, others, isOther, otherIsInert⟩ := soft.2.2
        right; left
        rw [Cursor.peekNth, Cursor.peekNth, joined.ahead, joined.other, isRest, isOther]
        exact ⟨soft.1, isInert, otherIsInert⟩
      · obtain ⟨first, others, isRest, isUnsought⟩ := apart.rest
        obtain ⟨second, others, isOther, otherIsUnsought⟩ := apart.other
        right; right; left
        rw [Cursor.peekNth, Cursor.peekNth, joined.ahead, joined.other, isRest, isOther]
        exact ⟨isUnsought, otherIsUnsought⟩
      · right; right; right
        rw [isPeek]
        exact ended slot (List.suffix_refl _)
  | first :: second :: rest =>
      left
      rw [Cursor.peekNth, Cursor.peekNth, joined.ahead, joined.other]
      rfl

theorem spanFrom (start : Span) : right.cursor.spanFrom start = left.cursor.spanFrom start := by
  rw [Cursor.spanFrom, Cursor.spanFrom, joined.previous]

theorem advance {slot : Slot} {rest : List Slot} (split : shared = slot :: rest) :
    left.advance.Joined reach seam rest right.advance := by
  subst split
  have moreLeft : left.cursor.ahead ≠ [] := joined.ne_nil (List.cons_ne_nil _ _)
  have moreRight : right.cursor.ahead ≠ [] := by
    rw [joined.other]
    exact List.append_ne_nil_of_left_ne_nil (List.cons_ne_nil _ _) _
  have aheadLeft : left.cursor.ahead.tail = rest ++ seam.rest := by
    rw [joined.ahead]
    rfl
  have aheadRight : right.cursor.ahead.tail = rest ++ seam.other := by
    rw [joined.other]
    rfl
  constructor
  · exact joined.options
  · exact joined.depth
  · change right.cursor.advance.previous = left.cursor.advance.previous
    rw [Cursor.previous_advance _ moreRight, Cursor.previous_advance _ moreLeft,
      joined.peek (List.cons_ne_nil _ _)]
  · intro moreBehind
    obtain ⟨next, others, rfl⟩ := List.exists_cons_of_ne_nil moreBehind
    change right.cursor.advance.comments = left.cursor.advance.comments
    rw [Cursor.comments_advance _ moreRight, Cursor.comments_advance _ moreLeft, aheadLeft,
      aheadRight]
    rfl
  · exact left.cursor.ahead_advance.trans aheadLeft
  · exact right.cursor.ahead_advance.trans aheadRight
  · exact right.cursor.final_advance.trans joined.final
  · refine joined.edge.imp_right fun ended last isLast => ended last ?_
    exact isLast.trans (List.suffix_cons slot rest)
  · exact joined.clean.moved _

theorem dropComments : { left with cursor := { left.cursor with comments := [] } }.Joined reach seam
    shared { right with cursor := { right.cursor with comments := [] } } :=
  ⟨joined.options, joined.depth, joined.previous, fun _ => rfl, joined.ahead, joined.other, joined.final,
    joined.edge, joined.clean.moved _⟩

end Parser.Joined

namespace Step

variable {α β σ : Type}

/-- The tokens that a step has passed over: no semicolon is among them where soft seams are
reached, and a step that closes has passed over a closing symbol last. -/
structure Passed (reach : Prop) (closing : Option (List Symbol)) (front : List Slot) : Prop where
  spared : reach → ∀ slot ∈ front, slot.token.kind ≠ .symbol .semicolon
  closed : ∀ signs, closing = some signs →
    ∃ slot, [slot] <:+ front ∧ ∃ sign ∈ signs, slot.token.kind = .symbol sign

/-- Whether a step that has left these shared tokens has not looked beyond them. -/
def Lands (reach : Prop) (closing : Option (List Symbol)) (seam : Seam) (left : List Slot) : Prop :=
  left = [] → closing.isSome = true ∨ seam.IsSoft reach

/-- How a step that gave a value came to it: nothing had been reported before, and some
tokens were passed over. The same is read with others behind, where the step `Lands`. A step
that is only known `inside` may not start at the seam. -/
structure Carried (reach inside : Prop) (closing : Option (List Symbol)) (step : Step α)
    (parser : Parser) (value : α) (later : Parser) : Prop where
  clean : parser.Clean
  passed : ∃ front, parser.cursor.ahead = front ++ later.cursor.ahead ∧
    Passed reach closing front
  again : ∀ (seam : Seam) (shared left : List Slot) (right : Parser),
    parser.Joined reach seam shared right → (inside → shared ≠ []) →
    later.cursor.ahead = left ++ seam.rest → Lands reach closing seam left →
    ∃ last, step right = .ok value last ∧ later.Joined reach seam left last

/-- A step that reads the same with other tokens behind, as long as nothing is reported. -/
def StableFrom (reach inside : Prop) (closing : Option (List Symbol)) (step : Step α) : Prop :=
  ∀ ⦃parser later : Parser⦄ ⦃value : α⦄, step parser = .ok value later → later.Clean →
    Carried reach inside closing step parser value later

abbrev Stable (reach : Prop) (closing : Option (List Symbol)) (step : Step α) : Prop :=
  StableFrom reach False closing step

abbrev StableInside (reach : Prop) (closing : Option (List Symbol)) (step : Step α) : Prop :=
  StableFrom reach True closing step

def Stays (reach : Prop) (step : Step α) : Prop :=
  ∀ parser, ∃ value, step parser = .ok value parser ∧
    ∀ (seam : Seam) (shared : List Slot) (right : Parser),
      parser.Joined reach seam shared right → step right = .ok value right

namespace Stays

variable {reach : Prop}

theorem pure (value : α) : Stays reach (Pure.pure value : Step α) :=
  fun _ => ⟨value, rfl, fun _ _ _ _ => rfl⟩

theorem spanFrom (start : Span) : Stays reach (Step.spanFrom start) := by
  intro parser
  refine ⟨_, spanFrom_eq parser start, fun seam shared right joined => ?_⟩
  rw [spanFrom_eq, joined.spanFrom]

theorem bind {first : Step α} {next : α → Step β} (here : Stays reach first)
    (onwards : ∀ value, Stays reach (next value)) : Stays reach (first >>= next) := by
  intro parser
  obtain ⟨value, ran, again⟩ := here parser
  obtain ⟨result, ranNext, againNext⟩ := onwards value parser
  refine ⟨result, (look_bind ran).trans ranNext, fun seam shared right joined => ?_⟩
  exact (look_bind (again seam shared right joined)).trans (againNext seam shared right joined)

/-- A value made with the span from a start to here. -/
theorem spanned (start : Span) (make : Span → α) :
    Stays reach (do return make (← Step.spanFrom start)) :=
  (spanFrom start).bind fun _ => pure _

end Stays

/-! ### What is passed over -/

section Passing

variable {reach : Prop} {closing other : Option (List Symbol)} {front behind : List Slot}

theorem Passed.nothing : Passed reach none ([] : List Slot) :=
  ⟨fun _ _ => nofun, nofun⟩

theorem Passed.opened (passed : Passed reach closing front) : Passed reach none front :=
  ⟨passed.spared, nofun⟩

theorem Passed.append (first : Passed reach other front) (next : Passed reach closing behind) :
    Passed reach closing (front ++ behind) := by
  constructor
  · intro reaches slot member
    rcases List.mem_append.mp member with member | member
    · exact first.spared reaches slot member
    · exact next.spared reaches slot member
  · intro signs isSome
    obtain ⟨slot, isLast, closes⟩ := next.closed signs isSome
    exact ⟨slot, isLast.trans (List.suffix_append front behind), closes⟩

theorem Passed.ne_nil (passed : Passed reach closing front) (closes : closing.isSome = true) :
    front ≠ [] := by
  obtain ⟨signs, isSome⟩ := Option.isSome_iff_exists.mp closes
  obtain ⟨slot, isLast, -⟩ := passed.closed signs isSome
  rintro rfl
  exact absurd (List.suffix_nil.mp isLast) (List.cons_ne_nil _ _)

theorem Lands.before {seam : Seam} {left : List Slot} (lands : Lands reach closing seam left)
    (passed : Passed reach closing front) : Lands reach other seam (front ++ left) := by
  intro empty
  obtain ⟨noFront, noLeft⟩ := List.append_eq_nil_iff.mp empty
  refine .inr ((lands noLeft).resolve_left fun closes => ?_)
  exact passed.ne_nil closes noFront

end Passing

namespace Carried

variable {reach inside : Prop} {closing : Option (List Symbol)} {step : Step α}
  {parser later : Parser} {value : α}
  (carried : Carried reach inside closing step parser value later)

include carried

theorem suffix : later.cursor.ahead <:+ parser.cursor.ahead := by
  obtain ⟨front, split, -⟩ := carried.passed
  exact ⟨front, split.symm⟩

omit carried in
/-- The shared tokens are those that have been passed over and those that are left. -/
theorem shared_eq {seam : Seam} {shared left : List Slot} {right : Parser} {front : List Slot}
    (joined : parser.Joined reach seam shared right)
    (split : parser.cursor.ahead = front ++ later.cursor.ahead)
    (leaves : later.cursor.ahead = left ++ seam.rest) : shared = front ++ left := by
  rw [joined.ahead, leaves, ← List.append_assoc] at split
  exact List.append_cancel_right split

/-- Where a step lands that starts at the seam, the seam is soft. -/
theorem soft_of_nil {seam : Seam} {shared left : List Slot} {right : Parser}
    (joined : parser.Joined reach seam shared right)
    (leaves : later.cursor.ahead = left ++ seam.rest) (lands : Lands reach closing seam left)
    (empty : shared = []) : seam.IsSoft reach := by
  obtain ⟨front, split, passed⟩ := carried.passed
  have whole := shared_eq joined split leaves
  rw [empty] at whole
  exact (lands.before passed whole.symm : none.isSome = true ∨ _).resolve_left nofun

end Carried

namespace StableFrom

variable {reach inside : Prop} {closing other : Option (List Symbol)} {signs : List Symbol}

/-! ### Steps one after another -/

theorem of_never {step : Step α}
    (never : ∀ {parser value later}, step parser = .ok value later → ¬later.Clean) :
    StableFrom reach inside closing step :=
  fun _ _ _ ran clean => absurd clean (never ran)

theorem fail (diagnostic : Diagnostic) :
    StableFrom reach inside closing (Step.fail diagnostic : Step α) :=
  of_never fun ran => absurd ran fail_ne_ok

theorem failAt (other : Token → Diagnostic) :
    StableFrom reach inside closing (Step.failAt other : Step α) :=
  of_never fun ran => absurd ran failAt_ne_ok

theorem tooDeep : StableFrom reach inside closing (Step.tooDeep : Step α) :=
  of_never fun ran => absurd ran tooDeep_ne_ok

theorem within {step : Step α} (stable : Stable reach closing step) :
    StableFrom reach inside closing step := by
  intro parser later value ran clean
  have carried := stable ran clean
  exact ⟨carried.clean, carried.passed, fun seam shared left right joined _ =>
    carried.again seam shared left right joined nofun⟩

/-- A step that passes over a token cannot start at the seam and land there. -/
theorem strictly {step : Step α} (strict : Strict step)
    (stable : StableInside reach closing step) : Stable reach closing step := by
  intro parser later value ran clean
  have carried := stable ran clean
  refine ⟨carried.clean, carried.passed, fun seam shared left right joined _ leaves lands => ?_⟩
  refine carried.again seam shared left right joined (fun _ empty => ?_) leaves lands
  have shorter := strict ran
  rw [Cursor.remaining, Cursor.remaining, joined.ahead, leaves, empty, List.nil_append,
    List.length_append] at shorter
  omega

/-- That a step closes need not be used. -/
theorem opened {step : Step α} (stable : StableFrom reach inside closing step) :
    StableFrom reach inside none step := by
  intro parser later value ran clean
  have carried := stable ran clean
  obtain ⟨front, split, passed⟩ := carried.passed
  refine ⟨carried.clean, ⟨front, split, passed.opened⟩, ?_⟩
  intro seam shared left right joined begins leaves lands
  refine carried.again seam shared left right joined begins leaves fun empty => .inr ?_
  exact (lands empty).resolve_left nofun

theorem closedBy {others : List Symbol} {step : Step α}
    (stable : StableFrom reach inside (some signs) step) (subset : signs ⊆ others) :
    StableFrom reach inside (some others) step := by
  intro parser later value ran clean
  have carried := stable ran clean
  obtain ⟨front, split, passed⟩ := carried.passed
  refine ⟨carried.clean, ⟨front, split, passed.spared, fun _ isSome => ?_⟩, ?_⟩
  · cases isSome
    obtain ⟨slot, isLast, sign, member, isSign⟩ := passed.closed signs rfl
    exact ⟨slot, isLast, sign, subset member, isSign⟩
  · intro seam shared left right joined begins leaves _
    exact carried.again seam shared left right joined begins leaves fun _ => .inl rfl

/-- A step that still consumes something leaves something to the step after it. -/
theorem bind {first : Step α} {next : α → Step β} (here : StableFrom reach inside other first)
    (onwards : ∀ value, Stable reach closing (next value)) :
    StableFrom reach inside closing (first >>= next) := by
  intro parser later result ran clean
  obtain ⟨value, between, ranFirst, ranNext⟩ := bind_ok ran
  have behind := onwards value ranNext clean
  have before := here ranFirst behind.clean
  obtain ⟨front, split, passed⟩ := before.passed
  obtain ⟨back, splitBehind, passedBehind⟩ := behind.passed
  refine ⟨before.clean, ⟨front ++ back, ?_, passed.append passedBehind⟩, ?_⟩
  · rw [split, splitBehind, List.append_assoc]
  · intro seam shared left right joined begins leaves lands
    have leavesBetween : between.cursor.ahead = (back ++ left) ++ seam.rest := by
      rw [splitBehind, leaves, List.append_assoc]
    obtain ⟨rightBetween, ranRight, joinedBetween⟩ := before.again seam shared (back ++ left) right
      joined begins leavesBetween (lands.before passedBehind)
    obtain ⟨last, ranLast, joinedLast⟩ :=
      behind.again seam _ left rightBetween joinedBetween nofun leaves lands
    exact ⟨last, (bind_of_ok ranRight).trans ranLast, joinedLast⟩

/-- Behind a step that closes, only what has been read may be looked at. -/
theorem thenStays {first : Step α} {next : α → Step β}
    (here : StableFrom reach inside closing first) (onwards : ∀ value, Stays reach (next value)) :
    StableFrom reach inside closing (first >>= next) := by
  intro parser later result ran clean
  obtain ⟨value, between, ranFirst, ranNext⟩ := bind_ok ran
  obtain ⟨made, ranMade, again⟩ := onwards value between
  cases ranNext.symm.trans ranMade
  have carried := here ranFirst clean
  refine ⟨carried.clean, carried.passed, fun seam shared left right joined begins leaves lands => ?_⟩
  obtain ⟨last, ranRight, joinedLast⟩ :=
    carried.again seam shared left right joined begins leaves lands
  exact ⟨last, (bind_of_ok ranRight).trans (again seam left last joinedLast), joinedLast⟩

theorem mapped {step : Step α} (make : α → β) (stable : StableFrom reach inside closing step) :
    StableFrom reach inside closing (step >>= fun value => Pure.pure (make value)) :=
  stable.thenStays fun _ => .pure _

theorem spanned {step : Step α} (start : Span) (make : α → Span → β)
    (stable : StableFrom reach inside closing step) : StableFrom reach inside closing (do
      let value ← step
      return make value (← Step.spanFrom start)) :=
  stable.thenStays fun _ => .spanned _ _

theorem of_stays {step : Step α} (stays : Stays reach step) :
    StableFrom reach inside none step := by
  intro parser later value ran clean
  obtain ⟨made, ranMade, again⟩ := stays parser
  cases ran.symm.trans ranMade
  refine ⟨clean, ⟨[], rfl, .nothing⟩, fun seam shared left right joined _ leaves _ => ?_⟩
  obtain rfl : shared = left := List.append_cancel_right (joined.ahead.symm.trans leaves)
  exact ⟨right, again seam shared right joined, joined⟩

theorem pure (value : α) : StableFrom reach inside none (Pure.pure value : Step α) :=
  of_stays (.pure value)

theorem spanFrom (start : Span) : StableFrom reach inside none (Step.spanFrom start) :=
  of_stays (.spanFrom start)

theorem ite {condition : Prop} [Decidable condition] {left right : Step α}
    (onTrue : StableFrom reach inside closing left)
    (onFalse : StableFrom reach inside closing right) :
    StableFrom reach inside closing (if condition then left else right) := by
  split
  · exact onTrue
  · exact onFalse

theorem of_eq {step same : Step α} (stable : StableFrom reach inside closing same)
    (equal : ∀ parser, step parser = same parser) : StableFrom reach inside closing step := by
  obtain rfl : step = same := funext equal
  exact stable

/-! ### Looking -/

/-- A choice by what a step looks at. What is read on the side that is taken may help to
show that the same is seen with other tokens behind. -/
theorem choose {ι : Type} {step : Step α} (next : ι → Step α) (seen : Parser → ι)
    (is : ∀ parser, step parser = next (seen parser) parser)
    (same : ∀ {parser value later}, next (seen parser) parser = .ok value later → later.Clean →
      ∀ (seam : Seam) (shared left : List Slot) (right : Parser),
        parser.Joined reach seam shared right → later.cursor.ahead = left ++ seam.rest →
        Lands reach closing seam left → (shared ≠ [] ∨ ¬inside ∧ seam.IsSoft reach) →
        seen right = seen parser ∨ ∀ other, next (seen right) other = next (seen parser) other)
    (onwards : ∀ seen, StableFrom reach inside closing (next seen)) :
    StableFrom reach inside closing step := by
  intro parser later value ran clean
  rw [is] at ran
  have carried := onwards _ ran clean
  refine ⟨carried.clean, carried.passed, fun seam shared left right joined begins leaves lands => ?_⟩
  have place : shared ≠ [] ∨ ¬inside ∧ seam.IsSoft reach := by
    by_cases empty : shared = []
    · exact .inr ⟨fun isInside => begins isInside empty,
        carried.soft_of_nil joined leaves lands empty⟩
    · exact .inl empty
  obtain ⟨last, ranRight, joinedLast⟩ :=
    carried.again seam shared left right joined begins leaves lands
  refine ⟨last, ?_, joinedLast⟩
  rw [is]
  rcases same ran clean seam shared left right joined leaves lands place with seenSame | nextSame
  · rw [seenSame]
    exact ranRight
  · rw [nextSame]
    exact ranRight

theorem look {look : Step α} (seen : Parser → α)
    (looks : ∀ parser, look parser = .ok (seen parser) parser)
    (same : ∀ {seam : Seam} {shared : List Slot} {left right : Parser},
      left.Joined reach seam shared right → (shared ≠ [] ∨ ¬inside ∧ seam.IsSoft reach) →
      seen right = seen left) : StableFrom reach inside none look := by
  refine choose Pure.pure seen looks ?_ fun value => of_stays (.pure value)
  intro parser value later _ _ seam shared left right joined _ _ place
  exact .inl (same joined place)

theorem check {kind : Kind} (away : kind.isInert = false) :
    StableFrom reach inside none (Step.check kind) := by
  refine look (fun parser => parser.cursor.peek.kind == kind) (fun parser => check_eq parser kind) ?_
  intro seam shared left right joined place
  by_cases empty : shared = []
  · obtain ⟨inert, otherInert⟩ :=
      joined.inert_peek empty (place.resolve_left fun more => more empty).2
    have differs (token : Token) (isInert : token.kind.isInert = true) : token.kind ≠ kind := by
      rintro rfl
      rw [away] at isInert
      contradiction
    rw [beq_eq_false_iff_ne.mpr (differs _ inert), beq_eq_false_iff_ne.mpr (differs _ otherInert)]
  · rw [joined.peek empty]

theorem currentOr {next : Kind → Step α} (default : Step α)
    (inert : ∀ kind, kind.isInert = true → next kind = default)
    (onwards : ∀ kind, StableFrom reach inside closing (next kind)) :
    StableFrom reach inside closing (Step.current >>= next) := by
  refine choose next (fun parser => parser.cursor.peek.kind)
    (fun parser => look_bind (current_eq parser)) ?_ onwards
  intro parser value later _ _ seam shared left right joined _ _ place
  by_cases empty : shared = []
  · obtain ⟨leftInert, rightInert⟩ :=
      joined.inert_peek empty (place.resolve_left fun more => more empty).2
    exact .inr fun other => by rw [inert _ leftInert, inert _ rightInert]
  · exact .inl (by rw [joined.peek empty])

/-- A step that looks at a shape that no kind which ends shapes is a part of. -/
theorem lookAtShape {look : Step α} (shape : List Kind → α)
    (looks : ∀ parser, look parser = .ok (shape parser.cursor.kinds) parser)
    (shared : ∀ {stop : Kind}, stop.endsDefinition → ∀ {shared : List Kind}, stop ∈ shared →
      ∀ left right, shape (shared ++ left) = shape (shared ++ right))
    (edge : ∀ shared {left right : Kind}, left.endsShape = true → right.endsShape = true →
      ∀ behindLeft behindRight,
        shape (shared ++ left :: behindLeft) = shape (shared ++ right :: behindRight)) :
    StableFrom reach inside none look := by
  refine StableFrom.look (fun parser => shape parser.cursor.kinds) looks ?_
  intro seam tokens left right joined place
  have atEdge (isEdge : seam.IsSoft reach ∨ seam.IsApart) :
      shape right.cursor.kinds = shape left.cursor.kinds := by
    obtain ⟨_, _, _, _, isRest, isOther, leftEnds, rightEnds⟩ := Seam.endsShape isEdge
    rw [joined.kinds, joined.otherKinds, isRest, isOther]
    exact edge _ rightEnds leftEnds _ _
  rcases joined.edge with isEdge | ended
  · exact atEdge isEdge
  · by_cases empty : tokens = []
    · exact atEdge (.inl (place.resolve_left fun more => more empty).2)
    · have ends := ended _ ⟨_, List.dropLast_concat_getLast empty⟩
      rw [joined.kinds, joined.otherKinds]
      exact shared ends (List.mem_map.mpr ⟨_, List.getLast_mem empty, rfl⟩) _ _

/-- Where no soft seam is reached, every look sees the same. -/
theorem hardLook {look : Step α} (seen : Parser → α)
    (looks : ∀ parser, look parser = .ok (seen parser) parser)
    (same : ∀ {seam : Seam} {shared : List Slot} {left right : Parser},
      left.Joined False seam shared right → shared ≠ [] → seen right = seen left) :
    StableFrom False inside none look :=
  StableFrom.look seen looks fun joined place => same joined (place.resolve_right fun soft => soft.2.1)

theorem current : StableFrom False inside none Step.current :=
  hardLook _ current_eq fun joined more => by rw [joined.peek more]

theorem peek : StableFrom False inside none Step.peek :=
  hardLook _ peek_eq fun joined more => joined.peek more

theorem checkAny (kind : Kind) : StableFrom False inside none (Step.check kind) :=
  hardLook _ (fun parser => check_eq parser kind) fun joined more => by rw [joined.peek more]

theorem isInvocation : StableFrom reach inside none Step.isInvocation :=
  lookAtShape startsInvocation isInvocation_eq startsInvocation_shared startsInvocation_edge

theorem isJoinCondition : StableFrom reach inside none Step.isJoinCondition :=
  lookAtShape startsJoinCondition isJoinCondition_eq startsJoinCondition_shared
    startsJoinCondition_edge

theorem ofPair {first : Kind} (second : Kind → Bool) {step left right : Step α}
    (is : ∀ parser, step parser = (if parser.cursor.peek.kind == first &&
      second (parser.cursor.peekNth 1).kind then left else right) parser)
    (away : first.isInert = false)
    (awaySecond : ∀ kind, kind.endsShape = true → second kind = false)
    (onTrue : StableFrom reach inside closing left)
    (onFalse : StableFrom reach inside closing right) : StableFrom reach inside closing step := by
  refine choose (fun seen => if seen then left else right)
    (fun parser => parser.cursor.peek.kind == first && second (parser.cursor.peekNth 1).kind)
    is ?_ fun _ => ite onTrue onFalse
  intro parser value later _ _ seam shared left right joined _ _ place
  left
  by_cases empty : shared = []
  · have inert := joined.inert_peek empty (place.resolve_left fun more => more empty).2
    have differs (token : Token) (isInert : token.kind.isInert = true) : token.kind ≠ first := by
      rintro rfl
      rw [away] at isInert
      contradiction
    rw [beq_eq_false_iff_ne.mpr (differs _ inert.1), beq_eq_false_iff_ne.mpr (differs _ inert.2)]
    rfl
  · rw [joined.peek empty]
    by_cases here : parser.cursor.peek.kind = first
    · rcases joined.second empty with same | ⟨-, inert, otherInert⟩ | ⟨unsought, otherUnsought⟩ | ends
      · rw [same]
      · rw [awaySecond _ (Kind.endsShape_of_isInert inert),
          awaySecond _ (Kind.endsShape_of_isInert otherInert)]
      · rw [awaySecond _ (Kind.endsShape_of_isUnsought unsought),
          awaySecond _ (Kind.endsShape_of_isUnsought otherUnsought)]
      · have isInert := Kind.isInert_of_endsDefinition ends
        rw [here, away] at isInert
        contradiction
    · rw [beq_eq_false_iff_ne.mpr here, Bool.false_and, Bool.false_and]

theorem pair {first second : Kind} {left right : Step α} (away : first.isInert = false)
    (awaySecond : second.endsShape = false) (onTrue : StableFrom reach inside closing left)
    (onFalse : StableFrom reach inside closing right) :
    StableFrom reach inside closing (do
      if (← Step.check first) && (← Step.kindNth 1) == second then left else right) := by
  refine ofPair (· == second) (fun parser => ?_) away (fun kind ends => ?_) onTrue onFalse
  · rw [look_bind (check_eq parser first), look_bind (kindNth_eq parser 1)]
  · rw [beq_eq_false_iff_ne]
    rintro rfl
    rw [awaySecond] at ends
    contradiction

theorem hardPair {ι : Type} {step : Step α} (next : ι → Step α) (seen : Kind → Kind → ι)
    (is : ∀ parser, step parser =
      next (seen parser.cursor.peek.kind (parser.cursor.peekNth 1).kind) parser)
    (ending : ∀ kind, kind.endsDefinition → ∀ left right, seen kind left = seen kind right)
    (unsought : ∀ kind left right, left.isUnsought = true → right.isUnsought = true →
      seen kind left = seen kind right)
    (onwards : ∀ seen, StableFrom False inside closing (next seen)) :
    StableFrom False inside closing step := by
  refine choose next (fun parser => seen parser.cursor.peek.kind (parser.cursor.peekNth 1).kind)
    is ?_ onwards
  intro parser value later _ _ seam shared left right joined _ _ place
  have more : shared ≠ [] := place.resolve_right fun soft => soft.2.1
  left
  rw [joined.peek more]
  rcases joined.second more with same | ⟨reaches, -⟩ | ⟨leftUnsought, rightUnsought⟩ | ends
  · rw [same]
  · exact absurd reaches not_false
  · exact unsought _ _ _ rightUnsought leftUnsought
  · exact ending _ ends _ _

theorem pairAny {first second : Kind} {left right : Step α} (away : ¬first.endsDefinition)
    (sought : second.isUnsought = false) (onTrue : StableFrom False inside closing left)
    (onFalse : StableFrom False inside closing right) :
    StableFrom False inside closing (do
      if (← Step.check first) && (← Step.kindNth 1) == second then left else right) := by
  refine hardPair (fun seen => if seen then left else right)
    (fun kind next => kind == first && next == second) (fun parser => ?_) ?_ ?_
    fun _ => ite onTrue onFalse
  · rw [look_bind (check_eq parser first), look_bind (kindNth_eq parser 1)]
  · intro kind ends left right
    have other : kind ≠ first := by
      rintro rfl
      exact away ends
    rw [beq_eq_false_iff_ne.mpr other, Bool.false_and, Bool.false_and]
  · have differs {other : Kind} (unsought : other.isUnsought = true) : other ≠ second := by
      rintro rfl
      rw [sought] at unsought
      contradiction
    intro kind left right leftUnsought rightUnsought
    rw [beq_eq_false_iff_ne.mpr (differs leftUnsought), beq_eq_false_iff_ne.mpr (differs rightUnsought)]

/-- A closing token that is passed over is among the shared kinds. -/
theorem mem_kinds_of_closed {step : Step α} {sign : Symbol} {parser later : Parser} {value : α}
    (carried : Carried reach inside (some [sign]) step parser value later) {seam : Seam}
    {shared left : List Slot} {right : Parser} (joined : parser.Joined reach seam shared right)
    (leaves : later.cursor.ahead = left ++ seam.rest) :
    .symbol sign ∈ shared.map (fun slot => slot.token.kind) := by
  obtain ⟨front, split, passed⟩ := carried.passed
  obtain ⟨slot, isLast, found, member, isSign⟩ := passed.closed [sign] rfl
  obtain rfl := List.mem_singleton.mp member
  rw [Carried.shared_eq joined split leaves, List.map_append]
  exact List.mem_append_left _ (List.mem_map.mpr ⟨slot, isLast.mem List.mem_cons_self, isSign⟩)

/-- A choice by the shape of a variable definition, which the symbol that closes both sides
ends. -/
theorem ofIsVarDef {sign : Symbol} {left right : Step α} (ends : (Kind.symbol sign).endsType)
    (onTrue : StableFrom reach inside (some [sign]) left)
    (onFalse : StableFrom reach inside (some [sign]) right) :
    StableFrom reach inside (some [sign]) (do if ← Step.isVarDef then left else right) := by
  refine choose (fun seen => if seen then left else right)
    (fun parser => startsVarDef (parser.options.maxDepth + 1) parser.cursor.kinds)
    (fun parser => look_bind (isVarDef_eq parser)) ?_ fun _ => ite onTrue onFalse
  intro parser value later ran clean seam shared tokens other joined leaves _ _
  have carried := (ite onTrue onFalse : StableFrom reach inside (some [sign]) _) ran clean
  left
  rw [joined.options, joined.kinds, joined.otherKinds]
  exact startsVarDef_shared ends _ (mem_kinds_of_closed carried joined leaves) _ _

end StableFrom

namespace StableInside

variable {reach : Prop} {closing : Option (List Symbol)}

theorem current {next : Kind → Step α} (onwards : ∀ kind, StableInside reach closing (next kind)) :
    StableInside reach closing (Step.current >>= next) := by
  refine StableFrom.choose next (fun parser => parser.cursor.peek.kind)
    (fun parser => look_bind (current_eq parser)) ?_ onwards
  intro parser value later _ _ seam shared left right joined _ _ place
  exact .inl (by rw [joined.peek (place.resolve_right fun soft => soft.1 trivial)])

theorem peek {next : Token → Step α}
    (onwards : ∀ token, StableInside reach closing (next token)) :
    StableInside reach closing (Step.peek >>= next) := by
  refine StableFrom.choose next (fun parser => parser.cursor.peek)
    (fun parser => look_bind (peek_eq parser)) ?_ onwards
  intro parser value later _ _ seam shared left right joined _ _ place
  exact .inl (joined.peek (place.resolve_right fun soft => soft.1 trivial))

theorem check {kind : Kind} {next : Bool → Step α}
    (onwards : ∀ here, StableInside reach closing (next here)) :
    StableInside reach closing (Step.check kind >>= next) := by
  refine StableFrom.choose next (fun parser => parser.cursor.peek.kind == kind)
    (fun parser => look_bind (check_eq parser kind)) ?_ onwards
  intro parser value later _ _ seam shared left right joined _ _ place
  exact .inl (by rw [joined.peek (place.resolve_right fun soft => soft.1 trivial)])

end StableInside

namespace StableFrom

variable {reach inside : Prop} {closing other : Option (List Symbol)} {signs : List Symbol}

/-! ### Consuming -/

/-- A step that takes the current token if that stands for a value takes it whatever stands
behind it. -/
theorem again_of_takes {step : Step α} (value? : Token → Option α)
    (reads : ∀ {parser : Parser} {value : α}, value? parser.cursor.peek = some value →
      step parser = .ok value parser.advance)
    (notEnd : ∀ {token value}, value? token = some value → token.kind ≠ .endOfFile)
    {parser : Parser} {value : α} (here : value? parser.cursor.peek = some value) :
    ∃ slot, parser.cursor.peek = slot.token ∧
      parser.cursor.ahead = slot :: parser.advance.cursor.ahead ∧
      ∀ (seam : Seam) (shared left : List Slot) (right : Parser),
        parser.Joined reach seam shared right →
        parser.advance.cursor.ahead = left ++ seam.rest →
        ∃ last, step right = .ok value last ∧ parser.advance.Joined reach seam left last := by
  obtain ⟨slot, rest, ahead⟩ : ∃ slot rest, parser.cursor.ahead = slot :: rest := by
    apply List.exists_cons_of_ne_nil
    intro empty
    exact notEnd here (parser.cursor.peek_isEnd_iff.mpr empty)
  have behind : parser.advance.cursor.ahead = rest := by
    rw [show parser.advance.cursor.ahead = _ from parser.cursor.ahead_advance, ahead, List.tail_cons]
  have isPeek : parser.cursor.peek = slot.token := by
    rw [Cursor.peek, ahead]
    rfl
  refine ⟨slot, isPeek, by rw [ahead, behind], fun seam shared left right joined leaves => ?_⟩
  have passed : parser.cursor.ahead = [slot] ++ parser.advance.cursor.ahead := by
    rw [ahead, behind, List.singleton_append]
  have split : shared = slot :: left := Carried.shared_eq joined passed leaves
  have same := joined.peek (by rw [split]; exact List.cons_ne_nil _ _)
  exact ⟨right.advance, reads (same ▸ here), joined.advance split⟩

theorem takes {step : Step α} (value? : Token → Option α)
    (reads : ∀ {parser : Parser} {value : α}, value? parser.cursor.peek = some value →
      step parser = .ok value parser.advance)
    (only : ∀ {parser later : Parser} {value : α}, step parser = .ok value later → later.Clean →
      ∃ value, value? parser.cursor.peek = some value)
    (notEnd : ∀ {token value}, value? token = some value → token.kind ≠ .endOfFile)
    (spared : ∀ {token value}, value? token = some value → reach →
      token.kind ≠ .symbol .semicolon)
    (closes : ∀ signs, closing = some signs → ∀ {token value}, value? token = some value →
      ∃ sign ∈ signs, token.kind = .symbol sign) :
    StableFrom reach inside closing step := by
  intro parser later value ran clean
  obtain ⟨found, here⟩ := only ran clean
  cases ran.symm.trans (reads here)
  obtain ⟨slot, isPeek, split, again⟩ := again_of_takes value? reads notEnd here
  rw [isPeek] at here
  refine ⟨Parser.clean_of_advance clean, ⟨[slot], split, ?_, fun signs isSome => ?_⟩, ?_⟩
  · intro reaches other member
    obtain rfl := List.mem_singleton.mp member
    exact spared here reaches
  · obtain ⟨sign, member, isSign⟩ := closes signs isSome here
    exact ⟨slot, List.suffix_refl _, sign, member, isSign⟩
  · intro seam shared left right joined _ leaves _
    exact again seam shared left right joined leaves

/-- A step that takes the current token if that stands for a value, which neither a
semicolon nor the end does. -/
theorem takesValue {step : Step α} (value? : Token → Option α)
    (reads : ∀ {parser : Parser} {value : α}, value? parser.cursor.peek = some value →
      step parser = .ok value parser.advance)
    (only : ∀ {parser later : Parser} {value : α}, step parser = .ok value later →
      ∃ value, value? parser.cursor.peek = some value)
    (away : ∀ {token value}, value? token = some value →
      token.kind ≠ .symbol .semicolon ∧ token.kind ≠ .endOfFile) : Stable reach none step :=
  takes value? reads (fun ran _ => only ran) (fun isValue => (away isValue).2)
    (fun isValue _ => (away isValue).1) nofun

theorem consumes {step : Step α} (kind : Kind) (make : Token → α) (notEnd : kind ≠ .endOfFile)
    (reads : ∀ {parser : Parser}, parser.cursor.peek.kind = kind →
      step parser = .ok (make parser.cursor.peek) parser.advance)
    (only : ∀ {parser value later}, step parser = .ok value later → later.Clean →
      parser.cursor.peek.kind = kind)
    (spared : reach → kind ≠ .symbol .semicolon)
    (closes : ∀ signs, closing = some signs → ∃ sign ∈ signs, kind = .symbol sign) :
    StableFrom reach inside closing step := by
  have isKind {token : Token} {value : α}
      (isValue : (if token.kind = kind then some (make token) else none) = some value) :
      token.kind = kind := by
    split at isValue
    · assumption
    · cases isValue
  apply takes (fun token => if token.kind = kind then some (make token) else none)
  · intro parser value isValue
    have here := isKind isValue
    rw [if_pos here] at isValue
    cases isValue
    exact reads here
  · intro parser later value ran clean
    exact ⟨_, if_pos (only ran clean)⟩
  · intro token value isValue
    rwa [isKind isValue]
  · intro token value isValue reaches
    rw [isKind isValue]
    exact spared reaches
  · intro signs isSome token value isValue
    rw [isKind isValue]
    exact closes signs isSome

theorem expect (kind : Kind) (notEnd : kind ≠ .endOfFile)
    (spared : kind ≠ .symbol .semicolon) :
    StableFrom reach inside none (Step.expect kind) :=
  consumes kind id notEnd expect_of_kind (fun ran _ => (expect_ok ran).1) (fun _ => spared) nofun

theorem symbol (sign : Symbol) (spared : sign ≠ .semicolon) :
    StableFrom reach inside (some [sign]) (expectSymbol sign) :=
  consumes (.symbol sign) id nofun expect_of_kind (fun ran _ => (expect_ok ran).1)
    (fun _ same => spared (Kind.symbol.inj same))
    fun _ isSome => ⟨sign, Option.some.inj isSome ▸ List.mem_singleton_self sign, rfl⟩

theorem keyword (word : Keyword) : StableFrom reach inside none (expectKeyword word) :=
  expect _ nofun nofun

theorem identifier : StableFrom reach inside none expectIdentifier :=
  consumes .identifier (fun token => ⟨token.lexeme, token.span⟩) nofun
    expectIdentifier_of_kind (fun ran _ => (expectIdentifier_ok ran).1) (fun _ => nofun) nofun

/-- A token of any kind, where what follows goes on neither behind a semicolon nor behind
the end. -/
theorem advanceThen {next : Token → Step α}
    (only : ∀ {token parser value later}, next token parser = .ok value later →
      token.kind ≠ .symbol .semicolon ∧ token.kind ≠ .endOfFile)
    (onwards : ∀ token, Stable reach closing (next token)) :
    Stable reach closing (Step.advance >>= next) := by
  intro parser later value ran clean
  rw [bind_of_ok (advance_eq parser)] at ran
  obtain ⟨spared, notEnd⟩ := only ran
  have ranExpect : (Step.expect parser.cursor.peek.kind >>= next) parser = .ok value later := by
    rw [bind_of_ok (expect_of_kind rfl)]
    exact ran
  have stable : Stable reach closing (Step.expect parser.cursor.peek.kind >>= next) :=
    (expect _ notEnd spared).bind onwards
  have carried := stable ranExpect clean
  refine ⟨carried.clean, carried.passed, fun seam shared left right joined begins leaves lands => ?_⟩
  obtain ⟨last, ranRight, joinedLast⟩ :=
    carried.again seam shared left right joined begins leaves lands
  obtain ⟨token, between, ranToken, ranNext⟩ := bind_ok ranRight
  obtain ⟨-, rfl, rfl⟩ := expect_ok ranToken
  exact ⟨last, (bind_of_ok (advance_eq right)).trans ranNext, joinedLast⟩

theorem eat?_eq_expect (kind : Kind) (parser : Parser) : Step.eat? kind parser = (do
    if ← Step.check kind then return some (← Step.expect kind) else return none) parser := by
  rw [look_bind (check_eq parser kind)]
  by_cases here : parser.cursor.peek.kind = kind
  · rw [eat?_of_kind here, if_pos (by simpa using here), bind_of_ok (expect_of_kind here), pure_eq]
  · rw [eat?_of_other here, if_neg (by simpa using here), pure_eq]

theorem eat? (kind : Kind) (away : kind.isInert = false)
    (notEnd : kind ≠ .endOfFile) : StableFrom reach inside none (Step.eat? kind) := by
  have spared : kind ≠ .symbol .semicolon := by
    rintro rfl
    cases away
  refine of_eq ?_ (eat?_eq_expect kind)
  exact (check away).bind fun _ => ite ((expect kind notEnd spared).mapped some) (pure _)

theorem eatInside? (kind : Kind) (notEnd : kind ≠ .endOfFile)
    (spared : kind ≠ .symbol .semicolon) :
    StableInside reach none (Step.eat? kind) := by
  refine of_eq ?_ (eat?_eq_expect kind)
  exact StableInside.check fun _ => ite ((expect kind notEnd spared).mapped some) (pure _)

theorem eat (kind : Kind) (away : kind.isInert = false)
    (notEnd : kind ≠ .endOfFile) :
    StableFrom reach inside none (Step.eat kind) :=
  (eat? kind away notEnd).mapped _

/-- Where no soft seam is reached, a token of any kind may be optional. -/
theorem eatAny (kind : Kind) (notEnd : kind ≠ .endOfFile)
    (spared : kind ≠ .symbol .semicolon) :
    StableFrom False inside none (Step.eat kind) := by
  refine mapped _ (of_eq ?_ (eat?_eq_expect kind))
  exact (checkAny kind).bind fun _ => ite ((expect kind notEnd spared).mapped some) (pure _)

/-! ### Repeating -/

theorem loop {turn : σ → Step (ForInStep σ)} (stable : ∀ state, Stable reach none (turn state))
    (state : σ) : Stable reach none (Step.loop turn state) := by
  intro parser later final ran clean
  induction less : parser.cursor.remaining using Nat.strongRecOn generalizing parser state with
  | ind _ ih =>
    subst less
    rcases loop_ok ran with ranTurn | ⟨next, between, ranTurn, ⟨shorter, rest⟩ | ⟨still, rfl, rfl⟩⟩
    · have carried := stable state ranTurn clean
      refine ⟨carried.clean, carried.passed, fun seam shared left right joined _ leaves lands => ?_⟩
      obtain ⟨last, ranRight, joinedLast⟩ :=
        carried.again seam shared left right joined nofun leaves lands
      exact ⟨last, loop_of_done ranRight, joinedLast⟩
    · have behind := ih _ shorter next rest rfl
      have before := stable state ranTurn behind.clean
      obtain ⟨front, split, passed⟩ := before.passed
      obtain ⟨back, splitBehind, passedBehind⟩ := behind.passed
      refine ⟨before.clean, ⟨front ++ back, ?_, passed.append passedBehind⟩, ?_⟩
      · rw [split, splitBehind, List.append_assoc]
      · intro seam shared left right joined _ leaves lands
        have leavesBetween : between.cursor.ahead = (back ++ left) ++ seam.rest := by
          rw [splitBehind, leaves, List.append_assoc]
        obtain ⟨rightBetween, ranRight, joinedBetween⟩ := before.again seam shared (back ++ left)
          right joined nofun leavesBetween (lands.before passedBehind)
        obtain ⟨last, ranLast, joinedLast⟩ :=
          behind.again seam _ left rightBetween joinedBetween nofun leaves lands
        refine ⟨last, (loop_of_yield ranRight ?_).trans ranLast, joinedLast⟩
        rw [joined.remaining, joinedBetween.remaining] at shorter
        rw [joined.otherRemaining, joinedBetween.otherRemaining]
        omega
    · have carried := stable state ranTurn clean
      refine ⟨carried.clean, carried.passed, fun seam shared left right joined _ leaves lands => ?_⟩
      obtain ⟨last, ranRight, joinedLast⟩ :=
        carried.again seam shared left right joined nofun leaves lands
      refine ⟨last, ?_, joinedLast⟩
      rw [Step.loop, ranRight]
      refine if_neg ?_
      rw [joined.remaining, joinedLast.remaining] at still
      rw [joined.otherRemaining, joinedLast.otherRemaining]
      omega

theorem commaSeparated {item : Step α} (stable : Stable reach other item) :
    Stable reach none (Step.commaSeparated item) :=
  loop (fun _ => stable.bind fun _ => (eat (.symbol .comma) rfl nofun).bind fun _ => ite (pure _) (pure _)) []

theorem whileAt {kind : Kind} (away : kind.isInert = false) {item : Step α}
    (stable : Stable reach other item) : Stable reach none (Step.whileAt kind item) :=
  loop (fun _ => (check away).bind fun _ => ite (stable.opened.mapped _) (pure _)) []

/-- The closing symbol may be one at which nothing goes on: something is read up to it. -/
theorem closedList {close : Symbol} {item : Step α} (orderly : Orderly (fun _ => True) item)
    (stable : Stable reach other item) (spared : close ≠ .semicolon) :
    Stable reach (some [close]) (Step.closedList close item) := by
  have strict : Strict (Step.closedList close item) :=
    (Eager.behind (.listBefore orderly) fun _ =>
      .bind (.symbol close) fun _ => .pure _ : Eager (fun _ => True) _).strict
  have items : StableInside reach none (Step.listBefore close item) :=
    .check fun _ => ite (pure _) (commaSeparated stable).within
  exact strictly strict (items.bind fun _ => (symbol close spared).mapped _)

/-! ### Optional parts -/

theorem ifAt {kind : Kind} (away : kind.isInert = false) {part : Step α}
    (stable : Stable reach other part) : Stable reach none (Step.ifAt kind part) :=
  (check away).bind fun _ => ite (stable.opened.mapped _) (pure _)

theorem ifBehind {kind : Kind} (away : kind.isInert = false) (notEnd : kind ≠ .endOfFile)
    {part : Step α} (stable : Stable reach other part) :
    Stable reach none (Step.ifBehind kind part) :=
  (eat kind away notEnd).bind fun _ => ite (stable.opened.mapped _) (pure _)

/-! ### Reporting -/

theorem report (diagnostic : Diagnostic) :
    StableFrom reach inside closing (Step.report diagnostic) :=
  of_never fun {parser _ _} ran => by
    cases ran
    exact parser.not_clean_report diagnostic

theorem not_clean_of_assume {kind : Kind} {parser later : Parser} {marker : TokenMarker}
    (ran : Step.assume kind parser = .ok marker later) : ¬later.Clean := by
  rw [Step.assume, look_bind (cursor_eq parser), bind_of_ok (report_eq _ _)] at ran
  cases ran
  exact parser.not_clean_report _

theorem rightBrace_of_closeBrace {parser later : Parser} {marker : TokenMarker}
    (ran : Step.closeBrace parser = .ok marker later) (clean : later.Clean) :
    parser.cursor.peek.kind = .symbol .rightBrace := by
  refine Classical.byContradiction fun other => ?_
  rw [Step.closeBrace, bind_of_ok (eat?_of_other other)] at ran
  exact not_clean_of_assume ran clean

theorem semicolon_of_endStatement {parser later : Parser} {marker : TokenMarker}
    (ran : Step.endStatement parser = .ok marker later) (clean : later.Clean) :
    parser.cursor.peek.kind = .symbol .semicolon := by
  refine Classical.byContradiction fun other => ?_
  rw [Step.endStatement, bind_of_ok (eat?_of_other other)] at ran
  simp only [look_bind (current_eq parser)] at ran
  split at ran
  · exact not_clean_of_assume ran clean
  · rw [look_bind (peek_eq parser)] at ran
    exact fail_ne_ok ran

theorem closeBrace : StableFrom reach inside (some [.rightBrace]) Step.closeBrace :=
  consumes (.symbol .rightBrace) (fun token => ⟨token.span, false⟩) nofun closeBrace_of_kind
    rightBrace_of_closeBrace (fun _ => nofun)
    fun _ isSome => ⟨.rightBrace, Option.some.inj isSome ▸ List.mem_singleton_self _, rfl⟩

/-- Semicolons are passed over where no soft seam is reached. -/
theorem endStatement : StableFrom False inside (some [.semicolon]) Step.endStatement :=
  consumes (.symbol .semicolon) (fun token => ⟨token.span, false⟩) nofun endStatement_of_kind
    semicolon_of_endStatement nofun
    fun _ isSome => ⟨.semicolon, Option.some.inj isSome ▸ List.mem_singleton_self _, rfl⟩

theorem takeComments : StableFrom False inside none Step.takeComments := by
  intro parser later comments ran clean
  rw [takeComments_eq] at ran
  by_cases keep : parser.options.keepComments = true
  · rw [if_pos keep] at ran
    cases ran
    refine ⟨clean.moved parser.cursor, ⟨[], rfl, .nothing⟩, ?_⟩
    intro seam shared left right joined _ leaves lands
    obtain rfl : shared = left := List.append_cancel_right (joined.ahead.symm.trans leaves)
    have more : shared ≠ [] := fun empty => ((lands empty).resolve_left nofun).1
    have keepRight : right.options.keepComments = true := joined.options ▸ keep
    refine ⟨_, ?_, joined.dropComments⟩
    rw [takeComments_eq, if_pos keepRight, joined.comments more]
  · rw [if_neg keep] at ran
    cases ran
    refine ⟨clean, ⟨[], rfl, .nothing⟩, fun seam shared left right joined _ leaves _ => ?_⟩
    obtain rfl : shared = left := List.append_cancel_right (joined.ahead.symm.trans leaves)
    have dropRight : ¬right.options.keepComments = true := joined.options ▸ keep
    exact ⟨right, by rw [takeComments_eq, if_neg dropRight], joined⟩

theorem orRecover {point : SyncPoint} {part : Step α} {instead : Span → α}
    (stable : StableFrom reach inside closing part) :
    StableFrom reach inside closing (Step.orRecover point part instead) := by
  intro parser later value ran clean
  rcases orRecover_cases point part instead parser with
    ⟨_, _, ranPart, same⟩ | ⟨_, _, _, _, _, same, _, reported⟩
  · cases same.symm.trans ran
    have carried := stable ranPart clean
    refine ⟨carried.clean, carried.passed, fun seam shared left right joined begins leaves lands => ?_⟩
    obtain ⟨last, ranRight, joinedLast⟩ :=
      carried.again seam shared left right joined begins leaves lands
    exact ⟨last, orRecover_of_ok ranRight, joinedLast⟩
  · cases same.symm.trans ran
    exact absurd clean reported

theorem orSkip {part : Step α} {instead : Span → α}
    (stable : StableFrom reach inside closing part) :
    StableFrom reach inside closing (Step.orSkip part instead) := by
  intro parser later value ran clean
  rcases orSkip_cases part instead parser with
    ⟨_, _, ranPart, same⟩ | ⟨_, _, _, _, _, same, _, reported⟩
  · cases same.symm.trans ran
    have carried := stable ranPart clean
    refine ⟨carried.clean, carried.passed, fun seam shared left right joined begins leaves lands => ?_⟩
    obtain ⟨last, ranRight, joinedLast⟩ :=
      carried.again seam shared left right joined begins leaves lands
    exact ⟨last, orSkip_of_ok ranRight, joinedLast⟩
  · cases same.symm.trans ran
    exact absurd clean reported

end StableFrom

end Step

end ServiceLang
