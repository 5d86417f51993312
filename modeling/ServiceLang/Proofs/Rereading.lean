import ServiceLang.Proofs.Ending
import ServiceLang.Proofs.Words
import ServiceLang.Tree.Erased

set_option autoImplicit false

/-! Reading again what a step has read. The value of a step is written as words, and
the same step, before these words and what may stand behind them, gives a value that
says the same and stops right behind them.

For steps that keep the order of what they read the words are also those that were
passed over. Others may have passed over comments or have put parts into another
order; for them only the written words count. -/

namespace ServiceLang

/-- The parsers a statement about reading is for. What has been read does not
matter, and all have the same options. -/
class Calm (calm : Parser → Prop) : Prop where
  moved : ∀ parser cursor, calm { parser with cursor := cursor } ↔ calm parser
  sameOptions : ∀ left right, calm left → calm right → left.options = right.options

theorem Calm.advance {calm : Parser → Prop} [Calm calm] {parser : Parser} :
    calm parser.advance ↔ calm parser :=
  moved parser _

namespace Step

variable {α β ε η σ : Type}

/-- The step reads these words as a value that says the same as another, whatever
allowed kinds follow. -/
def Again (calm : Parser → Prop) (step : Step α) (erased : α → ε) (value : α)
    (words : List Word) (behind : List Kind → Prop) : Prop :=
  ∀ parser rest, calm parser → parser.words = words ++ rest → behind (rest.map Word.kind) →
    ∃ other later, step parser = .ok other later ∧ calm later ∧
      erased other = erased value ∧ later.words = rest

/-- What is known of a step that has given a value, and of the words its value adds
to what was written before. `front` compares the kinds that were ahead with the
kinds that are ahead in the second reading, `behind` those that are left. Even if the
words are in another order, their kinds are all there. -/
structure Reread (calm : Parser → Prop) (exact : Prop) (front behind : List Kind → List Kind → Prop)
    (again : Step α) (erased : α → ε) (parser : Parser) (value : α) (later : Parser)
    (added : List Word) : Prop where
  quiet : calm parser
  normal : ∀ word ∈ added, word.normal = word
  passed : exact → parser.words = added ++ later.words
  tally : (countedJoins parser.cursor.kinds).Perm
    (added.map Word.kind ++ countedJoins later.cursor.kinds)
  front : ∀ rest, behind later.cursor.kinds rest →
    front parser.cursor.kinds (added.map Word.kind ++ rest)
  again : Again calm again erased value added (behind later.cursor.kinds)

/-- Whenever a step has given a value, its value is written as what was written
before and some words, and these can be read again. The second reading may go on from
another value than the first one did. -/
def Rereads (calm : Parser → Prop) (exact : Prop) (front : List Kind → List Kind → Prop)
    (behind : α → List Kind → List Kind → Prop) (before : List Word) (step again : Step α)
    (erased : α → ε) (written : α → List Word) : Prop :=
  ∀ ⦃parser value later⦄, step parser = .ok value later → calm later →
    ∃ added, written value = before ++ added ∧
      Reread calm exact front (behind value) again erased parser value later added

variable {calm : Parser → Prop} {exact : Prop} {front : List Kind → List Kind → Prop}
  {before : List Word}

namespace Rereads

/-! ### Weakening -/

section Weaken

variable {behind : α → List Kind → List Kind → Prop} {step again : Step α} {erased : α → ε}
  {written : α → List Word}

theorem weakenFront {other : List Kind → List Kind → Prop}
    (reads : Rereads calm exact front behind before step again erased written)
    (weaker : ∀ left right, front left right → other left right) :
    Rereads calm exact other behind before step again erased written := by
  intro parser value later ran quiet
  obtain ⟨added, whole, reread⟩ := reads ran quiet
  exact ⟨added, whole, reread.quiet, reread.normal, reread.passed, reread.tally,
    fun rest follows => weaker _ _ (reread.front rest follows), reread.again⟩

theorem anyFront (reads : Rereads calm exact front behind before step again erased written) :
    Rereads calm exact Anything behind before step again erased written :=
  reads.weakenFront fun _ _ _ => trivial

theorem strengthenBehind {other : α → List Kind → List Kind → Prop}
    (reads : Rereads calm exact front behind before step again erased written)
    (stronger : ∀ value left right, other value left right → behind value left right) :
    Rereads calm exact front other before step again erased written := by
  intro parser value later ran quiet
  obtain ⟨added, whole, reread⟩ := reads ran quiet
  exact ⟨added, whole, reread.quiet, reread.normal, reread.passed, reread.tally,
    fun rest follows => reread.front rest (stronger _ _ _ follows),
    fun other rest calmOther ahead follows =>
      reread.again other rest calmOther ahead (stronger _ _ _ follows)⟩

theorem inexact (reads : Rereads calm True front behind before step again erased written) :
    Rereads calm exact front behind before step again erased written := by
  intro parser value later ran quiet
  obtain ⟨added, whole, reread⟩ := reads ran quiet
  exact ⟨added, whole, reread.quiet, reread.normal, fun _ => reread.passed trivial,
    reread.tally, reread.front, reread.again⟩

theorem from_ {other : List Word}
    (reads : Rereads calm exact front behind before step again erased written)
    (same : before = other) :
    Rereads calm exact front behind other step again erased written :=
  same ▸ reads

theorem writtenAs {other : α → List Word}
    (reads : Rereads calm exact front behind before step again erased written)
    (same : ∀ {parser value later}, step parser = .ok value later →
      other value = written value) :
    Rereads calm exact front behind before step again erased other := by
  intro parser value later ran quiet
  obtain ⟨added, whole, reread⟩ := reads ran quiet
  exact ⟨added, (same ran).trans whole, reread⟩

end Weaken

/-! ### One step after another -/

theorem bindOf {middle : α → List Kind → List Kind → Prop}
    {behind : β → List Kind → List Kind → Prop} {first firstAgain : Step α}
    {next nextAgain : α → Step β} {erasedFirst : α → ε} {erased : β → η}
    {writtenFirst : α → List Word} {written : β → List Word}
    (here : Rereads calm exact front middle [] first firstAgain erasedFirst writtenFirst)
    (onwards : ∀ value other, (∃ parser later, first parser = .ok value later) →
      erasedFirst other = erasedFirst value →
      Rereads calm exact (middle value) behind (before ++ writtenFirst value) (next value)
        (nextAgain other) erased written) :
    Rereads calm exact front behind before (first >>= next) (firstAgain >>= nextAgain) erased
      written := by
  intro parser result later ran quiet
  obtain ⟨value, between, ranFirst, ranNext⟩ := bind_ok ran
  obtain ⟨second, whole, rereadNext⟩ := onwards value value ⟨_, _, ranFirst⟩ rfl ranNext quiet
  obtain ⟨added, wholeFirst, rereadFirst⟩ := here ranFirst rereadNext.quiet
  rw [List.nil_append] at wholeFirst
  subst wholeFirst
  refine ⟨writtenFirst value ++ second, ?_, ?_⟩
  · rw [whole, List.append_assoc]
  refine ⟨rereadFirst.quiet, ?_, ?_, ?_, ?_, ?_⟩
  · intro word member
    rcases List.mem_append.mp member with member | member
    · exact rereadFirst.normal word member
    · exact rereadNext.normal word member
  · intro inOrder
    rw [rereadFirst.passed inOrder, rereadNext.passed inOrder, List.append_assoc]
  · rw [List.map_append, List.append_assoc]
    exact rereadFirst.tally.trans (rereadNext.tally.append_left _)
  · intro rest follows
    rw [List.map_append, List.append_assoc]
    exact rereadFirst.front _ (rereadNext.front rest follows)
  · intro other rest calmOther ahead follows
    rw [List.append_assoc] at ahead
    have allowed := rereadNext.front (rest.map Word.kind) follows
    obtain ⟨otherValue, otherBetween, otherRan, calmBetween, sameFirst, aheadBetween⟩ :=
      rereadFirst.again other (second ++ rest) calmOther ahead
        (by rw [List.map_append]; exact allowed)
    obtain ⟨secondAgain, wholeAgain, rereadAgain⟩ :=
      onwards value otherValue ⟨_, _, ranFirst⟩ sameFirst ranNext quiet
    obtain rfl : secondAgain = second := List.append_cancel_left (wholeAgain.symm.trans whole)
    obtain ⟨otherResult, otherLater, otherRanNext, calmLater, same, aheadLater⟩ :=
      rereadAgain.again otherBetween rest calmBetween aheadBetween follows
    exact ⟨otherResult, otherLater, (bind_of_ok otherRan).trans otherRanNext, calmLater, same,
      aheadLater⟩

theorem bind {middle : α → List Kind → List Kind → Prop}
    {behind : β → List Kind → List Kind → Prop} {first firstAgain : Step α}
    {next nextAgain : α → Step β} {erasedFirst : α → ε} {erased : β → η}
    {writtenFirst : α → List Word} {written : β → List Word}
    (here : Rereads calm exact front middle [] first firstAgain erasedFirst writtenFirst)
    (onwards : ∀ value other, erasedFirst other = erasedFirst value →
      Rereads calm exact (middle value) behind (before ++ writtenFirst value) (next value)
        (nextAgain other) erased written) :
    Rereads calm exact front behind before (first >>= next) (firstAgain >>= nextAgain) erased
      written :=
  here.bindOf fun value other _ => onwards value other

/-- A step behind which the kinds ahead have to agree. -/
theorem bindAgree {behind : β → List Kind → List Kind → Prop} {first firstAgain : Step α}
    {next nextAgain : α → Step β} {erasedFirst : α → ε} {erased : β → η}
    {writtenFirst : α → List Word} {written : β → List Word}
    (here : Rereads calm exact front (fun _ => Agree) [] first firstAgain erasedFirst writtenFirst)
    (onwards : ∀ value other, erasedFirst other = erasedFirst value →
      Rereads calm exact Agree behind (before ++ writtenFirst value) (next value)
        (nextAgain other) erased written) :
    Rereads calm exact front behind before (first >>= next) (firstAgain >>= nextAgain) erased
      written :=
  here.bind onwards

/-- A step behind which anything may stand. -/
theorem bindClosed {middle : List Kind → List Kind → Prop}
    {behind : β → List Kind → List Kind → Prop} {first firstAgain : Step α}
    {next nextAgain : α → Step β} {erasedFirst : α → ε} {erased : β → η}
    {writtenFirst : α → List Word} {written : β → List Word}
    (here : Rereads calm exact front (fun _ => Anything) [] first firstAgain erasedFirst
      writtenFirst)
    (onwards : ∀ value other, erasedFirst other = erasedFirst value →
      Rereads calm exact middle behind (before ++ writtenFirst value) (next value)
        (nextAgain other) erased written) :
    Rereads calm exact front behind before (first >>= next) (firstAgain >>= nextAgain) erased
      written :=
  here.bind fun value other same => (onwards value other same).anyFront

theorem mappedOf {behind : β → List Kind → List Kind → Prop} {step again : Step α}
    {erasedFirst : α → ε} {erased : β → η} {writtenFirst : α → List Word}
    {written : β → List Word} {make makeAgain : α → β}
    (reads : Rereads calm exact front (fun value => behind (make value)) before step again
      erasedFirst writtenFirst)
    (whole : ∀ value, written (make value) = writtenFirst value)
    (same : ∀ value other, erasedFirst other = erasedFirst value →
      erased (makeAgain other) = erased (make value)) :
    Rereads calm exact front behind before (do return make (← step))
      (do return makeAgain (← again)) erased written := by
  intro parser result later ran quiet
  obtain ⟨value, between, ranFirst, ranNext⟩ := bind_ok ran
  cases ranNext
  obtain ⟨added, wholeFirst, reread⟩ := reads ranFirst quiet
  refine ⟨added, (whole value).trans wholeFirst, reread.quiet, reread.normal, reread.passed,
    reread.tally, reread.front, ?_⟩
  intro other rest calmOther ahead follows
  obtain ⟨otherValue, otherLater, otherRan, calmLater, sameValue, aheadLater⟩ :=
    reread.again other rest calmOther ahead follows
  exact ⟨makeAgain otherValue, otherLater, bind_of_ok otherRan, calmLater,
    same value otherValue sameValue, aheadLater⟩

theorem mapped {behind : List Kind → List Kind → Prop} {step again : Step α}
    {erasedFirst : α → ε} {erased : β → η} {writtenFirst : α → List Word}
    {written : β → List Word} {make makeAgain : α → β}
    (reads : Rereads calm exact front (fun _ => behind) before step again erasedFirst
      writtenFirst)
    (whole : ∀ value, written (make value) = writtenFirst value)
    (same : ∀ value other, erasedFirst other = erasedFirst value →
      erased (makeAgain other) = erased (make value)) :
    Rereads calm exact front (fun _ => behind) before (do return make (← step))
      (do return makeAgain (← again)) erased written :=
  @mappedOf α β ε η calm exact front before (fun _ => behind) step again erasedFirst erased
    writtenFirst written make makeAgain reads whole same

/-- A value that adds nothing to what is written. What may stand behind can depend on
the value. -/
theorem pureOf {behind : α → List Kind → List Kind → Prop} {erased : α → ε}
    {written : α → List Word} {value other : α} (whole : written value = before)
    (same : erased other = erased value) :
    Rereads calm exact (behind value) behind before (Pure.pure value) (Pure.pure other) erased
      written := by
  intro parser result later ran quiet
  cases ran
  refine ⟨[], by rw [whole, List.append_nil], quiet, by simp, fun _ => rfl, .refl _, fun _ follows => follows,
    ?_⟩
  intro parser rest calmOther ahead _
  exact ⟨other, parser, rfl, calmOther, same, ahead⟩

theorem pure {behind : List Kind → List Kind → Prop} {erased : α → ε} {written : α → List Word}
    {value other : α} (whole : written value = before) (same : erased other = erased value) :
    Rereads calm exact behind (fun _ => behind) before (Pure.pure value) (Pure.pure other) erased
      written :=
  @pureOf α ε calm exact before (fun _ => behind) erased written value other whole same

theorem fail {behind : α → List Kind → List Kind → Prop} {erased : α → ε}
    {written : α → List Word} {again : Step α} (diagnostic : Diagnostic) :
    Rereads calm exact front behind before (Step.fail diagnostic) again erased written :=
  fun _ _ _ ran => absurd ran fail_ne_ok

theorem failAt {behind : α → List Kind → List Kind → Prop} {erased : α → ε}
    {written : α → List Word} {again : Step α} (other : Token → Diagnostic) :
    Rereads calm exact front behind before (Step.failAt other) again erased written :=
  fun _ _ _ ran => absurd ran failAt_ne_ok

theorem tooDeep {behind : α → List Kind → List Kind → Prop} {erased : α → ε}
    {written : α → List Word} {again : Step α} :
    Rereads calm exact front behind before Step.tooDeep again erased written :=
  fun _ _ _ ran => absurd ran tooDeep_ne_ok

theorem ite {condition : Prop} [Decidable condition] {behind : α → List Kind → List Kind → Prop}
    {left leftAgain right rightAgain : Step α} {erased : α → ε} {written : α → List Word}
    (onTrue : condition →
      Rereads calm exact front behind before left leftAgain erased written)
    (onFalse : ¬condition →
      Rereads calm exact front behind before right rightAgain erased written) :
    Rereads calm exact front behind before (if condition then left else right)
      (if condition then leftAgain else rightAgain) erased written := by
  split
  · exact onTrue ‹_›
  · exact onFalse ‹_›

/-! ### Looking -/

theorem look {behind : List Kind → List Kind → Prop} {step : Step α} (seen : Parser → α)
    (looks : ∀ parser, step parser = .ok (seen parser) parser)
    (same : ∀ parser other, calm parser → calm other →
      behind parser.cursor.kinds other.cursor.kinds → seen other = seen parser) :
    Rereads calm exact behind (fun _ => behind) [] step step id (fun _ => []) := by
  intro parser value later ran quiet
  have outcome := looks parser
  rw [ran] at outcome
  cases outcome
  refine ⟨[], rfl, quiet, by simp, fun _ => rfl, .refl _, fun _ follows => follows, ?_⟩
  intro other rest calmOther ahead follows
  refine ⟨seen other, other, looks other, calmOther, same parser other quiet calmOther ?_, ahead⟩
  rw [other.kinds_eq, ahead]
  exact follows

theorem glance {behind : List Kind → List Kind → Prop} {step : Step α} (seen : Parser → α)
    (looks : ∀ parser, step parser = .ok (seen parser) parser) :
    Rereads calm exact behind (fun _ => behind) [] step step (fun _ => ()) (fun _ => []) := by
  intro parser value later ran quiet
  have outcome := looks parser
  rw [ran] at outcome
  cases outcome
  refine ⟨[], rfl, quiet, by simp, fun _ => rfl, .refl _, fun _ follows => follows, ?_⟩
  intro other rest calmOther ahead _
  exact ⟨seen other, other, looks other, calmOther, rfl, ahead⟩

theorem spanFrom {behind : List Kind → List Kind → Prop} (start other : Span) :
    Rereads calm exact behind (fun _ => behind) [] (Step.spanFrom start) (Step.spanFrom other)
      (fun _ => ()) (fun _ => []) := by
  intro parser value later ran quiet
  rw [spanFrom_eq] at ran
  cases ran
  refine ⟨[], rfl, quiet, by simp, fun _ => rfl, .refl _, fun _ follows => follows, ?_⟩
  intro again rest calmAgain ahead _
  exact ⟨_, again, spanFrom_eq again other, calmAgain, rfl, ahead⟩

theorem spanned {behind : List Kind → List Kind → Prop} {start other : Span}
    {make makeAgain : Span → α} {erased : α → ε} {written : α → List Word}
    (whole : ∀ span, written (make span) = before)
    (same : ∀ span other, erased (makeAgain other) = erased (make span)) :
    Rereads calm exact behind (fun _ => behind) before (do return make (← Step.spanFrom start))
      (do return makeAgain (← Step.spanFrom other)) erased written :=
  bind (spanFrom start other) fun span spanAgain _ =>
    pure (by rw [whole, List.append_nil]) (same span spanAgain)

end Rereads

theorem kind_peek_of_head? {left right : Parser}
    (same : left.cursor.kinds.head? = right.cursor.kinds.head?) :
    right.cursor.peek.kind = left.cursor.peek.kind := by
  rw [Cursor.kind_peek, Cursor.kind_peek, same]

theorem kind_peek_iff {kind : Kind} (notEnd : kind ≠ .endOfFile) {parser : Parser} :
    parser.cursor.peek.kind = kind ↔ parser.cursor.kinds.head? = some kind := by
  rw [Cursor.kind_peek]
  cases parser.cursor.kinds.head? with
  | none => simpa using notEnd.symm
  | some other => simp

namespace Rereads

theorem current : Rereads calm exact Agree (fun _ => Agree) [] Step.current Step.current id
    (fun _ => []) :=
  .look (fun parser => parser.cursor.peek.kind) current_eq
    fun _ _ _ _ agree => kind_peek_of_head? agree.1

theorem check (kind : Kind) : Rereads calm exact Agree (fun _ => Agree) [] (Step.check kind)
    (Step.check kind) id (fun _ => []) :=
  .look (fun parser => parser.cursor.peek.kind == kind) (fun parser => check_eq parser kind)
    fun _ _ _ _ agree => by rw [kind_peek_of_head? agree.1]

theorem peek : Rereads calm exact Agree (fun _ => Agree) [] Step.peek Step.peek Token.kind
    (fun _ => []) := by
  intro parser value later ran quiet
  rw [peek_eq] at ran
  cases ran
  refine ⟨[], rfl, quiet, by simp, fun _ => rfl, .refl _, fun _ follows => follows, ?_⟩
  intro other rest calmOther ahead follows
  refine ⟨_, other, peek_eq other, calmOther, kind_peek_of_head? ?_, ahead⟩
  rw [other.kinds_eq, ahead]
  exact follows.1

/-- A choice that comes out the same in both readings, which is known from what was
read, from what is written, and from what may stand behind. -/
theorem choose {behind : α → List Kind → List Kind → Prop} {step again : Step α}
    {left leftAgain right rightAgain : Step α} {erased : α → ε} {written : α → List Word}
    (choice : Parser → Bool)
    (splits : ∀ parser, step parser = (if choice parser then left else right) parser)
    (splitsAgain : ∀ parser,
      again parser = (if choice parser then leftAgain else rightAgain) parser)
    (decided : ∀ {parser value later added} other rest, step parser = .ok value later →
      written value = before ++ added → (exact → parser.words = added ++ later.words) →
      other.words = added ++ rest → calm parser → calm other →
      behind value later.cursor.kinds (rest.map Word.kind) →
      front parser.cursor.kinds other.cursor.kinds → choice other = choice parser)
    (onTrue : Rereads calm exact front behind before left leftAgain erased written)
    (onFalse : Rereads calm exact front behind before right rightAgain erased written) :
    Rereads calm exact front behind before step again erased written := by
  intro parser value later ran quiet
  have branch : Rereads calm exact front behind before
      (if choice parser then left else right) (if choice parser then leftAgain else rightAgain)
      erased written :=
    .ite (fun _ => onTrue) (fun _ => onFalse)
  obtain ⟨added, whole, reread⟩ := branch ((splits parser).symm.trans ran) quiet
  refine ⟨added, whole, reread.quiet, reread.normal, reread.passed, reread.tally, reread.front, ?_⟩
  intro other rest calmOther ahead follows
  have starts := reread.front _ follows
  rw [← List.map_append, ← ahead, ← other.kinds_eq] at starts
  rw [splitsAgain, decided other rest ran whole reread.passed ahead reread.quiet calmOther follows
    starts]
  exact reread.again other rest calmOther ahead follows

theorem ofCheck {kind : Kind} [Sees front kind] {behind : α → List Kind → List Kind → Prop}
    {left leftAgain right rightAgain : Step α} {erased : α → ε} {written : α → List Word}
    (notEnd : kind ≠ .endOfFile)
    (onTrue : Rereads calm exact Agree behind before left leftAgain erased written)
    (onFalse : Rereads calm exact front behind before right rightAgain erased written) :
    Rereads calm exact front behind before
      (do if ← Step.check kind then left else right)
      (do if ← Step.check kind then leftAgain else rightAgain) erased written := by
  intro parser value later ran quiet
  rw [look_bind (check_eq parser kind)] at ran
  by_cases here : parser.cursor.peek.kind = kind
  · rw [if_pos (beq_iff_eq.mpr here)] at ran
    obtain ⟨added, whole, reread⟩ := onTrue ran quiet
    refine ⟨added, whole, reread.quiet, reread.normal, reread.passed, reread.tally,
      fun rest follows => Sees.of_agree kind (reread.front rest follows), ?_⟩
    intro other rest calmOther ahead follows
    have agree := reread.front _ follows
    rw [← List.map_append, ← ahead, ← other.kinds_eq] at agree
    rw [look_bind (check_eq other kind), if_pos (beq_iff_eq.mpr
      ((kind_peek_of_head? agree.1).trans here))]
    exact reread.again other rest calmOther ahead follows
  · rw [if_neg (by rwa [beq_iff_eq])] at ran
    obtain ⟨added, whole, reread⟩ := onFalse ran quiet
    refine ⟨added, whole, reread.quiet, reread.normal, reread.passed, reread.tally, reread.front,
      ?_⟩
    intro other rest calmOther ahead follows
    have seen := reread.front _ follows
    rw [← List.map_append, ← ahead, ← other.kinds_eq] at seen
    have otherToo : other.cursor.peek.kind ≠ kind := fun found =>
      here ((kind_peek_iff notEnd).mpr (Sees.head_of seen ((kind_peek_iff notEnd).mp found)))
    rw [look_bind (check_eq other kind), if_neg (by rwa [beq_iff_eq])]
    exact reread.again other rest calmOther ahead follows

theorem looksAlike {first : Kind} (matters : first.looksOn = true) {left right : Parser}
    (agree : Agree left.cursor.kinds right.cursor.kinds)
    (here : left.cursor.peek.kind = first) :
    (right.cursor.peekNth 1).kind = (left.cursor.peekNth 1).kind := by
  have head : left.cursor.kinds.head? = some first := by
    rw [Cursor.kind_peek] at here
    cases kinds : left.cursor.kinds.head? with
    | none =>
        rw [kinds] at here
        rw [← here] at matters
        cases matters
    | some kind =>
        rw [kinds] at here
        exact congrArg some here
  rw [Cursor.kind_peekNth, Cursor.kind_peekNth, agree.2 first head matters]

/-- A look at two kinds, where the second one matters only behind the first. -/
theorem ofPair {first second : Kind} (matters : first.looksOn = true)
    {behind : α → List Kind → List Kind → Prop} {left leftAgain right rightAgain : Step α}
    {erased : α → ε} {written : α → List Word}
    (onTrue : Rereads calm exact Agree behind before left leftAgain erased written)
    (onFalse : Rereads calm exact Agree behind before right rightAgain erased written) :
    Rereads calm exact Agree behind before
      (do if (← Step.check first) && (← kindNth 1) == second then left else right)
      (do if (← Step.check first) && (← kindNth 1) == second then leftAgain else rightAgain)
      erased written := by
  refine choose (fun parser =>
      parser.cursor.peek.kind == first && (parser.cursor.peekNth 1).kind == second)
    (fun parser => ?_) (fun parser => ?_) ?_ onTrue onFalse
  · rw [look_bind (check_eq parser first), look_bind (kindNth_eq parser 1)]
  · rw [look_bind (check_eq parser first), look_bind (kindNth_eq parser 1)]
  · intro parser value later added other rest _ _ _ _ _ _ _ agree
    rw [kind_peek_of_head? agree.1]
    by_cases here : parser.cursor.peek.kind = first
    · rw [looksAlike matters agree here]
    · rw [beq_eq_false_iff_ne.mpr here, Bool.false_and, Bool.false_and]

/-! ### Consuming -/

section Consuming

variable [Calm calm]

theorem passes {parser : Parser} (quiet : calm parser.advance)
    (plain : parser.cursor.peek.kind ≠ .endOfFile ∧
      parser.cursor.peek.kind ≠ .keyword .joinKw) :
    calm parser ∧ parser.cursor.peek.word.normal = parser.cursor.peek.word ∧
      parser.words = [parser.cursor.peek.word] ++ parser.advance.words ∧
      (countedJoins parser.cursor.kinds).Perm
        ([parser.cursor.peek.word].map Word.kind ++ countedJoins parser.advance.cursor.kinds) ∧
      parser.cursor.kinds =
        parser.cursor.peek.kind :: parser.advance.cursor.kinds := by
  have kinds : parser.cursor.kinds =
      parser.cursor.peek.kind :: parser.advance.cursor.kinds := by
    rw [parser.kinds_eq, Parser.words_of_kind plain.1, List.map_cons, Token.kind_word,
      Parser.kinds_eq]
  refine ⟨Calm.advance.mp quiet, Token.normal_word _, Parser.words_of_kind plain.1, ?_, kinds⟩
  rw [kinds, countedJoins_cons plain.2, List.map_singleton, Token.kind_word]
  exact .refl _

theorem expectBoth {kind : Kind} (behind : List Kind → List Kind → Prop)
    (plain : kind ≠ .endOfFile ∧ kind ≠ .keyword .joinKw) :
    Rereads calm exact (BothStart kind) (fun _ => behind) [] (Step.expect kind)
      (Step.expect kind) Token.word (fun token => [token.word]) := by
  intro parser value later ran quiet
  obtain ⟨here, rfl, rfl⟩ := expect_ok ran
  obtain ⟨quietHere, normal, passed, tally, kinds⟩ := passes quiet (by rw [here]; exact plain)
  refine ⟨[parser.cursor.peek.word], rfl, quietHere, ?_, fun _ => passed, tally, ?_, ?_⟩
  · intro word member
    rw [List.mem_singleton.mp member]
    exact normal
  · intro rest _
    rw [kinds, here]
    exact ⟨rfl, by rw [List.map_singleton, Token.kind_word, here]; rfl⟩
  · intro other rest calmOther ahead _
    have same : other.cursor.peek.word = parser.cursor.peek.word := Parser.word_peek ahead
    have hereToo : other.cursor.peek.kind = kind := by
      rw [← Token.kind_word, same, Token.kind_word, here]
    refine ⟨_, _, expect_of_kind hereToo, Calm.advance.mpr calmOther, same, ?_⟩
    rw [Parser.words_advance, ahead]
    rfl

theorem expect {kind : Kind} (behind : List Kind → List Kind → Prop)
    (plain : kind ≠ .endOfFile ∧ kind ≠ .keyword .joinKw) (alone : kind.looksOn = false) :
    Rereads calm exact Agree (fun _ => behind) [] (Step.expect kind) (Step.expect kind)
      Token.word (fun token => [token.word]) :=
  (expectBoth behind plain).weakenFront fun _ _ both => .of_bothStart alone both

/-- A token that matters together with the one behind it. -/
theorem expectLooking {kind : Kind} (plain : kind ≠ .endOfFile ∧ kind ≠ .keyword .joinKw) :
    Rereads calm exact Agree (fun _ => Agree) [] (Step.expect kind) (Step.expect kind)
      Token.word (fun token => [token.word]) := by
  intro parser value later ran quiet
  obtain ⟨added, whole, reread⟩ := expectBoth Agree plain ran quiet
  obtain ⟨here, rfl, rfl⟩ := expect_ok ran
  cases whole
  refine ⟨_, rfl, reread.quiet, reread.normal, reread.passed, reread.tally, ?_, reread.again⟩
  intro rest follows
  rw [(passes quiet (by rw [here]; exact plain)).2.2.2.2, List.map_singleton, Token.kind_word]
  exact follows.cons

theorem symbol (sign : Symbol) {behind : List Kind → List Kind → Prop}
    (alone : (Kind.symbol sign).looksOn = false) :
    Rereads calm exact Agree (fun _ => behind) [] (expectSymbol sign) (expectSymbol sign)
      Token.word (fun _ => [.symbol sign]) :=
  (expect behind (by simp) alone).writtenAs fun ran => by
    obtain ⟨here, rfl, -⟩ := expect_ok ran
    rw [Token.word_of_symbol here]

theorem symbolBoth (sign : Symbol) {behind : List Kind → List Kind → Prop} :
    Rereads calm exact (BothStart (.symbol sign)) (fun _ => behind) [] (expectSymbol sign)
      (expectSymbol sign) Token.word (fun _ => [.symbol sign]) :=
  (expectBoth behind (by simp)).writtenAs fun ran => by
    obtain ⟨here, rfl, -⟩ := expect_ok ran
    rw [Token.word_of_symbol here]

theorem symbolLooking (sign : Symbol) :
    Rereads calm exact Agree (fun _ => Agree) [] (expectSymbol sign) (expectSymbol sign)
      Token.word (fun _ => [.symbol sign]) :=
  (expectLooking (by simp)).writtenAs fun ran => by
    obtain ⟨here, rfl, -⟩ := expect_ok ran
    rw [Token.word_of_symbol here]

theorem keyword (reserved : Keyword) {behind : List Kind → List Kind → Prop}
    (plain : reserved ≠ .joinKw ∧ reserved ≠ .nativeKw) :
    Rereads calm exact Agree (fun _ => behind) [] (expectKeyword reserved)
      (expectKeyword reserved) Token.word (fun _ => [.keyword reserved]) :=
  (expect behind (by simp [plain.1]) (by simp [Kind.looksOn, plain.2])).writtenAs fun ran => by
    obtain ⟨here, rfl, -⟩ := expect_ok ran
    rw [Token.word_of_keyword here]

theorem text {kind : Kind} {behind : List Kind → List Kind → Prop} (plain : kind ≠ .endOfFile ∧ kind ≠ .keyword .joinKw)
    (alone : kind.looksOn = false)
    (free : ∀ lexeme, Word.normal ⟨kind, lexeme⟩ = ⟨kind, lexeme⟩) :
    Rereads calm exact Agree (fun _ => behind) [] (Step.expect kind) (Step.expect kind)
      Token.lexeme (fun token => [⟨kind, token.lexeme⟩]) := by
  have word {token : Token} (here : token.kind = kind) : token.word = ⟨kind, token.lexeme⟩ := by
    rw [Token.word, here, free]
  intro parser value later ran quiet
  obtain ⟨added, whole, reread⟩ := expect behind plain alone ran quiet
  obtain ⟨here, rfl, -⟩ := expect_ok ran
  refine ⟨added, whole ▸ congrArg (fun word => [word]) (word here).symm, reread.quiet,
    reread.normal, reread.passed, reread.tally, reread.front, ?_⟩
  intro other rest calmOther ahead follows
  obtain ⟨token, last, ranOther, calmLast, same, aheadLast⟩ :=
    reread.again other rest calmOther ahead follows
  refine ⟨token, last, ranOther, calmLast, ?_, aheadLast⟩
  obtain ⟨hereToo, rfl, -⟩ := expect_ok ranOther
  rw [word here, word hereToo] at same
  exact (Word.mk.inj same).2

theorem identifier : Rereads calm exact Agree (fun _ => Agree) [] expectIdentifier
    expectIdentifier Identifier.erased (fun identifier => [.name identifier]) := by
  intro parser value later ran quiet
  obtain ⟨here, rfl, rfl⟩ := expectIdentifier_ok ran
  obtain ⟨quietHere, normal, passed, tally, kinds⟩ := passes quiet (by rw [here]; simp)
  have word : parser.cursor.peek.word = .name ⟨parser.cursor.peek.lexeme,
      parser.cursor.peek.span⟩ := Token.word_of_identifier here
  rw [word] at normal passed tally
  refine ⟨_, rfl, quietHere, ?_, fun _ => passed, tally, ?_, ?_⟩
  · intro word member
    rw [List.mem_singleton.mp member]
    exact normal
  · intro rest follows
    rw [kinds, here]
    exact follows.cons
  · intro other rest calmOther ahead _
    have hereToo : other.cursor.peek.kind = .identifier := Parser.kind_peek ahead
    have same := Parser.word_peek ahead
    rw [Token.word_of_identifier hereToo] at same
    refine ⟨_, _, expectIdentifier_of_kind hereToo, Calm.advance.mpr calmOther, ?_, ?_⟩
    · exact congrArg (fun text => (⟨text, .nowhere⟩ : Identifier)) (Word.mk.inj same).2
    · rw [Parser.words_advance, ahead]
      rfl

theorem eat? (kind : Kind) [Sees front kind]
    (plain : kind ≠ .endOfFile ∧ kind ≠ .keyword .joinKw) :
    Rereads calm exact front (fun found => if found.isSome then Agree else front) []
      (Step.eat? kind) (Step.eat? kind) (Option.map Token.word)
      (fun found => found.toList.map Token.word) := by
  intro parser value later ran quiet
  by_cases here : parser.cursor.peek.kind = kind
  · rw [eat?_of_kind here] at ran
    cases ran
    have reads : Rereads calm exact Agree (fun _ => Agree) [] (Step.expect kind)
        (Step.expect kind) Token.word (fun token => [token.word]) := expectLooking plain
    obtain ⟨added, whole, reread⟩ := reads (expect_of_kind here) quiet
    cases whole
    refine ⟨_, rfl, reread.quiet, reread.normal, reread.passed, reread.tally,
      fun rest follows => Sees.of_agree kind (reread.front rest follows), ?_⟩
    intro other rest calmOther ahead follows
    obtain ⟨token, last, ranOther, calmLast, same, aheadLast⟩ :=
      reread.again other rest calmOther ahead follows
    obtain ⟨hereToo, rfl, rfl⟩ := expect_ok ranOther
    exact ⟨_, _, eat?_of_kind hereToo, calmLast, congrArg some same, aheadLast⟩
  · rw [eat?_of_other here] at ran
    cases ran
    refine ⟨[], rfl, quiet, by simp, fun _ => rfl, .refl _, fun _ follows => follows, ?_⟩
    intro other rest calmOther ahead follows
    have otherToo : other.cursor.peek.kind ≠ kind := by
      have same : front parser.cursor.kinds (rest.map Word.kind) := follows
      rw [← List.nil_append rest, ← ahead, ← other.kinds_eq] at same
      exact fun found => here ((kind_peek_iff plain.1).mpr
        (Sees.head_of same ((kind_peek_iff plain.1).mp found)))
    exact ⟨_, _, eat?_of_other otherToo, calmOther, rfl, ahead⟩

theorem eat?_ok {kind : Kind} {parser later : Parser} {token : Token}
    (ran : Step.eat? kind parser = .ok (some token) later) : token.kind = kind := by
  by_cases here : parser.cursor.peek.kind = kind
  · rw [eat?_of_kind here] at ran
    cases ran
    exact here
  · rw [eat?_of_other here] at ran
    cases ran

theorem ofEat? {kind : Kind} [Sees front kind] {word : Word} {behind : α → List Kind → List Kind → Prop}
    {next nextAgain : Option Token → Step α} {erased : α → ε} {written : α → List Word}
    (plain : kind ≠ .endOfFile ∧ kind ≠ .keyword .joinKw) (only : ∀ token : Token, token.kind = kind → token.word = word)
    (absent : Rereads calm exact front behind before (next none) (nextAgain none) erased written)
    (present : ∀ token other, Rereads calm exact Agree behind (before ++ [word])
      (next (some token)) (nextAgain (some other)) erased written) :
    Rereads calm exact front behind before (Step.eat? kind >>= next) (Step.eat? kind >>= nextAgain)
      erased written := by
  refine (eat? kind plain).bindOf fun found other ran same => ?_
  cases found with
  | none =>
      cases other with
      | none => exact absent.from_ (List.append_nil before).symm
      | some _ => cases same
  | some token =>
      cases other with
      | none => cases same
      | some other =>
          obtain ⟨_, _, ran⟩ := ran
          exact (present token other).from_ (by simp [only token (eat?_ok ran)])

omit [Calm calm] in
theorem eat_bind (kind : Kind) (next : Bool → Step β) :
    Step.eat kind >>= next = Step.eat? kind >>= fun found => next found.isSome := by
  funext parser
  by_cases here : parser.cursor.peek.kind = kind
  · rw [bind_of_ok (eat_of_kind here), bind_of_ok (eat?_of_kind here)]
    rfl
  · rw [bind_of_ok (eat_of_other here), bind_of_ok (eat?_of_other here)]
    rfl

theorem ofEat {kind : Kind} [Sees front kind] {word : Word} {behind : α → List Kind → List Kind → Prop}
    {left leftAgain right rightAgain : Step α} {erased : α → ε} {written : α → List Word}
    (plain : kind ≠ .endOfFile ∧ kind ≠ .keyword .joinKw) (only : ∀ token : Token, token.kind = kind → token.word = word)
    (onTrue : Rereads calm exact Agree behind (before ++ [word]) left leftAgain erased written)
    (onFalse : Rereads calm exact front behind before right rightAgain erased written) :
    Rereads calm exact front behind before (do if ← Step.eat kind then left else right)
      (do if ← Step.eat kind then leftAgain else rightAgain) erased written := by
  rw [eat_bind, eat_bind]
  exact ofEat? plain only onFalse fun _ _ => onTrue

theorem token {step again : Step α} {erased : α → ε} {written : α → List Word}
    (meaning meaningAgain : Token → Option α)
    (takes : ∀ {parser value later}, step parser = .ok value later →
      meaning parser.cursor.peek = some value ∧ later = parser.advance)
    (takesAgain : ∀ {parser value}, meaningAgain parser.cursor.peek = some value →
      again parser = .ok value parser.advance)
    (means : ∀ {token value}, meaning token = some value →
      (token.kind ≠ .endOfFile ∧ token.kind ≠ .keyword .joinKw) ∧ written value = before ++ [token.word] ∧
        ∀ other : Token, other.word = token.word →
          ∃ same, meaningAgain other = some same ∧ erased same = erased value) :
    Rereads calm exact Agree (fun _ => Agree) before step again erased written := by
  intro parser value later ran quiet
  obtain ⟨meant, rfl⟩ := takes ran
  obtain ⟨plain, whole, sameMeaning⟩ := means meant
  obtain ⟨quietHere, normal, passed, tally, kinds⟩ := passes quiet plain
  refine ⟨[parser.cursor.peek.word], whole, quietHere, ?_, fun _ => passed, tally, ?_, ?_⟩
  · intro word member
    rw [List.mem_singleton.mp member]
    exact normal
  · intro rest follows
    rw [kinds, List.map_singleton, Token.kind_word]
    exact follows.cons
  · intro other rest calmOther ahead _
    obtain ⟨same, meantAgain, sameValue⟩ := sameMeaning _ (Parser.word_peek ahead)
    refine ⟨same, _, takesAgain meantAgain, Calm.advance.mpr calmOther, sameValue, ?_⟩
    rw [Parser.words_advance, ahead]
    rfl

theorem eatKeyword (reserved : Keyword) (notJoin : reserved ≠ .joinKw) :
    Rereads calm exact Agree (fun _ => Agree) [] (Step.eat (.keyword reserved))
      (Step.eat (.keyword reserved)) id (fun found => if found then [.keyword reserved] else []) := by
  have known : Rereads calm exact Agree (fun _ => Agree) [] (Step.eat? (.keyword reserved))
      (Step.eat? (.keyword reserved)) (Option.map Token.word)
      (fun found => if found.isSome then [.keyword reserved] else []) := by
    refine ((eat? (.keyword reserved) (by simp [notJoin])).strengthenBehind ?_).writtenAs ?_
    · intro found _ _ agree
      cases found <;> exact agree
    · intro _ found _ ran
      cases found with
      | none => rfl
      | some token =>
          exact congrArg (fun word => [word]) (Token.word_of_keyword (eat?_ok ran)).symm
  refine known.mapped (fun _ => rfl) fun found other same => ?_
  cases found <;> cases other <;> first | rfl | cases same

/-! ### Optional parts -/

omit [Calm calm] in
theorem ifAt {kind : Kind} [Sees front kind] {behind : List Kind → List Kind → Prop}
    {part : Step α} {erased : α → ε} {written : α → List Word} (notEnd : kind ≠ .endOfFile)
    (weaker : ∀ left right, behind left right → front left right)
    (reads : Rereads calm exact Agree (fun _ => behind) [] part part erased written) :
    Rereads calm exact front (fun _ => behind) [] (Step.ifAt kind part) (Step.ifAt kind part)
      (Option.map erased) (Word.behind [] written) := by
  refine ofCheck notEnd ?_ ((pure rfl rfl).weakenFront weaker)
  exact reads.mapped (fun _ => rfl) fun _ _ same => congrArg some same

theorem ifBehind {kind : Kind} [Sees front kind] {word : Word}
    {behind : List Kind → List Kind → Prop} {part : Step α} {erased : α → ε}
    {written : α → List Word} (plain : kind ≠ .endOfFile ∧ kind ≠ .keyword .joinKw)
    (only : ∀ token : Token, token.kind = kind → token.word = word)
    (weaker : ∀ left right, behind left right → front left right)
    (reads : Rereads calm exact Agree (fun _ => behind) [] part part erased written) :
    Rereads calm exact front (fun _ => behind) [] (Step.ifBehind kind part)
      (Step.ifBehind kind part) (Option.map erased) (Word.behind [word] written) :=
  ofEat plain only (reads.bind fun _ _ same => pure rfl (congrArg some same))
    ((pure rfl rfl).weakenFront weaker)

theorem ifBehindSymbol (sign : Symbol) [Sees front (.symbol sign)]
    {behind : List Kind → List Kind → Prop} {part : Step α} {erased : α → ε}
    {written : α → List Word} (weaker : ∀ left right, behind left right → front left right)
    (reads : Rereads calm exact Agree (fun _ => behind) [] part part erased written) :
    Rereads calm exact front (fun _ => behind) [] (Step.ifBehind (.symbol sign) part)
      (Step.ifBehind (.symbol sign) part) (Option.map erased)
      (Word.behind [.symbol sign] written) :=
  ifBehind (by simp) (fun _ => Token.word_of_symbol) weaker reads

theorem ifBehindKeyword (reserved : Keyword) [Sees front (.keyword reserved)]
    {behind : List Kind → List Kind → Prop} {part : Step α} {erased : α → ε}
    {written : α → List Word} (notJoin : reserved ≠ .joinKw)
    (weaker : ∀ left right, behind left right → front left right)
    (reads : Rereads calm exact Agree (fun _ => behind) [] part part erased written) :
    Rereads calm exact front (fun _ => behind) [] (Step.ifBehind (.keyword reserved) part)
      (Step.ifBehind (.keyword reserved) part) (Option.map erased)
      (Word.behind [.keyword reserved] written) :=
  ifBehind (by simp [notJoin]) (fun _ => Token.word_of_keyword) weaker reads

/-! ### Repeating -/

end Consuming

def decided (erased : σ → ε) : ForInStep σ → ForInStep ε
  | .done state => .done (erased state)
  | .yield state => .yield (erased state)

def soFar (between final : σ → List Word) : ForInStep σ → List Word
  | .done state => final state
  | .yield state => between state

/-- What may stand behind a turn: what may stand before the next one, or behind all. -/
def behindTurn (front behind : List Kind → List Kind → Prop) :
    ForInStep σ → List Kind → List Kind → Prop
  | .done _ => behind
  | .yield _ => front

section Turns

variable {behind : List Kind → List Kind → Prop} {erased : σ → ε} {between final : σ → List Word}
  {state other : σ}

theorem done (whole : final state = before) (same : erased other = erased state) :
    Rereads calm exact behind (behindTurn front behind) before (Pure.pure (.done state))
      (Pure.pure (.done other)) (decided erased) (soFar between final) := by
  change Rereads calm exact (behindTurn front behind (.done state)) _ _ _ _ _ _
  exact pureOf whole (congrArg ForInStep.done same)

theorem yield (whole : between state = before) (same : erased other = erased state) :
    Rereads calm exact front (behindTurn front behind) before (Pure.pure (.yield state))
      (Pure.pure (.yield other)) (decided erased) (soFar between final) := by
  change Rereads calm exact (behindTurn front behind (.yield state)) _ _ _ _ _ _
  exact pureOf whole (congrArg ForInStep.yield same)

theorem yielded {first : List Kind → List Kind → Prop} {step again : Step σ}
    (reads : Rereads calm exact first (fun _ => front) before step again erased between) :
    Rereads calm exact first (behindTurn front behind) before (do return .yield (← step))
      (do return .yield (← again)) (decided erased) (soFar between final) :=
  mappedOf reads (fun _ => rfl) fun _ _ same => congrArg ForInStep.yield same

end Turns

/-- A loop whose states have a property that no turn takes away. -/
theorem loopOf {turn : σ → Step (ForInStep σ)} {behind : List Kind → List Kind → Prop}
    {erased : σ → ε} {between final : σ → List Word} {holds : σ → Prop}
    (advancing : Advancing turn)
    (kept : ∀ {state parser next later}, holds state →
      turn state parser = .ok (.yield next) later → holds next)
    (turns : ∀ state other, holds state → holds other → erased other = erased state →
      Rereads calm exact front (behindTurn front behind) (between state) (turn state)
        (turn other) (decided erased) (soFar between final))
    (state other : σ) (start : holds state) (startAgain : holds other)
    (same : erased other = erased state) :
    Rereads calm exact front (fun _ => behind) (between state) (Step.loop turn state)
      (Step.loop turn other) erased final := by
  intro parser result later ran quiet
  rcases loop_ok ran with ranTurn | ⟨next, middle, ranTurn, ⟨shorter, ranRest⟩ | ⟨still, -, -⟩⟩
  · obtain ⟨added, whole, reread⟩ := turns state other start startAgain same ranTurn quiet
    refine ⟨added, whole, reread.quiet, reread.normal, reread.passed, reread.tally, reread.front, ?_⟩
    intro again rest calmAgain ahead follows
    obtain ⟨decision, last, ranAgain, calmLast, sameDecision, aheadLast⟩ :=
      reread.again again rest calmAgain ahead follows
    cases decision with
    | done final =>
        exact ⟨final, last, loop_of_done ranAgain, calmLast, ForInStep.done.inj sameDecision,
          aheadLast⟩
    | yield next => cases sameDecision
  · -- The value of the turn is needed before the rest can be read again from it.
    obtain ⟨second, wholeRest, rereadRest⟩ :=
      loopOf advancing kept turns next next (kept start ranTurn) (kept start ranTurn) rfl ranRest quiet
    obtain ⟨added, whole, reread⟩ := turns state other start startAgain same ranTurn rereadRest.quiet
    have wholeNext : between next = between state ++ added := whole
    refine ⟨added ++ second, ?_, ?_⟩
    · rw [wholeRest, wholeNext, List.append_assoc]
    refine ⟨reread.quiet, ?_, ?_, ?_, ?_, ?_⟩
    · intro word member
      rcases List.mem_append.mp member with member | member
      · exact reread.normal word member
      · exact rereadRest.normal word member
    · intro inOrder
      rw [reread.passed inOrder, rereadRest.passed inOrder, List.append_assoc]
    · rw [List.map_append, List.append_assoc]
      exact reread.tally.trans (rereadRest.tally.append_left _)
    · intro rest follows
      rw [List.map_append, List.append_assoc]
      exact reread.front _ (rereadRest.front rest follows)
    · intro again rest calmAgain ahead follows
      rw [List.append_assoc] at ahead
      obtain ⟨decision, between', ranAgain, calmBetween, sameDecision, aheadBetween⟩ :=
        reread.again again (second ++ rest) calmAgain ahead
          (by rw [List.map_append]; exact rereadRest.front _ follows)
      cases decision with
      | done final => cases sameDecision
      | yield nextAgain =>
          obtain ⟨secondAgain, wholeAgain, rereadAgain⟩ :=
            loopOf advancing kept turns next nextAgain (kept start ranTurn) (kept startAgain ranAgain)
              (ForInStep.yield.inj sameDecision) ranRest quiet
          obtain rfl : secondAgain = second :=
            List.append_cancel_left (wholeAgain.symm.trans wholeRest)
          obtain ⟨value, last, ranLast, calmLast, sameValue, aheadLast⟩ :=
            rereadAgain.again between' rest calmBetween aheadBetween follows
          exact ⟨value, last, (loop_of_yield ranAgain (advancing _ _ _ _ ranAgain)).trans ranLast,
            calmLast, sameValue, aheadLast⟩
  · exact absurd (advancing _ _ _ _ ranTurn) still
termination_by parser => parser.cursor.remaining

theorem loop {turn : σ → Step (ForInStep σ)} {behind : List Kind → List Kind → Prop}
    {erased : σ → ε} {between final : σ → List Word} (advancing : Advancing turn)
    (turns : ∀ state other, erased other = erased state →
      Rereads calm exact front (behindTurn front behind) (between state) (turn state)
        (turn other) (decided erased) (soFar between final))
    (state other : σ) (same : erased other = erased state) :
    Rereads calm exact front (fun _ => behind) (between state) (Step.loop turn state)
      (Step.loop turn other) erased final :=
  loopOf advancing (fun _ _ => trivial) (fun state other _ _ => turns state other) state other
    trivial trivial same

theorem whileAt {kind : Kind} [Sees front kind] {item : Step α} {erased : α → ε}
    {written : α → List Word} (notEnd : kind ≠ .endOfFile)
    (advancing : Advancing (nextAt kind item))
    (reads : Rereads calm exact Agree (fun _ => front) [] item item erased written) :
    Rereads calm exact front (fun _ => front) [] (Step.whileAt kind item)
      (Step.whileAt kind item) (List.map erased) (fun items => items.flatMap written) := by
  have turns (items others : List α) (sameItems : others.map erased = items.map erased) :
      Rereads calm exact front (behindTurn front front) (items.flatMap written)
        (nextAt kind item items) (nextAt kind item others) (decided (List.map erased))
        (soFar (fun items => items.flatMap written) (fun items => items.flatMap written)) := by
    refine .ofCheck notEnd ?_ (done rfl sameItems)
    refine reads.bind fun value other same => yield ?_ ?_
    · rw [List.flatMap_append, List.flatMap_singleton]
    · rw [List.map_append, List.map_append, sameItems, List.map_singleton, List.map_singleton,
        same]
  exact loop advancing turns [] [] rfl

/-! ### Lists -/

section Lists

variable [Calm calm]

def withCommas (written : α → List Word) (items : List α) : List Word :=
  items.flatMap fun item => written item ++ [.symbol .comma]

theorem listed_append (written : α → List Word) (items : List α) (last : α) :
    Word.listed ((items ++ [last]).map written) = withCommas written items ++ written last := by
  induction items with
  | nil => simp [Word.listed, withCommas]
  | cons item items ih =>
      cases items with
      | nil => simp [Word.listed, withCommas]
      | cons next others =>
          have behindFirst : Word.listed ((item :: next :: others ++ [last]).map written) =
              written item ++ .symbol .comma ::
                Word.listed ((next :: others ++ [last]).map written) := by
            simp [Word.listed]
          rw [behindFirst, ih]
          simp [withCommas]

theorem commaSeparated {item : Step α} {erased : α → ε} {written : α → List Word}
    (orderly : Orderly (fun _ => True) item)
    (reads : Rereads calm exact Agree (fun _ => Agree) [] item item erased written) :
    Rereads calm exact Agree (fun _ => Agree) [] (Step.commaSeparated item)
      (Step.commaSeparated item) (List.map erased) (fun items => Word.listed (items.map written)) := by
  have turns (items others : List α) (sameItems : others.map erased = items.map erased) :
      Rereads calm exact Agree (behindTurn Agree Agree) (withCommas written items)
        (nextListed item items) (nextListed item others) (decided (List.map erased))
        (soFar (withCommas written) (fun items => Word.listed (items.map written))) := by
    refine reads.bind fun value other same => ?_
    have sameList : (others ++ [other]).map erased = (items ++ [value]).map erased := by
      rw [List.map_append, List.map_append, sameItems, List.map_singleton, List.map_singleton, same]
    refine .ofEat (by simp) (fun _ => Token.word_of_symbol) (yield ?_ sameList) (done ?_ sameList)
    · simp [withCommas]
    · exact listed_append written items value
  exact loop (advancing_of_turn (.nextListed orderly)) turns [] [] rfl

theorem closedList {close : Symbol} {item : Step α} {erased : α → ε} {written : α → List Word}
    {behind : List Kind → List Kind → Prop} (alone : (Kind.symbol close).looksOn = false)
    (orderly : Orderly (fun _ => True) item)
    (reads : Rereads calm exact Agree (fun _ => Agree) [] item item erased written) :
    Rereads calm exact Agree (fun _ => behind) [] (Step.closedList close item)
      (Step.closedList close item) (fun result => result.1.map erased)
      (fun result => Word.listed (result.1.map written) ++ [.symbol close]) := by
  have inside : Rereads calm exact Agree (fun _ => Agree) [] (listBefore close item)
      (listBefore close item) (List.map erased) (fun items => Word.listed (items.map written)) :=
    ofCheck (by simp) (pure rfl rfl) (commaSeparated orderly reads)
  refine inside.bind fun items others same => ?_
  exact (symbol close alone).bind fun _ _ _ => pure rfl same

end Lists

end Rereads

end Step

end ServiceLang
