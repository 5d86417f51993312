import ServiceLang.Proofs.Margins

set_option autoImplicit false

/-! Steps of two parses with different margins. The rules for what stands inside a statement
or a signature report nothing and leave off at the first error; those for statements, bodies
and definitions report and go on. Both take the same course on both sides, unless the first
parse is refused a level: then its step fails with that, or has reported it already. -/

namespace ServiceLang

open Step

namespace Margins

variable {α β γ σ : Type} {margins : Margins} {place : Cursor} {footing : Footing}

/-- What two steps come to that started at a place: the same value, errors that stand for each
other, or a refusal of the first one that has not been reported yet. -/
inductive Outcomes (margins : Margins) (place : Cursor) (holds : Parser → α → Prop) :
    EStateM.Result Diagnostic Parser α → EStateM.Result Diagnostic Parser α → Prop
  | ok {value : α} {later other : Parser} (twins : margins.Twins later other)
      (onwards : place.Onwards later.cursor) (here : holds later value) :
      Outcomes margins place holds (.ok value later) (.ok value other)
  | error {diagnostic second : Diagnostic} {later other : Parser}
      (tells : margins.Says diagnostic second) (twins : margins.Twins later other)
      (onwards : place.Onwards later.cursor) (on : later.On .loose)
      (reaches : later.cursor.Reaches diagnostic.span.start) :
      Outcomes margins place holds (.error diagnostic later) (.error second other)
  | refused {diagnostic : Diagnostic} {later : Parser}
      {right : EStateM.Result Diagnostic Parser α} (deeper : margins.extra ≠ 0)
      (unlimited : later.Unlimited) (isNew : ¬later.Repeats diagnostic)
      (refusal : diagnostic.problem = .nestingTooDeep) :
      Outcomes margins place holds (.error diagnostic later) right

namespace Outcomes

variable {holds : Parser → α → Prop}

theorem weaken {known : Parser → α → Prop} {left right : EStateM.Result Diagnostic Parser α}
    (outcomes : margins.Outcomes place known left right)
    (weaker : ∀ later value, known later value → holds later value) :
    margins.Outcomes place holds left right := by
  cases outcomes with
  | ok twins onwards here => exact .ok twins onwards (weaker _ _ here)
  | error tells twins onwards on reaches => exact .error tells twins onwards on reaches
  | refused deeper unlimited isNew refusal => exact .refused deeper unlimited isNew refusal

theorem behind {there : Cursor} {left right : EStateM.Result Diagnostic Parser α}
    (order : place.Onwards there) (outcomes : margins.Outcomes there holds left right) :
    margins.Outcomes place holds left right := by
  cases outcomes with
  | ok twins onwards here => exact .ok twins (order.trans onwards) here
  | error tells twins onwards on reaches =>
      exact .error tells twins (order.trans onwards) on reaches
  | refused deeper unlimited isNew refusal => exact .refused deeper unlimited isNew refusal

end Outcomes

/-- Steps that read the same on both sides from a place on, and report nothing. -/
def Inner (margins : Margins) (place : Cursor) (footing : Footing) (left right : Step α)
    (lies : Cursor → α → Prop) : Prop :=
  ∀ ⦃parser other : Parser⦄, margins.Twins parser other → parser.cursor = place →
    parser.On footing →
    margins.Outcomes place (fun later value => later.On .firm ∧ lies later.cursor value)
      (left parser) (right other)

/-- Steps that read the same on both sides from a place on, and report the same, unless a
refusal of the first one has been reported. -/
def Outer (margins : Margins) (place : Cursor) (footing : Footing) (left right : Step α)
    (lies : Cursor → α → Prop) : Prop :=
  ∀ ⦃parser other : Parser⦄, margins.Twins parser other → parser.cursor = place →
    parser.On footing →
    margins.Outcomes place (fun later value => later.On .loose ∧ lies later.cursor value)
        (left parser) (right other) ∨
      margins.extra ≠ 0 ∧ (after left parser).HasRefusal

abbrev Anything (_ : Cursor) (_ : α) : Prop :=
  True

abbrev Behind (span : α → Span) (place : Cursor) (value : α) : Prop :=
  (span value).start < place.offset

abbrev Same (margins : Margins) (left right : Step α) : Prop :=
  ∀ place, margins.Inner place .firm left right Anything

abbrev SameNode (margins : Margins) (span : α → Span) (left right : Step α) : Prop :=
  ∀ place, margins.Inner place .firm left right (Behind span)

theorem start_merge_lt {left right : Span} {offset : Nat} (behind : right.start < offset) :
    (left.merge right).start < offset := by
  rw [Span.merge_start]
  exact Nat.lt_of_le_of_lt (Nat.min_le_right _ _) behind

theorem start_spanFrom_lt {start : Span} {offset : Nat} (place : Cursor)
    (behind : start.start < offset) : (place.spanFrom start).start < offset := by
  rw [Cursor.spanFrom]
  split
  · rw [Span.merge_start]
    exact Nat.lt_of_le_of_lt (Nat.min_le_left _ _) behind
  · exact behind

/-! ### Tokens -/

structure Tokens (margins : Margins) (token other : Token) : Prop where
  kind : other.kind = token.kind
  spans : margins.Spans token.span other.span
  same : token.kind ≠ .endOfFile → other = token

theorem Tokens.error {token other : Token} (tokens : margins.Tokens token other)
    (problem : Problem) (message : Kind → String) :
    margins.Says (.error problem token.span (message token.kind))
      (.error problem other.span (message other.kind)) := by
  rw [tokens.kind]
  exact tokens.spans.error problem _

theorem Tokens.wrongToken {token other : Token} (tokens : margins.Tokens token other)
    (wanted : String) :
    margins.Says (Step.wrongToken token wanted) (Step.wrongToken other wanted) := by
  rw [Step.wrongToken, Step.wrongToken, tokens.kind]
  split
  · exact tokens.spans.error _ _
  · exact tokens.spans.error _ _

theorem start_wrongToken (token : Token) (wanted : String) :
    (Step.wrongToken token wanted).span = token.span := by
  rw [Step.wrongToken]
  split <;> rfl

theorem Places.tokens_peekNth {left right : Cursor} (places : margins.Places left right)
    {count : Nat} (inside : count ≤ left.remaining) :
    margins.Tokens (left.peekNth count) (right.peekNth count) := by
  refine ⟨places.kindNth count, places.spans_peekNth inside, fun notEnd => ?_⟩
  refine places.peekNth_eq (Nat.lt_of_le_of_ne inside fun last => notEnd ?_)
  have behind : left.ahead[count]? = none := List.getElem?_eq_none (Nat.le_of_eq last.symm)
  rw [Cursor.peekNth, behind]
  exact left.final_isEnd

theorem Places.tokens {left right : Cursor} (places : margins.Places left right) :
    margins.Tokens left.peek right.peek := by
  rw [Cursor.peek_eq_peekNth, Cursor.peek_eq_peekNth]
  exact places.tokens_peekNth (Nat.zero_le _)

/-! ### Looking -/

def Sees (margins : Margins) (place : Cursor) (look : Step γ) (seen : γ) : Prop :=
  ∀ ⦃parser other : Parser⦄, margins.Twins parser other → parser.cursor = place →
    look parser = .ok seen parser ∧ look other = .ok seen other

theorem sees_current : margins.Sees place current place.peek.kind := by
  rintro parser other twins rfl
  refine ⟨rfl, ?_⟩
  rw [current_eq, twins.places.kind]

theorem sees_check (kind : Kind) : margins.Sees place (check kind) (place.peek.kind == kind) := by
  rintro parser other twins rfl
  refine ⟨rfl, ?_⟩
  rw [check_eq, twins.places.kind]

theorem sees_kindNth (count : Nat) :
    margins.Sees place (kindNth count) (place.peekNth count).kind := by
  rintro parser other twins rfl
  refine ⟨rfl, ?_⟩
  rw [kindNth_eq, twins.places.kindNth]

theorem sees_spanFrom (start : Span) :
    margins.Sees place (Step.spanFrom start) (place.spanFrom start) := by
  rintro parser other twins rfl
  refine ⟨rfl, ?_⟩
  rw [spanFrom_eq, twins.places.spanFrom]

theorem sees_isInvocation : margins.Sees place isInvocation (startsInvocation place.kinds) := by
  rintro parser other twins rfl
  refine ⟨rfl, ?_⟩
  rw [isInvocation_eq, twins.places.kinds]

theorem sees_isJoinCondition :
    margins.Sees place isJoinCondition (startsJoinCondition place.kinds) := by
  rintro parser other twins rfl
  refine ⟨rfl, ?_⟩
  rw [isJoinCondition_eq, twins.places.kinds]

theorem sees_isVarDef :
    margins.Sees place isVarDef (startsVarDef (margins.depth + 1) place.kinds) := by
  rintro parser other twins rfl
  rw [isVarDef_eq, isVarDef_eq, twins.startsVarDef, twins.maxDepth]
  exact ⟨rfl, rfl⟩

theorem sees_isCast : margins.Sees place isCast (startsCast (margins.depth + 1) place.kinds) := by
  rintro parser other twins rfl
  rw [isCast_eq, isCast_eq, twins.startsCast, twins.maxDepth]
  exact ⟨rfl, rfl⟩

/-! ### Rules that report nothing -/

namespace Inner

variable {lies : Cursor → α → Prop}

theorem weaken {left right : Step α} {known : Cursor → α → Prop}
    (here : margins.Inner place footing left right known)
    (weaker : ∀ there value, known there value → lies there value) :
    margins.Inner place footing left right lies := by
  intro parser other twins same on
  exact (here twins same on).weaken fun later value isValue =>
    ⟨isValue.1, weaker _ _ isValue.2⟩

theorem pure {value : α} (here : lies place value) :
    margins.Inner place .firm (Pure.pure value) (Pure.pure value) lies := by
  rintro parser other twins rfl on
  exact .ok twins (.refl _) ⟨on, here⟩

theorem bindWith {first second : Step α} {next further : α → Step β} {lies : Cursor → β → Prop}
    {known : Cursor → α → Prop} (here : margins.Inner place footing first second known)
    (behind : ∀ there value, place.Onwards there → known there value →
      margins.Inner there .firm (next value) (further value) lies) :
    margins.Inner place footing (first >>= next) (second >>= further) lies := by
  intro parser other twins same on
  have outcomes := here twins same on
  generalize ran : first parser = left at outcomes
  generalize otherRan : second other = right at outcomes
  cases outcomes with
  | ok twins onwards here =>
      rw [bind_of_ok ran, bind_of_ok otherRan]
      exact .behind onwards (behind _ _ onwards here.2 twins rfl here.1)
  | error tells twins onwards on reaches =>
      rw [bind_of_error ran, bind_of_error otherRan]
      exact .error tells twins onwards on reaches
  | refused deeper unlimited isNew refusal =>
      rw [bind_of_error ran]
      exact .refused deeper unlimited isNew refusal

theorem bind {first second : Step α} {next further : α → Step β} {lies : Cursor → β → Prop}
    {known : Cursor → α → Prop} (here : margins.Inner place footing first second known)
    (behind : ∀ there value, margins.Inner there .firm (next value) (further value) lies) :
    margins.Inner place footing (first >>= next) (second >>= further) lies :=
  here.bindWith fun there value _ _ => behind there value

theorem mapped {left right : Step α} {make : α → β} {lies : Cursor → β → Prop}
    {known : Cursor → α → Prop} (here : margins.Inner place footing left right known)
    (made : ∀ there value, known there value → lies there (make value)) :
    margins.Inner place footing (left >>= fun value => Pure.pure (make value))
      (right >>= fun value => Pure.pure (make value)) lies :=
  here.bindWith fun there value _ isValue => .pure (made there value isValue)

theorem look {look : Step γ} {seen : γ} {next further : γ → Step α}
    (sees : margins.Sees place look seen)
    (behind : margins.Inner place footing (next seen) (further seen) lies) :
    margins.Inner place footing (look >>= next) (look >>= further) lies := by
  intro parser other twins same on
  obtain ⟨left, right⟩ := sees twins same
  rw [look_bind left, look_bind right]
  exact behind twins same on

theorem ite {condition : Prop} [Decidable condition] {left right left' right' : Step α}
    (onTrue : condition → margins.Inner place footing left right lies)
    (onFalse : ¬condition → margins.Inner place footing left' right' lies) :
    margins.Inner place footing (if condition then left else left')
      (if condition then right else right') lies := by
  split
  · exact onTrue ‹_›
  · exact onFalse ‹_›

theorem peek {next further : Token → Step α}
    (behind : ∀ other, margins.Tokens place.peek other →
      margins.Inner place footing (next place.peek) (further other) lies) :
    margins.Inner place footing (Step.peek >>= next) (Step.peek >>= further) lies := by
  rintro parser other twins rfl on
  rw [look_bind (peek_eq parser), look_bind (peek_eq other)]
  exact behind _ twins.places.tokens twins rfl on

theorem peekInside {next further : Token → Step α} (notEnd : place.peek.kind ≠ .endOfFile)
    (behind : margins.Inner place footing (next place.peek) (further place.peek) lies) :
    margins.Inner place footing (Step.peek >>= next) (Step.peek >>= further) lies :=
  peek fun _ tokens => by rwa [tokens.same notEnd]

theorem spanned (start : Span) {make : Span → α} (made : lies place (make (place.spanFrom start))) :
    margins.Inner place .firm (do return make (← Step.spanFrom start))
      (do return make (← Step.spanFrom start)) lies :=
  .look (sees_spanFrom start) (.pure made)

/-! ### Failing -/

theorem fail {diagnostic other : Diagnostic} (tells : margins.Says diagnostic other)
    (reaches : place.Reaches diagnostic.span.start) :
    margins.Inner place footing (Step.fail diagnostic) (Step.fail other) lies := by
  rintro parser second twins rfl on
  exact .error tells twins (.refl _) on.loosen reaches

theorem failInside {diagnostic : Diagnostic} (isError : diagnostic.isError = true)
    (order : diagnostic.span.start ≤ place.offset)
    (inside : diagnostic.span.start < place.offset ∨ place.peek.kind ≠ .endOfFile) :
    margins.Inner place footing (Step.fail diagnostic) (Step.fail diagnostic) lies := by
  rintro parser other twins rfl on
  refine .error ⟨rfl, .inl ⟨rfl, ?_⟩, isError⟩ twins (.refl _) on.loosen (.upTo order)
  rcases inside with before | notEnd
  · exact Nat.lt_of_lt_of_le before twins.places.offset_le
  · have more := parser.cursor.remaining_pos notEnd
    refine Nat.lt_of_le_of_lt order ?_
    rw [Cursor.offset, Cursor.peek_eq_peekNth, ← twins.places.span_peekNth_remaining]
    exact twins.places.rising 0 _ more (Nat.le_refl _)

theorem wrongToken {other : Token} (tokens : margins.Tokens place.peek other) (wanted : String) :
    margins.Inner place footing (Step.fail (Step.wrongToken place.peek wanted))
      (Step.fail (Step.wrongToken other wanted)) lies :=
  fail (tokens.wrongToken wanted) (.upTo (by rw [start_wrongToken]; exact Nat.le_refl _))

theorem failAt (problem : Problem) (message : Kind → String) :
    margins.Inner place footing
      (Step.failAt fun token => .error problem token.span (message token.kind))
      (Step.failAt fun token => .error problem token.span (message token.kind)) lies := by
  refine peek fun other tokens => ?_
  dsimp only
  rw [tokens.kind]
  by_cases atEnd : place.peek.kind = .endOfFile
  · rw [if_pos atEnd, if_pos atEnd]
    exact fail (tokens.spans.error _ _) (.upTo (Nat.le_refl _))
  · rw [if_neg atEnd, if_neg atEnd]
    exact fail (tokens.spans.error _ _) (.upTo (Nat.le_refl _))

/-- Where the first parse has no level left, it is refused one, or the second one has none
either. From loose ground the refusal might be dropped. -/
theorem tooDeep {right : Step α} (known : footing = .firm ∨ margins.extra = 0)
    (alike : margins.extra = 0 → right = Step.tooDeep) :
    margins.Inner place footing Step.tooDeep right lies := by
  rintro parser other twins rfl on
  have refused (parser : Parser) : (Step.tooDeep : Step α) parser = .error
      (.error .nestingTooDeep parser.cursor.peek.span
        ("nesting exceeds the limit of " ++ toString parser.options.maxDepth)) parser := rfl
  by_cases deeper : margins.extra = 0
  · have sameDepth : other.options.maxDepth = parser.options.maxDepth := by
      rw [twins.otherMaxDepth, twins.maxDepth, deeper, Nat.add_zero]
    rw [alike deeper, refused, refused, sameDepth]
    exact .error (twins.places.spans_peek.error _ _) twins (.refl _) on.loosen
      (.upTo (Nat.le_refl _))
  · obtain rfl := known.resolve_right deeper
    rw [refused]
    refine .refused deeper twins.records.unlimited (fun repeated => ?_) rfl
    exact Nat.lt_irrefl _ (on _ repeated.2)

/-- At the end of file a rule that has to pass over something gives no value. -/
theorem never {left right : Step α} (strict : Strict left) (atEnd : place.peek.kind = .endOfFile)
    {known : Cursor → α → Prop} (here : margins.Inner place footing left right known) :
    margins.Inner place footing left right fun _ _ => False := by
  rintro parser other twins rfl on
  have outcomes := here twins rfl on
  generalize ran : left parser = first at outcomes
  generalize right other = second at outcomes
  cases outcomes with
  | ok twins onwards here =>
      have shorter := strict ran
      rw [Cursor.remaining, Cursor.remaining, parser.cursor.peek_isEnd_iff.mp atEnd] at shorter
      exact absurd shorter (Nat.not_lt_zero _)
  | error tells twins onwards on reaches => exact .error tells twins onwards on reaches
  | refused deeper unlimited isNew refusal => exact .refused deeper unlimited isNew refusal

/-! ### Consuming -/

/-- Passing over any token but the end. The word `native` may only be passed over from firm
ground. -/
theorem advanceInside (notEnd : place.peek.kind ≠ .endOfFile)
    (known : footing = .firm ∨ place.peek.kind ≠ .keyword .nativeKw) :
    margins.Inner place footing Step.advance Step.advance
      fun there token => token = place.peek ∧ there = place.advance ∧
        place.offset < there.offset := by
  rintro parser other twins rfl on
  have more := parser.cursor.remaining_pos notEnd
  have behind := twins.places.rising.offset_lt Nat.one_pos more
  rw [advance_eq, advance_eq, twins.places.peek_eq notEnd]
  refine .ok (twins.moved twins.places.advance) (twins.places.rising.onwards more)
    ⟨?_, rfl, rfl, behind⟩
  rcases known with rfl | notNative
  · exact fun offset member => Nat.lt_trans (on offset member) behind
  · exact on.advance twins.places.rising notEnd fun stray => notNative stray.1

theorem advance {next further : Token → Step α}
    (inside : place.peek.kind ≠ .endOfFile → ∀ there, place.offset < there.offset →
      margins.Inner there .firm (next place.peek) (further place.peek) lies)
    (atEnd : place.peek.kind = .endOfFile → ∀ other, margins.Tokens place.peek other →
      margins.Inner place .firm (next place.peek) (further other) lies) :
    margins.Inner place .firm (Step.advance >>= next) (Step.advance >>= further) lies := by
  by_cases ends : place.peek.kind = .endOfFile
  · rintro parser other twins rfl on
    have still := parser.cursor.advance_of_remaining_zero
      (List.length_eq_zero_iff.mpr (parser.cursor.peek_isEnd_iff.mp ends))
    have otherStill := other.cursor.advance_of_remaining_zero
      (twins.places.remaining.trans
        (List.length_eq_zero_iff.mpr (parser.cursor.peek_isEnd_iff.mp ends)))
    rw [bind_of_ok (advance_eq parser), bind_of_ok (advance_eq other), Parser.advance,
      Parser.advance, still, otherStill]
    exact atEnd ends _ twins.places.tokens twins rfl on
  · refine (advanceInside ends (.inl rfl)).bindWith fun there token _ passed => ?_
    obtain ⟨rfl, -, behind⟩ := passed
    exact inside ends there behind

theorem expect (kind : Kind) (notEnd : kind ≠ .endOfFile) (known : kind ≠ .keyword .nativeKw) :
    margins.Inner place footing (Step.expect kind) (Step.expect kind) (Behind Token.span) := by
  refine .look (sees_check kind) (.ite (fun here => ?_) fun _ => ?_)
  · have here : place.peek.kind = kind := beq_iff_eq.mp here
    refine (advanceInside (here ▸ notEnd) (.inr (here ▸ known))).weaken fun there token passed => ?_
    obtain ⟨rfl, -, behind⟩ := passed
    exact behind
  · exact peek fun other tokens => wrongToken tokens _

theorem symbol (symbol : Symbol) :
    margins.Inner place footing (expectSymbol symbol) (expectSymbol symbol) (Behind Token.span) :=
  expect _ nofun nofun

theorem keyword {word : Keyword} (known : word ≠ .nativeKw) :
    margins.Inner place footing (expectKeyword word) (expectKeyword word) (Behind Token.span) :=
  expect _ nofun fun same => known (Kind.keyword.inj same)

theorem identifier :
    margins.Inner place footing expectIdentifier expectIdentifier (Behind Identifier.span) := by
  refine .look (sees_check _) (.ite (fun here => ?_) fun _ => ?_)
  · have here : place.peek.kind = .identifier := beq_iff_eq.mp here
    refine (advanceInside (here ▸ nofun) (.inr (here ▸ nofun))).mapped fun there token passed => ?_
    obtain ⟨rfl, -, behind⟩ := passed
    exact behind
  · exact failAt .expectedIdentifier fun kind =>
      Diagnostic.wantedFound "identifier" kind.description

theorem eat? (kind : Kind) (notEnd : kind ≠ .endOfFile) :
    margins.Inner place .firm (Step.eat? kind) (Step.eat? kind)
      fun there found => ∀ token ∈ found, token.span.start < there.offset := by
  refine .look (sees_check kind) (.ite (fun here => ?_) fun _ => .pure nofun)
  have here : place.peek.kind = kind := beq_iff_eq.mp here
  refine (advanceInside (here ▸ notEnd) (.inl rfl)).mapped fun there token passed => ?_
  obtain ⟨rfl, -, behind⟩ := passed
  intro token member
  cases member
  exact behind

theorem eat (kind : Kind) (notEnd : kind ≠ .endOfFile) :
    margins.Inner place .firm (Step.eat kind) (Step.eat kind) Anything :=
  (eat? kind notEnd).mapped fun _ _ _ => trivial

/-! ### Repeating -/

/-- By induction on the tokens ahead: what the turns keep holds behind a loop. -/
theorem loop {turn further : σ → Step (ForInStep σ)} {holds : Cursor → σ → Prop}
    (turns : ∀ there state, holds there state →
      margins.Inner there .firm (turn state) (further state)
        fun last decision => holds last decision.value)
    {state : σ}
    (first : margins.Inner place footing (turn state) (further state)
      fun last decision => holds last decision.value) :
    margins.Inner place footing (Step.loop turn state) (Step.loop further state) holds := by
  rintro parser other twins rfl on
  induction less : parser.cursor.remaining using Nat.strongRecOn
    generalizing parser other state footing with
  | ind _ ih =>
    subst less
    have outcomes := first twins rfl on
    generalize ran : turn state parser = left at outcomes
    generalize otherRan : further state other = right at outcomes
    cases outcomes with
    | @ok decision later last twinsLater onwards here =>
        obtain ⟨onLater, here⟩ := here
        have same := twins.places.remaining
        have sameLater := twinsLater.places.remaining
        cases decision with
        | done final =>
            rw [loop_of_done ran, loop_of_done otherRan]
            exact .ok twinsLater onwards ⟨onLater, here⟩
        | yield next =>
            by_cases shorter : later.cursor.remaining < parser.cursor.remaining
            · rw [loop_of_yield ran shorter, loop_of_yield otherRan (by omega)]
              exact .behind onwards (ih _ shorter twinsLater (turns _ next here) onLater rfl)
            · rw [loop_of_still ran shorter, loop_of_still otherRan (by omega)]
              exact .ok twinsLater onwards ⟨onLater, here⟩
    | error tells twins onwards on reaches =>
        rw [loop_of_error ran, loop_of_error otherRan]
        exact .error tells twins onwards on reaches
    | refused deeper unlimited isNew refusal =>
        rw [loop_of_error ran]
        exact .refused deeper unlimited isNew refusal

/-- A loop from firm ground. -/
theorem loopFirm {turn further : σ → Step (ForInStep σ)} {holds : Cursor → σ → Prop}
    (turns : ∀ there state, holds there state →
      margins.Inner there .firm (turn state) (further state)
        fun last decision => holds last decision.value)
    {state : σ} (start : holds place state) :
    margins.Inner place .firm (Step.loop turn state) (Step.loop further state) holds :=
  loop turns (turns place state start)

/-! ### Lists -/

section Lists

variable {left right : Step α} {good : Cursor → α → Prop}
  (lasts : ∀ ⦃there last value⦄, there.Onwards last → good there value → good last value)
  (items : ∀ there, margins.Inner there .firm left right good)

include lasts items

theorem nextListed {list : List α} (goods : ∀ value ∈ list, good place value) :
    margins.Inner place .firm (Step.nextListed left list) (Step.nextListed right list)
      fun last decision => ∀ value ∈ decision.value, good last value := by
  refine (items place).bindWith fun there value onwards isGood =>
    (eat (.symbol .comma) nofun).bindWith fun last isMore behind _ => ?_
  have goods : ∀ found ∈ list ++ [value], good last found := by
    intro found member
    rcases List.mem_append.mp member with earlier | here
    · exact lasts (onwards.trans behind) (goods found earlier)
    · rw [List.mem_singleton.mp here]
      exact lasts behind isGood
  exact ite (fun _ => .pure goods) fun _ => .pure goods

theorem commaSeparated :
    margins.Inner place .firm (Step.commaSeparated left) (Step.commaSeparated right)
      fun last list => ∀ value ∈ list, good last value :=
  loopFirm (fun _ _ goods => nextListed lasts items goods) nofun

theorem listBefore (close : Symbol) :
    margins.Inner place .firm (Step.listBefore close left) (Step.listBefore close right)
      fun last list => ∀ value ∈ list, good last value :=
  .look (sees_check _) (.ite (fun _ => .pure nofun) fun _ => commaSeparated lasts items)

end Lists

theorem list {left right : Step α} {good : Cursor → α → Prop}
    (items : ∀ there, margins.Inner there .firm left right good) :
    margins.Inner place .firm (Step.commaSeparated left) (Step.commaSeparated right) Anything :=
  (commaSeparated (fun _ _ _ _ _ => trivial)
    fun there => (items there).weaken fun _ _ _ => trivial).weaken fun _ _ _ => trivial

theorem closedList {left right : Step α} {good : Cursor → α → Prop} (close : Symbol)
    (items : ∀ there, margins.Inner there .firm left right good) :
    margins.Inner place .firm (Step.closedList close left) (Step.closedList close right)
      fun last found => found.2.span.start < last.offset :=
  (listBefore (fun _ _ _ _ _ => trivial)
    (fun there => (items there).weaken fun _ _ _ => trivial) close).bind fun _ _ =>
      (symbol close).mapped fun _ _ behind => behind

theorem nextAt {left right : Step α} {good : Cursor → α → Prop} {kind : Kind} (list : List α)
    (item : margins.Inner place footing left right good) (known : place.peek.kind = kind) :
    margins.Inner place footing (Step.nextAt kind left list) (Step.nextAt kind right list)
      Anything := by
  refine .look (sees_check kind) ?_
  rw [known, beq_self_eq_true, if_pos rfl, if_pos rfl]
  exact item.mapped fun _ _ _ => trivial

theorem whileAt {left right : Step α} {good : Cursor → α → Prop} {kind : Kind}
    (items : ∀ there, margins.Inner there .firm left right good)
    (first : margins.Inner place footing left right good) (known : place.peek.kind = kind) :
    margins.Inner place footing (Step.whileAt kind left) (Step.whileAt kind right) Anything := by
  refine loop (fun there list _ => ?_) (nextAt [] first known)
  exact .look (sees_check kind) (.ite (fun _ => (items there).mapped fun _ _ _ => trivial)
    fun _ => .pure trivial)

/-! ### Optional parts -/

theorem ifAt {left right : Step α} {good : Cursor → α → Prop} (kind : Kind)
    (part : place.peek.kind = kind → margins.Inner place .firm left right good) :
    margins.Inner place .firm (Step.ifAt kind left) (Step.ifAt kind right) Anything :=
  .look (sees_check kind)
    (.ite (fun here => (part (beq_iff_eq.mp here)).mapped fun _ _ _ => trivial)
      fun _ => .pure trivial)

theorem ifBehind {left right : Step α} {good : Cursor → α → Prop} {kind : Kind}
    (notEnd : kind ≠ .endOfFile) (part : ∀ there, margins.Inner there .firm left right good) :
    margins.Inner place .firm (Step.ifBehind kind left) (Step.ifBehind kind right) Anything :=
  (eat kind notEnd).bind fun there _ =>
    .ite (fun _ => (part there).mapped fun _ _ _ => trivial) fun _ => .pure trivial

end Inner

end Margins

end ServiceLang
