import ServiceLang.Proofs.MarginsStep

set_option autoImplicit false

/-! Steps that report, of two parses with different margins. Where an error is recovered from,
the tokens are passed over alike on both sides. A refusal of the first parse has not been
reported when it is met, so it is when it is recovered from. -/

namespace ServiceLang

open Step

/-! ### Where skipping ends -/

namespace Cursor

/-- Behind one token, where none has been passed over, skipping may stop where it is. -/
theorem exists_lands {cursor start : Cursor} {count : Nat} (more : 0 < start.remaining)
    (inside : count ≤ (cursor.advanceIfStill start).remaining)
    (stops : count = 0 → (cursor.advanceIfStill start).peek.kind.isLanding = true)
    (native : (cursor.advanceIfStill start).peek.kind = .keyword .nativeKw → count = 0) :
    ∃ total, (cursor.advanceIfStill start).advanceBy count = cursor.advanceBy total ∧
      cursor.Lands total := by
  by_cases still : cursor.remaining = start.remaining
  · rw [advanceIfStill_eq, if_pos still] at inside stops ⊢
    rw [remaining_advanceBy] at inside
    refine ⟨1 + count, (cursor.advanceBy_add 1 count).symm, by omega, by omega, fun once _ => ?_⟩
    exact stops (by omega)
  · rw [advanceIfStill_eq, if_neg still] at inside stops native ⊢
    refine ⟨count, rfl, inside, stops, fun once stray => ?_⟩
    have none : count = 0 := native stray.1
    omega

theorem kinds_of_native {cursor : Cursor} (native : cursor.peek.kind = .keyword .nativeKw) :
    ∃ rest, cursor.kinds = .keyword .nativeKw :: rest := by
  rw [kind_peek] at native
  cases ahead : cursor.kinds with
  | nil =>
      rw [ahead] at native
      cases native
  | cons kind rest =>
      rw [ahead] at native
      exact ⟨rest, congrArg (· :: rest) native⟩

/-- Comments do not matter for what may have been reported. -/
theorem Passed.dropComments {cursor : Cursor} {offset : Nat} (passed : cursor.Passed offset) :
    ({ cursor with comments := [] } : Cursor).Passed offset := by
  rcases passed with order | ⟨isLanding, same⟩ | ⟨isStray, next⟩
  · exact .before order
  · exact .here isLanding same
  · exact .stray isStray next

/-- Where skipping inside a body ends. -/
theorem exists_lands_sync {cursor start : Cursor} (point : SyncPoint)
    (behind : cursor.remaining ≤ start.remaining) (more : 0 < start.remaining) :
    ∃ total, (cursor.advanceIfStill start).sync start point = cursor.advanceBy total ∧
      cursor.Lands total := by
  have moved := remaining_advanceIfStill_lt behind more
  rw [sync, decide_eq_true moved]
  refine exists_lands more ?_ (fun stops => ?_) fun native => ?_
  · exact Nat.le_trans (syncLength_le point true 0 _) (Nat.le_of_eq (List.length_map _))
  · rw [kind_peek]
    exact isLanding_of_syncLength_eq_zero stops
  · obtain ⟨rest, kinds⟩ := kinds_of_native native
    rw [kinds]
    rfl

/-- Where skipping between definitions ends. -/
theorem exists_lands_syncDefinition {cursor start : Cursor} (more : 0 < start.remaining) :
    ∃ total, cursor.syncDefinition start = cursor.advanceBy total ∧ cursor.Lands total := by
  rw [syncDefinition]
  refine exists_lands more ?_ (fun stops => ?_) fun native => ?_
  · exact Nat.le_trans (definitionSyncLength_le _ _) (Nat.le_of_eq (List.length_map _))
  · rw [kind_peek]
    exact isLanding_of_definitionSyncLength_eq_zero stops
  · obtain ⟨rest, kinds⟩ := kinds_of_native native
    rw [kinds]
    rfl

end Cursor

/-- A refusal stays in the list whatever is read behind it. -/
theorem Parser.HasRefusal.after {α : Type} {parser : Parser} (refusal : parser.HasRefusal)
    {step : Step α} (orderly : Orderly (fun _ => True) step) : (after step parser).HasRefusal :=
  ((orderly parser).keeping Parser.HasRefusal (fun _ refusal _ _ => refusal)
    (fun _ refusal => refusal) (fun _ diagnostic refusal => refusal.report diagnostic) refusal).2

namespace Margins

variable {α β γ σ : Type} {margins : Margins} {place : Cursor} {footing : Footing}

/-! ### Getting past an error -/

/-- A way past an error: to a place where reading goes on, with a report of what has been
passed over. -/
structure Passage (getPast : Cursor → Diagnostic → Step Span) where
  /-- From a start and the place of the error to where reading goes on. -/
  target : Cursor → Cursor → Cursor
  /-- What is said of so many tokens that have been passed over. -/
  recovery : Nat → Recovery
  gets : ∀ start diagnostic parser, getPast start diagnostic parser =
    .ok ((target start parser.cursor).spanSince start)
      ({ parser with cursor := target start parser.cursor }.report
        (diagnostic.withRecovery
          (recovery (start.remaining - (target start parser.cursor).remaining))))
  lands : ∀ {start cursor}, cursor.remaining ≤ start.remaining → 0 < start.remaining →
    ∃ total, target start cursor = cursor.advanceBy total ∧ cursor.Lands total
  shorter : ∀ {start cursor}, cursor.remaining ≤ start.remaining → 0 < start.remaining →
    (target start cursor).remaining < start.remaining
  places : ∀ {margins : Margins} {start other left right : Cursor}, margins.Places start other →
    margins.Places left right → margins.Places (target start left) (target other right)

def Passage.body (point : SyncPoint) : Passage (recover point) where
  target start cursor := (cursor.advanceIfStill start).sync start point
  recovery skipped := if skipped = 0 then .resumed else .skipped skipped
  gets _ _ _ := rfl
  lands behind more := Cursor.exists_lands_sync point behind more
  shorter behind more := Cursor.remaining_sync_lt point behind more
  places starts here := (here.advanceIfStill starts).sync starts point

def Passage.source : Passage recoverDefinition where
  target start cursor := cursor.syncDefinition start
  recovery skipped := .skipped skipped
  gets _ _ _ := rfl
  lands _ more := Cursor.exists_lands_syncDefinition more
  shorter behind more := Cursor.remaining_syncDefinition_lt behind more
  places starts here := here.syncDefinition starts

/-! ### Rules that report -/

namespace Outer

variable {lies : Cursor → α → Prop}

theorem weaken {left right : Step α} {known : Cursor → α → Prop}
    (here : margins.Outer place footing left right known)
    (weaker : ∀ there value, known there value → lies there value) :
    margins.Outer place footing left right lies := by
  intro parser other twins same on
  exact (here twins same on).imp_left fun outcomes => outcomes.weaken fun later value isValue =>
    ⟨isValue.1, weaker _ _ isValue.2⟩

theorem inner {left right : Step α} (here : margins.Inner place footing left right lies) :
    margins.Outer place footing left right lies := by
  intro parser other twins same on
  exact .inl ((here twins same on).weaken fun later value isValue =>
    ⟨isValue.1.loosen, isValue.2⟩)

theorem pure {value : α} (here : lies place value) :
    margins.Outer place footing (Pure.pure value) (Pure.pure value) lies := by
  rintro parser other twins rfl on
  exact .inl (.ok twins (.refl _) ⟨on.loosen, here⟩)

theorem firm {left right : Step α} (flies : place.peek.kind.isLanding = false)
    (here : margins.Outer place .firm left right lies) :
    margins.Outer place footing left right lies := by
  rintro parser other twins rfl on
  exact here twins rfl (on.firm_of_kind flies)

theorem bindWith {first second : Step α} {next further : α → Step β} {lies : Cursor → β → Prop}
    {known : Cursor → α → Prop} (here : margins.Inner place footing first second known)
    (behind : ∀ there value, place.Onwards there → known there value →
      margins.Outer there .firm (next value) (further value) lies) :
    margins.Outer place footing (first >>= next) (second >>= further) lies := by
  intro parser other twins same on
  have outcomes := here twins same on
  generalize ran : first parser = left at outcomes
  generalize otherRan : second other = right at outcomes
  cases outcomes with
  | ok twins onwards here =>
      rw [bind_of_ok ran, bind_of_ok otherRan, after, bind_of_ok ran]
      exact (behind _ _ onwards here.2 twins rfl here.1).imp_left (.behind onwards)
  | error tells twins onwards on reaches =>
      rw [bind_of_error ran, bind_of_error otherRan]
      exact .inl (.error tells twins onwards on reaches)
  | refused deeper unlimited isNew refusal =>
      rw [bind_of_error ran]
      exact .inl (.refused deeper unlimited isNew refusal)

theorem bind {first second : Step α} {next further : α → Step β} {lies : Cursor → β → Prop}
    {known : Cursor → α → Prop} (here : margins.Inner place footing first second known)
    (behind : ∀ there value, margins.Outer there .firm (next value) (further value) lies) :
    margins.Outer place footing (first >>= next) (second >>= further) lies :=
  bindWith here fun there value _ _ => behind there value

theorem andThen {first second : Step α} {next further : α → Step β} {lies : Cursor → β → Prop}
    {known : Cursor → α → Prop} (here : margins.Outer place footing first second known)
    (orderly : ∀ value, Orderly (fun _ => True) (next value))
    (behind : ∀ there value, place.Onwards there → known there value →
      margins.Outer there .loose (next value) (further value) lies) :
    margins.Outer place footing (first >>= next) (second >>= further) lies := by
  intro parser other twins same on
  rcases here twins same on with outcomes | ⟨deeper, refusal⟩
  · generalize ran : first parser = left at outcomes
    generalize otherRan : second other = right at outcomes
    cases outcomes with
    | ok twins onwards here =>
        rw [bind_of_ok ran, bind_of_ok otherRan, after, bind_of_ok ran]
        exact (behind _ _ onwards here.2 twins rfl here.1).imp_left (.behind onwards)
    | error tells twins onwards on reaches =>
        rw [bind_of_error ran, bind_of_error otherRan]
        exact .inl (.error tells twins onwards on reaches)
    | refused deeper unlimited isNew refusal =>
        rw [bind_of_error ran]
        exact .inl (.refused deeper unlimited isNew refusal)
  · refine .inr ⟨deeper, ?_⟩
    cases ran : first parser with
    | ok value later =>
        rw [after_of_ok ran] at refusal
        rw [after, bind_of_ok ran]
        exact refusal.after (orderly value)
    | error diagnostic later =>
        rw [after_of_error ran] at refusal
        rw [after_of_error (bind_of_error ran)]
        exact refusal

theorem mapped {left right : Step α} {make : α → β} {lies : Cursor → β → Prop}
    {known : Cursor → α → Prop} (here : margins.Outer place footing left right known)
    (made : ∀ there value, known there value → lies there (make value)) :
    margins.Outer place footing (left >>= fun value => Pure.pure (make value))
      (right >>= fun value => Pure.pure (make value)) lies :=
  here.andThen (fun _ => .pure _) fun there value _ isValue => .pure (made there value isValue)

theorem look {look : Step γ} {seen : γ} {next further : γ → Step α}
    (sees : margins.Sees place look seen)
    (behind : margins.Outer place footing (next seen) (further seen) lies) :
    margins.Outer place footing (look >>= next) (look >>= further) lies := by
  intro parser other twins same on
  obtain ⟨left, right⟩ := sees twins same
  rw [look_bind left, look_bind right, after, look_bind left]
  exact behind twins same on

theorem ite {condition : Prop} [Decidable condition] {left right left' right' : Step α}
    (onTrue : condition → margins.Outer place footing left right lies)
    (onFalse : ¬condition → margins.Outer place footing left' right' lies) :
    margins.Outer place footing (if condition then left else left')
      (if condition then right else right') lies := by
  split
  · exact onTrue ‹_›
  · exact onFalse ‹_›

theorem peek {next further : Token → Step α}
    (behind : ∀ other, margins.Tokens place.peek other →
      margins.Outer place footing (next place.peek) (further other) lies) :
    margins.Outer place footing (Step.peek >>= next) (Step.peek >>= further) lies := by
  rintro parser other twins rfl on
  rw [look_bind (peek_eq parser), look_bind (peek_eq other), after, look_bind (peek_eq parser)]
  exact behind _ twins.places.tokens twins rfl on

theorem peekInside {next further : Token → Step α} (notEnd : place.peek.kind ≠ .endOfFile)
    (behind : margins.Outer place footing (next place.peek) (further place.peek) lies) :
    margins.Outer place footing (Step.peek >>= next) (Step.peek >>= further) lies :=
  peek fun _ tokens => by rwa [tokens.same notEnd]

theorem spanned (start : Span) {make : Span → α} :
    margins.Outer place footing (do return make (← Step.spanFrom start))
      (do return make (← Step.spanFrom start)) Anything :=
  .look (sees_spanFrom start) (.pure trivial)

theorem thenSpan {left right : Step α} {known : Cursor → α → Prop}
    (here : margins.Outer place footing left right known) (start : Span) {make : α → Span → β} :
    margins.Outer place footing
      (do
        let value ← left
        return make value (← Step.spanFrom start))
      (do
        let value ← right
        return make value (← Step.spanFrom start)) Anything :=
  here.andThen (fun _ => .bind (.spanFrom _) fun _ => .pure _) fun _ _ _ _ => .spanned _

/-! ### Reporting -/

theorem report {diagnostic other : Diagnostic} (tells : margins.Says diagnostic other)
    (passed : place.Passed diagnostic.span.start) :
    margins.Outer place footing (Step.report diagnostic) (Step.report other) Anything := by
  rintro parser second twins rfl on
  rw [report_eq, report_eq]
  refine .inl (.ok (twins.report tells) ?_ ⟨?_, trivial⟩)
  · rw [Parser.cursor_report]
    exact .refl _
  · exact on.loosen.report twins.records.unlimited passed

/-- A token is assumed only where reading may go on. -/
theorem assume {kind : Kind} (landing : place.peek.kind.isLanding = true) :
    margins.Outer place footing (Step.assume kind) (Step.assume kind) Anything := by
  rintro parser other twins rfl on
  have tells := (twins.places.tokens.wrongToken kind.description).withRecovery
    (.inserted kind.description)
  have passed : parser.cursor.Passed ((Step.wrongToken parser.cursor.peek
      kind.description).withRecovery (.inserted kind.description)).span.start := by
    refine .here landing ?_
    change (Step.wrongToken _ _).span.start = _
    rw [start_wrongToken]
    rfl
  have reported (marker : TokenMarker) : margins.Outer parser.cursor footing
      (Step.report _ >>= fun _ => Pure.pure marker) (Step.report _ >>= fun _ => Pure.pure marker)
      Anything :=
    (report tells passed).mapped fun _ _ _ => trivial
  unfold Step.assume
  rw [look_bind (cursor_eq parser), look_bind (cursor_eq other), after,
    look_bind (cursor_eq parser)]
  cases before : parser.cursor.previous with
  | some token =>
      rw [twins.places.previous, before]
      exact reported _ twins rfl on
  | none =>
      have inside : parser.cursor.peek.kind ≠ .endOfFile := fun atEnd =>
        twins.places.some before (parser.cursor.peek_isEnd_iff.mp atEnd)
      rw [twins.places.previous, before, twins.places.peek_eq inside] at *
      exact reported _ twins rfl on

theorem eat? {kind : Kind} {next further : Option Token → Step α} (notEnd : kind ≠ .endOfFile)
    (known : kind ≠ .keyword .nativeKw)
    (present : place.peek.kind = kind → ∀ there, place.offset < there.offset →
      margins.Outer there .firm (next (some place.peek)) (further (some place.peek)) lies)
    (absent : place.peek.kind ≠ kind →
      margins.Outer place footing (next none) (further none) lies) :
    margins.Outer place footing (Step.eat? kind >>= next) (Step.eat? kind >>= further) lies := by
  rintro parser other twins rfl on
  by_cases here : parser.cursor.peek.kind = kind
  · have inside : parser.cursor.peek.kind ≠ .endOfFile := here ▸ notEnd
    have ran := eat?_of_kind here
    have otherRan := eat?_of_kind (twins.places.kind.trans here)
    rw [twins.places.peek_eq inside] at otherRan
    rw [bind_of_ok ran, bind_of_ok otherRan, after, bind_of_ok ran]
    have more := parser.cursor.remaining_pos inside
    have behind := twins.places.rising.offset_lt Nat.one_pos more
    refine (present here _ behind (twins.moved twins.places.advance) rfl ?_).imp_left
      (.behind (twins.places.rising.onwards more))
    exact on.advance twins.places.rising inside fun stray => known (here.symm.trans stray.1)
  · have ran := eat?_of_other here
    have otherRan := eat?_of_other (fun same => here (twins.places.kind.symm.trans same))
    rw [bind_of_ok ran, bind_of_ok otherRan, after, bind_of_ok ran]
    exact absent here twins rfl on

theorem eat {kind : Kind} {next further : Bool → Step α} (notEnd : kind ≠ .endOfFile)
    (known : kind ≠ .keyword .nativeKw)
    (present : ∀ there, margins.Outer there .firm (next true) (further true) lies)
    (absent : margins.Outer place footing (next false) (further false) lies) :
    margins.Outer place footing (Step.eat kind >>= next) (Step.eat kind >>= further) lies := by
  have whole : margins.Outer place footing
      (Step.eat? kind >>= fun found => next found.isSome)
      (Step.eat? kind >>= fun found => further found.isSome) lies :=
    eat? notEnd known (fun _ there _ => present there) fun _ => absent
  intro parser other
  have same (next : Bool → Step α) (parser : Parser) :
      (Step.eat kind >>= next) parser =
        (Step.eat? kind >>= fun found => next found.isSome) parser := by
    by_cases here : parser.cursor.peek.kind = kind
    · rw [bind_of_ok (eat_of_kind here), bind_of_ok (eat?_of_kind here)]
      rfl
    · rw [bind_of_ok (eat_of_other here), bind_of_ok (eat?_of_other here)]
      rfl
  rw [same, same, after, same]
  exact @whole parser other

theorem closeBrace (landing : place.peek.kind.isLanding = true) :
    margins.Outer place footing Step.closeBrace Step.closeBrace Anything :=
  eat? nofun nofun (fun _ _ _ => .pure trivial) fun _ => .assume landing

theorem endStatement :
    margins.Outer place .firm Step.endStatement Step.endStatement Anything := by
  refine eat? nofun nofun (fun _ _ _ => .pure trivial) fun _ => .look sees_current ?_
  refine .ite (fun follows => .assume ?_) fun _ =>
    .inner (.peek fun _ tokens => .wrongToken tokens _)
  rw [Kind.isLanding, follows, Bool.true_or]

theorem takeComments :
    margins.Outer place footing Step.takeComments Step.takeComments
      fun there _ => there.peek = place.peek ∧
        ∀ count, there.peekNth count = place.peekNth count := by
  rintro parser other twins rfl on
  rw [takeComments_eq, takeComments_eq, twins.keepComments, twins.places.comments]
  split
  · refine .inl (.ok (twins.moved twins.places.dropComments) ⟨Nat.le_refl _, Nat.le_refl _⟩
      ⟨fun offset member => ?_, rfl, fun _ => rfl⟩)
    exact (on.loosen offset member).dropComments
  · exact .inl (.ok twins (.refl _) ⟨on.loosen, rfl, fun _ => rfl⟩)

/-! ### Going on behind an error -/

theorem recovering {getPast : Cursor → Diagnostic → Step Span} (passage : Passage getPast)
    {left right : Step α} (instead : Span → α) (notEnd : place.peek.kind ≠ .endOfFile)
    (here : margins.Outer place footing left right Anything) :
    margins.Outer place footing
      (do
        let start ← Step.cursor
        tryCatch left fun diagnostic => do return instead (← getPast start diagnostic))
      (do
        let start ← Step.cursor
        tryCatch right fun diagnostic => do return instead (← getPast start diagnostic))
      Anything := by
  rintro parser other twins rfl on
  rw [look_bind (cursor_eq parser), look_bind (cursor_eq other), after,
    look_bind (cursor_eq parser)]
  have more := parser.cursor.remaining_pos notEnd
  rcases here twins rfl on with outcomes | ⟨deeper, refusal⟩
  · generalize ran : left parser = first at outcomes
    generalize otherRan : right other = second at outcomes
    cases outcomes with
    | ok twins onwards here =>
        rw [tryCatch_of_ok ran, tryCatch_of_ok otherRan]
        exact .inl (.ok twins onwards ⟨here.1, trivial⟩)
    | @error diagnostic _ later _ tells twinsLater onwards onLater reaches =>
        have places := passage.places twins.places twinsLater.places
        have shorter := passage.shorter onwards.remaining more
        obtain ⟨total, target, lands⟩ := passage.lands onwards.remaining more
        have rising := twinsLater.places.rising
        rw [tryCatch_of_error ran, tryCatch_of_error otherRan, bind_of_ok (passage.gets _ _ _),
          bind_of_ok (passage.gets _ _ _), places.spanSince twins.places shorter,
          places.remaining, twins.places.remaining]
        refine .inl (.ok ((twinsLater.moved places).report (tells.withRecovery _)) ?_ ⟨?_, trivial⟩)
        · rw [Parser.cursor_report]
          refine onwards.trans ?_
          dsimp only
          rw [target]
          exact rising.onwards lands.inside
        · have onTarget : { later with cursor := passage.target parser.cursor later.cursor }.On
              .loose := by
            intro offset member
            dsimp only
            rw [target]
            exact .advanceBy rising (onLater offset member).reaches lands
          refine onTarget.report ⟨twinsLater.records.unlimited.below,
            twinsLater.records.unlimited.noLimit⟩ ?_
          dsimp only
          rw [target]
          exact .advanceBy rising reaches lands
    | @refused diagnostic later _ deeper unlimited isNew refusal =>
        rw [tryCatch_of_error ran, bind_of_ok (passage.gets _ _ _)]
        exact .inr ⟨deeper, @Parser.hasRefusal_report
          { later with cursor := passage.target parser.cursor later.cursor }
          ⟨unlimited.below, unlimited.noLimit⟩ (diagnostic.withRecovery _)
          (fun repeated => isNew repeated) refusal⟩
  · refine .inr ⟨deeper, ?_⟩
    cases ran : left parser with
    | ok value later =>
        rw [after_of_ok ran] at refusal
        rw [tryCatch_of_ok ran]
        exact refusal
    | error diagnostic later =>
        rw [after_of_error ran] at refusal
        rw [tryCatch_of_error ran, bind_of_ok (passage.gets _ _ _), pure_eq]
        exact @Parser.HasRefusal.report
          { later with cursor := passage.target parser.cursor later.cursor } refusal _

theorem orRecover (point : SyncPoint) {left right : Step α} (instead : Span → α)
    (notEnd : place.peek.kind ≠ .endOfFile)
    (here : margins.Outer place footing left right Anything) :
    margins.Outer place footing (Step.orRecover point left instead)
      (Step.orRecover point right instead) Anything :=
  recovering (.body point) instead notEnd here

theorem orSkip {left right : Step α} (instead : Span → α) (notEnd : place.peek.kind ≠ .endOfFile)
    (here : margins.Outer place footing left right Anything) :
    margins.Outer place footing (Step.orSkip left instead) (Step.orSkip right instead) Anything :=
  recovering .source instead notEnd here

/-! ### Repeating -/

/-- By induction on the tokens ahead. What holds wherever a turn is the last holds behind the
loop. -/
theorem loop {turn further : σ → Step (ForInStep σ)} (ends : Cursor → Prop)
    (isTurn : ∀ state, Turn (fun _ => True) (turn state))
    (turns : ∀ there state, margins.Outer there .loose (turn state) (further state)
      fun last decision => ∀ final, decision = .done final → ends last)
    (state : σ) :
    margins.Outer place footing (Step.loop turn state) (Step.loop further state)
      fun last _ => ends last := by
  rintro parser other twins rfl on
  replace on := on.loosen
  induction less : parser.cursor.remaining using Nat.strongRecOn
    generalizing parser other state with
  | ind _ ih =>
    subst less
    rcases turns _ state twins rfl on with outcomes | ⟨deeper, refusal⟩
    · generalize ran : turn state parser = left at outcomes
      generalize otherRan : further state other = right at outcomes
      cases outcomes with
      | @ok decision later last twinsLater onwards here =>
          obtain ⟨onLater, here⟩ := here
          have same := twins.places.remaining
          have sameLater := twinsLater.places.remaining
          cases decision with
          | done final =>
              rw [loop_of_done ran, loop_of_done otherRan]
              exact .inl (.ok twinsLater onwards ⟨onLater, here final rfl⟩)
          | yield next =>
              have shorter := (isTurn state).advances ran
              rw [after, loop_of_yield ran shorter, loop_of_yield otherRan (by omega)]
              exact (ih _ shorter next twinsLater onLater rfl).imp_left (.behind onwards)
      | error tells twins onwards on reaches =>
          rw [loop_of_error ran, loop_of_error otherRan]
          exact .inl (.error tells twins onwards on reaches)
      | refused deeper unlimited isNew refusal =>
          rw [loop_of_error ran]
          exact .inl (.refused deeper unlimited isNew refusal)
    · refine .inr ⟨deeper, ?_⟩
      cases ran : turn state parser with
      | ok decision later =>
          rw [after_of_ok ran] at refusal
          cases decision with
          | done final =>
              rw [after_of_ok (loop_of_done ran)]
              exact refusal
          | yield next =>
              rw [after, loop_of_yield ran ((isTurn state).advances ran)]
              exact refusal.after (.loop isTurn next)
      | error diagnostic later =>
          rw [after_of_error ran] at refusal
          rw [after_of_error (loop_of_error ran)]
          exact refusal

theorem whileAt {left right : Step α} {kind : Kind} {known : Cursor → α → Prop}
    (eager : Eager (fun _ => True) left)
    (items : ∀ there, margins.Outer there .loose left right known) :
    margins.Outer place footing (Step.whileAt kind left) (Step.whileAt kind right) Anything :=
  loop (fun _ => True) (.nextAt eager) (fun there _ => .look (sees_check kind)
    (.ite (fun _ => (items there).mapped fun _ _ _ _ _ => trivial)
      fun _ => .pure fun _ _ => trivial)) []

theorem ifAt {left right : Step α} {kind : Kind} {known : Cursor → α → Prop}
    (part : margins.Outer place footing left right known) :
    margins.Outer place footing (Step.ifAt kind left) (Step.ifAt kind right) Anything :=
  .look (sees_check kind)
    (.ite (fun _ => part.mapped fun _ _ _ => trivial) fun _ => .pure trivial)

theorem ifBehind {left right : Step α} {kind : Kind} {known : Cursor → α → Prop}
    (notEnd : kind ≠ .endOfFile) (free : kind ≠ .keyword .nativeKw)
    (part : ∀ there, margins.Outer there .firm left right known) :
    margins.Outer place footing (Step.ifBehind kind left) (Step.ifBehind kind right) Anything :=
  eat notEnd free (fun there => (part there).mapped fun _ _ _ => trivial) (.pure trivial)

end Outer

end Margins

end ServiceLang
