import ServiceLang.Proofs.Edges
import ServiceLang.Proofs.Gap

set_option autoImplicit false

/-! Steps across a gap. A step bridges a gap if the right side can follow the left one through
it: whenever nothing goes wrong on the left, it gives a value that agrees on the right and
leaves both parsers around the gap again. -/

namespace ServiceLang

namespace Step

open Gap (Side)

variable {gap : Gap} {α β σ : Type} [Matchable α] [Matchable β] [Matchable σ]

/-- A step that the right side takes as the left one does, around a gap. -/
structure Bridged (gap : Gap) (start stop : Side) (step other : Step α) : Prop where
  /-- What has been reported before is still there behind. -/
  quiet : ∀ ⦃parser later : Parser⦄ ⦃value : α⦄, step parser = .ok value later → later.Clean →
    parser.Clean
  meets : ∀ ⦃left right later : Parser⦄ ⦃value : α⦄, gap.Across start left right →
    step left = .ok value later → later.Clean →
    ∃ otherValue last, other right = .ok otherValue last ∧ gap.view.Agree value otherValue ∧
      gap.Across stop later last

abbrev Bridges (gap : Gap) (start stop : Side) (step : Step α) : Prop :=
  Bridged gap start stop step step

/-- A step that gives nothing where the other side is already past the gap. -/
def Blocks (gap : Gap) (step : Step α) : Prop :=
  ∀ ⦃parser later : Parser⦄ ⦃value : α⦄, gap.Stops parser.cursor.peek.kind →
    step parser ≠ .ok value later

def Astray (gap : Gap) (step : Step α) : Prop :=
  ∀ ⦃parser later : Parser⦄ ⦃value : α⦄, gap.Stops parser.cursor.peek.kind →
    step parser = .ok value later → ¬later.Clean

/-! ### What cannot start at a gap -/

omit [Matchable α] in
theorem Blocks.astray {step : Step α} (blocks : Blocks gap step) : Astray gap step :=
  fun _ _ _ stops ran => absurd ran (blocks stops)

omit [Matchable α] [Matchable β] in
theorem Astray.bind {first : Step α} {next : α → Step β} (astray : Astray gap first)
    (quiet : ∀ value, ∀ ⦃parser later : Parser⦄ ⦃result : β⦄, next value parser = .ok result later →
      later.Clean → parser.Clean) : Astray gap (first >>= next) := by
  intro parser later result stops ran clean
  obtain ⟨value, between, ranFirst, ranNext⟩ := bind_ok ran
  exact astray stops ranFirst (quiet value ranNext clean)

omit [Matchable α] [Matchable β] in
/-- What nothing starts with is reported and skipped, which does not end well. -/
theorem Astray.recovered {point : SyncPoint} {part : Step α} {instead : Span → α} {make : α → β}
    (blocks : Blocks gap part) :
    Astray gap (do return make (← Step.orRecover point part instead)) := by
  intro parser later value stops ran
  obtain ⟨recovered, between, ranPart, same⟩ := bind_ok ran
  cases same
  rcases orRecover_cases point part instead parser with
    ⟨_, _, ranPart, -⟩ | ⟨_, _, _, _, _, same, _, reported⟩
  · exact absurd ranPart (blocks stops)
  · cases same.symm.trans ranPart
    exact reported

omit [Matchable α] [Matchable β] in
theorem Astray.skipped {part : Step α} {instead : Span → α} {make : α → β}
    (blocks : Blocks gap part) : Astray gap (do return make (← Step.orSkip part instead)) := by
  intro parser later value stops ran
  obtain ⟨skipped, between, ranPart, same⟩ := bind_ok ran
  cases same
  rcases orSkip_cases part instead parser with
    ⟨_, _, ranPart, -⟩ | ⟨_, _, _, _, _, same, _, reported⟩
  · exact absurd ranPart (blocks stops)
  · cases same.symm.trans ranPart
    exact reported

omit [Matchable α] [Matchable β] in
/-- What may stand in between does not stand at a stop. -/
theorem Astray.ifBehind {kind : Kind} {part : Step α} {next : Option α → Step β}
    (astray : Astray gap (next none))
    (spared : kind ∉ ([.symbol .semicolon, .symbol .rightBrace, .endOfFile] : List Kind)) :
    Astray gap (Step.ifBehind kind part >>= next) := by
  intro parser later value stops ran
  have none : Step.ifBehind kind part parser = .ok none parser := by
    rw [Step.ifBehind, bind_of_ok (eat_of_other (Gap.ne_of_stops stops spared))]
    rfl
  rw [bind_of_ok none] at ran
  exact astray stops ran

namespace Blocks

omit [Matchable α] [Matchable β] in
theorem bind {first : Step α} {next : α → Step β} (here : Blocks gap first) :
    Blocks gap (first >>= next) := by
  intro parser later value stops ran
  obtain ⟨_, _, ranFirst, -⟩ := bind_ok ran
  exact here stops ranFirst

theorem expect (kind : Kind)
    (away : kind ∉ ([.symbol .semicolon, .symbol .rightBrace, .endOfFile] : List Kind)) :
    Blocks gap (Step.expect kind) := by
  intro parser later value stops ran
  have here := (expect_ok ran).1
  rw [here] at stops
  refine away ?_
  rcases Gap.away_of_stops stops with rfl | rfl | rfl <;> simp

theorem symbol (sign : Symbol)
    (away : Kind.symbol sign ∉
      ([.symbol .semicolon, .symbol .rightBrace, .endOfFile] : List Kind)) :
    Blocks gap (expectSymbol sign) :=
  expect _ away

theorem keyword (word : Keyword) : Blocks gap (expectKeyword word) :=
  expect _ (by simp)

theorem identifier : Blocks gap expectIdentifier := by
  intro parser later value stops ran
  have here := (expectIdentifier_ok ran).1
  rw [here] at stops
  rcases Gap.away_of_stops stops with same | same | same <;> cases same

/-! Looking at a stop shows that nothing goes on there. -/

omit [Matchable β] in
theorem current {next : Kind → Step β} (blocks : ∀ kind, gap.Stops kind → Blocks gap (next kind)) :
    Blocks gap (Step.current >>= next) := by
  intro parser later value stops ran
  rw [look_bind (current_eq parser)] at ran
  exact blocks _ stops stops ran

omit [Matchable β] in
theorem check {kind : Kind} {next : Bool → Step β} (blocks : Blocks gap (next false))
    (spared : kind ∉ ([.symbol .semicolon, .symbol .rightBrace, .endOfFile] : List Kind)) :
    Blocks gap (Step.check kind >>= next) := by
  intro parser later value stops ran
  rw [look_bind (check_eq parser kind), beq_false_of_ne (Gap.ne_of_stops stops spared)] at ran
  exact blocks stops ran

omit [Matchable β] in
theorem eat {kind : Kind} {next : Bool → Step β} (blocks : Blocks gap (next false))
    (spared : kind ∉ ([.symbol .semicolon, .symbol .rightBrace, .endOfFile] : List Kind)) :
    Blocks gap (Step.eat kind >>= next) := by
  intro parser later value stops ran
  rw [bind_of_ok (eat_of_other (Gap.ne_of_stops stops spared))] at ran
  exact blocks stops ran

omit [Matchable α] [Matchable β] in
theorem whileAt {kind : Kind} {item : Step α} {next : List α → Step β} (blocks : Blocks gap (next []))
    (spared : kind ∉ ([.symbol .semicolon, .symbol .rightBrace, .endOfFile] : List Kind)) :
    Blocks gap (Step.whileAt kind item >>= next) := by
  intro parser later value stops ran
  have none : Step.whileAt kind item parser = .ok [] parser := by
    refine loop_of_done ?_
    rw [nextAt, look_bind (check_eq parser kind), beq_false_of_ne (Gap.ne_of_stops stops spared)]
    rfl
  rw [bind_of_ok none] at ran
  exact blocks stops ran

omit [Matchable β] in
theorem isVarDef {next : Bool → Step β} (blocks : Blocks gap (next false)) :
    Blocks gap (Step.isVarDef >>= next) := by
  intro parser later value stops ran
  rw [look_bind (isVarDef_eq parser), (Gap.nothing_of_stops stops).1] at ran
  exact blocks stops ran

omit [Matchable β] in
theorem isInvocation {next : Bool → Step β} (blocks : Blocks gap (next false)) :
    Blocks gap (Step.isInvocation >>= next) := by
  intro parser later value stops ran
  rw [look_bind (isInvocation_eq parser), (Gap.nothing_of_stops stops).2] at ran
  exact blocks stops ran

omit [Matchable α] in
theorem fail (diagnostic : Diagnostic) : Blocks gap (Step.fail diagnostic : Step α) :=
  fun _ _ _ _ ran => fail_ne_ok ran

omit [Matchable α] [Matchable β] in
theorem peek {next : Token → Step β} (blocks : ∀ token, Blocks gap (next token)) :
    Blocks gap (Step.peek >>= next) := by
  intro parser later value stops ran
  rw [look_bind (peek_eq parser)] at ran
  exact blocks _ stops ran

omit [Matchable α] in
theorem failAt (other : Token → Diagnostic) : Blocks gap (Step.failAt other : Step α) :=
  fun _ _ _ _ ran => failAt_ne_ok ran

omit [Matchable α] in
theorem tooDeep : Blocks gap (Step.tooDeep : Step α) :=
  fun _ _ _ _ ran => tooDeep_ne_ok ran

end Blocks

namespace Bridged

variable {start mid stop : Side} {step other : Step α}

/-! ### Steps one after another -/

theorem inside (bridged : Bridged gap .edge stop step other) :
    Bridged gap .inside stop step other :=
  ⟨bridged.quiet, fun _ _ _ _ across ran clean => bridged.meets across.weaken ran clean⟩

theorem anyStart (bridged : Bridged gap .among stop step other) :
    Bridged gap start stop step other :=
  ⟨bridged.quiet, fun _ _ _ _ across ran clean =>
    bridged.meets across.weaken ran clean⟩

theorem loosely (bridged : Bridged gap start stop step other) :
    Bridged gap start .among step other := by
  refine ⟨bridged.quiet, fun left right later value across ran clean => ?_⟩
  obtain ⟨otherValue, last, ranRight, agree, behind⟩ := bridged.meets across ran clean
  exact ⟨otherValue, last, ranRight, agree, behind.weaken⟩

theorem of_never (never : ∀ {parser value later}, step parser = .ok value later → ¬later.Clean) :
    Bridged gap start stop step other :=
  ⟨fun _ _ _ ran clean => absurd clean (never ran),
    fun _ _ _ _ _ ran clean => absurd clean (never ran)⟩

theorem fail (diagnostic : Diagnostic) :
    Bridged gap start stop (Step.fail diagnostic) other :=
  of_never fun ran => absurd ran fail_ne_ok

theorem failAt (diagnostic : Token → Diagnostic) :
    Bridged gap start stop (Step.failAt diagnostic) other :=
  of_never fun ran => absurd ran failAt_ne_ok

theorem tooDeep : Bridged gap start stop Step.tooDeep other :=
  of_never fun ran => absurd ran tooDeep_ne_ok

theorem report {other : Step Unit} (diagnostic : Diagnostic) :
    Bridged gap start start (Step.report diagnostic) other :=
  of_never fun {parser _ _} ran => by
    cases ran
    exact parser.not_clean_report diagnostic

theorem of_eq {same another : Step α} (bridged : Bridged gap start stop same another)
    (equal : ∀ parser, step parser = same parser) (equalOther : ∀ parser, other parser = another parser) :
    Bridged gap start stop step other := by
  obtain rfl : step = same := funext equal
  obtain rfl : other = another := funext equalOther
  exact bridged

theorem pure [stop.Widens start] {value otherValue : α} (agree : gap.view.Agree value otherValue) :
    Bridged gap start stop (Pure.pure value : Step α) (Pure.pure otherValue) := by
  constructor
  · intro parser later result ran clean
    cases ran
    exact clean
  · intro left right later result across ran clean
    cases ran
    exact ⟨otherValue, right, rfl, agree, across.weaken⟩

theorem spanFrom (first second : Span) :
    Bridged gap start start (Step.spanFrom first) (Step.spanFrom second) := by
  constructor
  · intro parser later result ran clean
    cases ran
    exact clean
  · intro left right later result across ran clean
    cases ran
    exact ⟨_, right, rfl, trivial, across⟩

/-- What stands behind a step meets the same values on both sides, or ones that agree. -/
theorem bind {first second : Step α} {next onwards : α → Step β}
    (here : Bridged gap start mid first second)
    (behind : ∀ value otherValue, gap.view.Agree value otherValue →
      Bridged gap mid stop (next value) (onwards otherValue)) :
    Bridged gap start stop (first >>= next) (second >>= onwards) := by
  constructor
  · intro parser later result ran clean
    obtain ⟨value, between, ranFirst, ranNext⟩ := bind_ok ran
    exact here.quiet ranFirst ((behind value value (Gap.agree_self value)).quiet ranNext clean)
  · intro left right later result across ran clean
    obtain ⟨value, between, ranFirst, ranNext⟩ := bind_ok ran
    have cleanBetween := (behind value value (Gap.agree_self value)).quiet ranNext clean
    obtain ⟨otherValue, otherBetween, ranSecond, agree, acrossBetween⟩ :=
      here.meets across ranFirst cleanBetween
    obtain ⟨otherResult, last, ranOnwards, agreeResult, acrossLast⟩ :=
      (behind value otherValue agree).meets acrossBetween ranNext clean
    exact ⟨otherResult, last, (bind_of_ok ranSecond).trans ranOnwards, agreeResult, acrossLast⟩

theorem ite {condition : Prop} [Decidable condition] {left right left' right' : Step α}
    (onTrue : Bridged gap start stop left right) (onFalse : Bridged gap start stop left' right') :
    Bridged gap start stop (if condition then left else left')
      (if condition then right else right') := by
  split
  · exact onTrue
  · exact onFalse

theorem from_ (astray : Astray gap step) (bridged : Bridged gap .inside stop step other) :
    Bridged gap start stop step other := by
  refine ⟨bridged.quiet, fun left right later value across ran clean => ?_⟩
  have away : ¬gap.Stops left.cursor.peek.kind := fun stops => astray stops ran clean
  refine bridged.meets ?_ ran clean
  cases across with
  | before before => exact .before before fun _ => before.ne_nil away
  | behind semicolon parsers => exact .behind semicolon parsers
  | through _ _ through => exact absurd through.stops away

theorem anywhere (blocks : Blocks gap step) (bridged : Bridged gap .inside stop step other) :
    Bridged gap start stop step other :=
  from_ blocks.astray bridged

/-! ### Steps that stay on one side -/

/-- Where a stable step has come to: the place up to which the other side has followed, or one
among the missing braces. -/
theorem run_of_before {closing : Option (List Symbol)} {shared : List Slot}
    {left right later : Parser} {value : α} (stable : Stable True closing step)
    (steady : ∀ matching, Steady matching step) (before : gap.Before shared left right)
    (ran : step left = .ok value later) (clean : later.Clean) :
    (∃ rest last, step right = .ok value last ∧ gap.Before rest later last) ∨
      gap.IsBraces ∧ ∃ front slot more, left.cursor.ahead = front ++ later.cursor.ahead ∧
        Passed True closing front ∧ front = shared ++ slot :: more ∧
        slot :: more ++ later.cursor.ahead = gap.missing := by
  have carried := stable ran clean
  obtain ⟨front, split, passed⟩ := carried.passed
  have lands (rest : List Slot) (leaves : later.cursor.ahead = rest ++ gap.seam.rest) :
      ∃ rest last, step right = .ok value last ∧ gap.Before rest later last := by
    obtain ⟨last, ranRight, joined⟩ := carried.again gap.seam shared rest right before.joined nofun
      leaves fun _ => .inr Gap.soft
    -- Read again by itself, the left side shows what never changes about it.
    have itself : left.Joined True ⟨gap.seam.rest, gap.seam.rest, left.cursor.final⟩ shared left :=
      ⟨rfl, rfl, rfl, fun _ => rfl, before.joined.ahead, before.joined.ahead, rfl,
        .inl (.inl ⟨trivial, Gap.startsInert_rest, Gap.startsInert_rest⟩), carried.clean⟩
    obtain ⟨again, ranAgain, joinedAgain⟩ := carried.again _ shared rest left itself nofun leaves
      fun _ => .inr ⟨trivial, Gap.startsInert_rest, Gap.startsInert_rest⟩
    cases ran.symm.trans ranAgain
    have cursors : gap.view.Cursors left.cursor left.cursor := Gap.agree_self left.cursor
    have parsers : (Gap.unchanging gap.view gap.options).Parsers left left :=
      ⟨cursors, rfl, fun _ => rfl, before.options⟩
    have outcomes := steady (Gap.unchanging gap.view gap.options) parsers
    rw [ran] at outcomes
    obtain ⟨-, parsersLater⟩ := outcomes
    refine ⟨rest, last, ranRight, joined, parsersLater.records, fun semicolon => ?_⟩
    exact joinedAgain.final.trans (before.final semicolon)
  have whole : shared ++ gap.seam.rest = front ++ later.cursor.ahead :=
    before.joined.ahead.symm.trans split
  rcases List.append_eq_append_iff.mp whole with ⟨more, isFront, isRest⟩ | ⟨rest, -, leaves⟩
  · cases more with
    | nil => exact .inl (lands [] isRest.symm)
    | cons slot more =>
        obtain ⟨first, others, isMissing⟩ := List.exists_cons_of_ne_nil gap.someMissing
        rw [Omission.seam, isMissing] at isRest
        obtain rfl : first = slot := (List.cons.inj isRest).1
        rcases gap.sort with semicolon | braces
        · refine absurd ?_ (passed.spared trivial first ?_)
          · rw [gap.signs first (isMissing ▸ List.mem_cons_self), semicolon.isSign]
          · rw [isFront]
            exact List.mem_append_right _ List.mem_cons_self
        · refine .inr ⟨braces, front, first, more, split, passed, isFront, ?_⟩
          rw [braces.nothing, List.append_nil] at isRest
          rw [isMissing]
          exact isRest.symm
  · exact .inl (lands rest leaves)

/-- A piece that the right side reads just as the left one, and where it stops, what follows. -/
theorem bindStable {closing : Option (List Symbol)} {next onwards : α → Step β}
    (stable : Stable True closing step) (steady : ∀ matching, Steady matching step)
    (behind : ∀ value otherValue, gap.view.Agree value otherValue →
      Bridged gap .edge stop (next value) (onwards otherValue))
    (astray : gap.IsBraces → ∀ value, Astray gap (next value)) :
    Bridged gap .edge stop (step >>= next) (step >>= onwards) := by
  constructor
  · intro parser later result ran clean
    obtain ⟨value, between, ranFirst, ranNext⟩ := bind_ok ran
    have cleanBetween := (behind value value (Gap.agree_self value)).quiet ranNext clean
    exact (stable ranFirst cleanBetween).clean
  · intro left right later result across ran clean
    obtain ⟨value, between, ranFirst, ranNext⟩ := bind_ok ran
    have cleanBetween := (behind value value (Gap.agree_self value)).quiet ranNext clean
    have onwards' {otherValue : α} {last : Parser} (ranRight : step right = .ok otherValue last)
        (agree : gap.view.Agree value otherValue) (acrossBetween : gap.Across .edge between last) :
        ∃ otherResult last, (step >>= onwards) right = .ok otherResult last ∧
          gap.view.Agree result otherResult ∧ gap.Across stop later last := by
      obtain ⟨otherResult, last, ranOnwards, agreeResult, acrossLast⟩ :=
        (behind value otherValue agree).meets acrossBetween ranNext clean
      exact ⟨otherResult, last, (bind_of_ok ranRight).trans ranOnwards, agreeResult, acrossLast⟩
    cases across with
    | before before =>
        rcases run_of_before stable steady before ranFirst cleanBetween with
          ⟨rest, last, ranRight, beforeBetween⟩ | ⟨braces, -, slot, more, -, -, -, isMissing⟩
        · exact onwards' ranRight (Gap.agree_self value) (.before beforeBetween nofun)
        · refine absurd clean (astray braces value ?_ ranNext)
          cases ahead : between.cursor.ahead with
          | nil => exact .inr (between.cursor.peek_isEnd_iff.mpr ahead)
          | cons other others =>
              refine .inl ?_
              rw [Cursor.peek, ahead]
              refine gap.signs other ?_
              rw [← isMissing, ahead]
              exact List.mem_append_right _ List.mem_cons_self
    | behind semicolon parsers =>
        obtain ⟨_, _, ranRight, values, parsersBetween⟩ :=
          (steady gap.matching).ok_of_ok parsers ranFirst
        exact onwards' ranRight values (.behind semicolon parsersBetween)
    | through isAmong => cases isAmong

/-- A piece that ends with a closing symbol of its own. -/
theorem closed {signs : List Symbol} (stable : Stable True (some signs) step)
    (steady : ∀ matching, Steady matching step)
    (away : Symbol.rightBrace ∉ signs) : Bridges gap .edge .edge step := by
  constructor
  · exact fun parser later value ran clean => (stable ran clean).clean
  · intro left right later value across ran clean
    cases across with
    | before before =>
        rcases run_of_before stable steady before ran clean with ⟨rest, last, ranRight, beforeLater⟩ |
          ⟨braces, front, slot, more, split, passed, isFront, isMissing⟩
        · exact ⟨value, last, ranRight, Gap.agree_self value, .before beforeLater nofun⟩
        · -- The closing symbol would be one of the missing braces.
          obtain ⟨last, isLast, sign, member, isSign⟩ := passed.closed signs rfl
          have inside : last ∈ slot :: more := by
            rw [isFront, List.singleton_suffix_iff_getLast?_eq_some,
              List.getLast?_append_of_ne_nil _ (List.cons_ne_nil _ _)] at isLast
            exact List.mem_of_getLast? isLast
          have isBrace := gap.signs last (isMissing ▸ List.mem_append_left _ inside)
          rw [braces.isSign, isSign] at isBrace
          cases isBrace
          exact absurd member away
    | behind semicolon parsers =>
        obtain ⟨_, _, ranRight, values, parsersLater⟩ :=
          (steady gap.matching).ok_of_ok parsers ran
        exact ⟨_, _, ranRight, values, .behind semicolon parsersLater⟩
    | through isAmong => cases isAmong

/-! ### Single tokens -/

theorem consumes {kind : Kind} (make : Token → α)
    (reads : ∀ {parser : Parser}, parser.cursor.peek.kind = kind →
      step parser = .ok (make parser.cursor.peek) parser.advance)
    (only : ∀ {parser later : Parser} {value : α}, step parser = .ok value later →
      parser.cursor.peek.kind = kind)
    (steady : Steady gap.matching step) (blocks : Blocks gap step) :
    Bridges gap start .edge step := by
  constructor
  · intro parser later value ran clean
    cases (reads (only ran)).symm.trans ran
    exact Parser.clean_of_advance clean
  · intro left right later value across ran clean
    have here := only ran
    have away : ¬gap.Stops left.cursor.peek.kind := fun stops => blocks stops ran
    cases (reads here).symm.trans ran
    cases across with
    | before before =>
        have more := before.ne_nil away
        have same := before.peek more
        obtain ⟨slot, rest, rfl⟩ := List.exists_cons_of_ne_nil more
        refine ⟨_, right.advance, reads (same ▸ here), ?_, .before before.advance nofun⟩
        rw [same]
        exact Gap.agree_self _
    | behind semicolon parsers =>
        obtain ⟨_, _, ranRight, values, parsersLater⟩ := steady.ok_of_ok parsers ran
        exact ⟨_, _, ranRight, values, .behind semicolon parsersLater⟩
    | through _ _ through => exact absurd through.stops away

theorem expect (kind : Kind)
    (away : kind ∉ ([.symbol .semicolon, .symbol .rightBrace, .endOfFile] : List Kind)) :
    Bridges gap start .edge (Step.expect kind) :=
  consumes id expect_of_kind (fun ran => (expect_ok ran).1) (Abreast.expect kind) (.expect kind away)

theorem symbol (sign : Symbol)
    (away : Kind.symbol sign ∉
      ([.symbol .semicolon, .symbol .rightBrace, .endOfFile] : List Kind)) :
    Bridges gap start .edge (expectSymbol sign) :=
  expect _ away

theorem keyword (word : Keyword) : Bridges gap start .edge (expectKeyword word) :=
  expect _ (by simp)

theorem identifier : Bridges gap start .edge expectIdentifier :=
  consumes (fun token => ⟨token.lexeme, token.span⟩) expectIdentifier_of_kind
    (fun ran => (expectIdentifier_ok ran).1) Abreast.expectIdentifier .identifier

/-! ### Looking -/

theorem choose {ι : Type} (next onwards : ι → Step α) (seen : Parser → ι)
    (is : ∀ parser, step parser = next (seen parser) parser)
    (isOther : ∀ parser, other parser = onwards (seen parser) parser)
    (same : ∀ {left right later : Parser} {value : α}, gap.Across start left right →
      next (seen left) left = .ok value later → later.Clean → seen right = seen left)
    (bridged : ∀ seen, Bridged gap start stop (next seen) (onwards seen)) :
    Bridged gap start stop step other := by
  constructor
  · intro parser later value ran clean
    rw [is] at ran
    exact (bridged _).quiet ran clean
  · intro left right later value across ran clean
    rw [is] at ran
    rw [isOther, same across ran clean]
    exact (bridged _).meets across ran clean

theorem current {next onwards : Kind → Step β}
    (bridged : ∀ kind, Bridged gap .inside stop (next kind) (onwards kind)) :
    Bridged gap .inside stop (Step.current >>= next) (Step.current >>= onwards) :=
  choose next onwards (fun parser => parser.cursor.peek.kind)
    (fun parser => look_bind (current_eq parser)) (fun parser => look_bind (current_eq parser))
    (fun across _ _ => across.kind_peek) bridged

/-- The second kind matters only where it does not tell that something is missing. -/
theorem second {next onwards : Kind → Step α}
    (fails : ∀ {parser later : Parser} {value : α},
      next (.symbol gap.sign) parser ≠ .ok value later)
    (bridged : ∀ kind, Bridged gap .inside stop (next kind) (onwards kind)) :
    Bridged gap .inside stop (kindNth 1 >>= next) (kindNth 1 >>= onwards) := by
  refine choose next onwards (fun parser => (parser.cursor.peekNth 1).kind)
    (fun parser => look_bind (kindNth_eq parser 1)) (fun parser => look_bind (kindNth_eq parser 1))
    (fun across ran _ => ?_) bridged
  rcases across.second with same | ⟨isLeft, -⟩
  · exact same
  · rw [isLeft] at ran
    exact absurd ran fails

/-- At kinds at which nothing goes on, the same is done whichever it is. -/
theorem currentOr {next onwards : Kind → Step β} (default otherwise : Step β)
    (rests : ∀ kind, kind.isInert = true ∨ kind = .endOfFile →
      next kind = default ∧ onwards kind = otherwise)
    (bridged : ∀ kind, Bridged gap start stop (next kind) (onwards kind)) :
    Bridged gap start stop (Step.current >>= next) (Step.current >>= onwards) := by
  have normal (kind : Kind) (isInert : kind.isInert = true ∨ kind = .endOfFile) :
      next kind = next .endOfFile ∧ onwards kind = onwards .endOfFile := by
    rw [(rests kind isInert).1, (rests kind isInert).2, (rests _ (.inr rfl)).1,
      (rests _ (.inr rfl)).2]
    exact ⟨rfl, rfl⟩
  refine choose next onwards
    (fun parser => if parser.cursor.peek.kind.isInert then .endOfFile else parser.cursor.peek.kind)
    (fun parser => ?_) (fun parser => ?_) ?_ bridged
  · rw [look_bind (current_eq parser)]
    split
    · rw [(normal _ (.inl ‹_›)).1]
    · rfl
  · rw [look_bind (current_eq parser)]
    split
    · rw [(normal _ (.inl ‹_›)).2]
    · rfl
  · intro left right later value across _ _
    rcases across.kind_peek_or with same | ⟨-, stops, atOther⟩
    · rw [same]
    · rw [atOther.peek, if_pos gap.inert_next]
      rcases stops with same | same
      · rw [same, if_pos gap.inert_of_sign]
      · rw [same]
        rfl

theorem check {kind : Kind} {next onwards : Bool → Step β}
    (bridged : ∀ here, Bridged gap start stop (next here) (onwards here))
    (away : kind.isInert = false) (notEnd : kind ≠ .endOfFile) :
    Bridged gap start stop (Step.check kind >>= next) (Step.check kind >>= onwards) := by
  refine choose next onwards (fun parser => parser.cursor.peek.kind == kind)
    (fun parser => look_bind (check_eq parser kind))
    (fun parser => look_bind (check_eq parser kind)) (fun across _ _ => ?_) bridged
  rw [Bool.eq_iff_iff, beq_iff_eq, beq_iff_eq, across.peek_iff away notEnd]

theorem checkInside {kind : Kind} {next onwards : Bool → Step β}
    (bridged : ∀ here, Bridged gap .inside stop (next here) (onwards here)) :
    Bridged gap .inside stop (Step.check kind >>= next) (Step.check kind >>= onwards) :=
  choose next onwards (fun parser => parser.cursor.peek.kind == kind)
    (fun parser => look_bind (check_eq parser kind))
    (fun parser => look_bind (check_eq parser kind))
    (fun across _ _ => congrArg (· == kind) across.kind_peek) bridged

/-- Where a semicolon is missing the tokens do not end, so what stands behind is tried. -/
theorem isEnd {next onwards : Bool → Step β} (closed : ¬gap.IsBraces) (astray : Astray gap (next false))
    (bridged : ∀ here, Bridged gap start stop (next here) (onwards here)) :
    Bridged gap start stop (Step.isEnd >>= next) (Step.isEnd >>= onwards) := by
  refine choose next onwards (fun parser => parser.cursor.peek.kind == .endOfFile)
    (fun parser => look_bind (check_eq parser _)) (fun parser => look_bind (check_eq parser _))
    (fun across ran clean => ?_) bridged
  rcases across.inside_or (.inr closed) with inside | here
  · exact congrArg (· == .endOfFile) inside.kind_peek
  · rw [here] at ran
    exact absurd clean (astray (.inl here) ran)

theorem isInvocation {next onwards : Bool → Step β}
    (bridged : ∀ here, Bridged gap .inside stop (next here) (onwards here)) :
    Bridged gap .inside stop (Step.isInvocation >>= next) (Step.isInvocation >>= onwards) := by
  refine choose next onwards (fun parser => startsInvocation parser.cursor.kinds)
    (fun parser => look_bind (isInvocation_eq parser))
    (fun parser => look_bind (isInvocation_eq parser)) (fun across _ _ => ?_) bridged
  rcases across.kinds.2 with same | ⟨shared, behind, others, -, left, right, -⟩
  · rw [same]
  · rw [left, right]
    exact startsInvocation_edge shared (Kind.endsShape_of_isInert gap.inert_next)
      (Kind.endsShape_of_isInert gap.inert_of_sign) _ _

/-- What looks like a variable on one side does so on the other one, or the left side has a type
with a text that nothing closes. -/
theorem isVarDef {onTrue otherwise onFalse another : Step α}
    (variable_ : Bridged gap .inside stop onTrue otherwise)
    (plain : Bridged gap .inside stop onFalse another)
    (open_ : ∀ {parser later : Parser} {value : α} {word : Keyword},
      parser.cursor.peek.kind = .keyword word →
      word ∈ ([.mapKw, .xmlKw, .xmlDocumentKw, .jsonKw] : List Keyword) →
      (∀ look, skipType? look parser.cursor.kinds = none) →
      onFalse parser ≠ .ok value later) :
    Bridged gap .inside stop (do if ← Step.isVarDef then onTrue else onFalse)
      (do if ← Step.isVarDef then otherwise else another) := by
  refine choose (fun here => if here = true then onTrue else onFalse)
    (fun here => if here = true then otherwise else another)
    (fun parser => startsVarDef (parser.options.maxDepth + 1) parser.cursor.kinds)
    (fun parser => look_bind (isVarDef_eq parser)) (fun parser => look_bind (isVarDef_eq parser))
    (fun {left right later value} across ran _ => ?_) fun _ => .ite variable_ plain
  obtain ⟨sameDepth, kinds⟩ := across.kinds
  rw [sameDepth]
  rcases kinds with same | ⟨shared, behind, others, -, isLeft, isRight, braces⟩
  · rw [same]
  rw [isLeft] at ran ⊢
  rw [isRight]
  refine Bool.eq_iff_iff.mpr ⟨fun starts => ?_, fun starts => ?_⟩
  · rcases startsVarDef_edge gap.inert_next starts with onwards | ⟨closes, -, isOpen⟩
    · exact onwards _ (Kind.endsShape_of_isInert gap.inert_of_sign)
    · -- On the left a semicolon stands where on the right the text is closed.
      have semicolon : gap.sign = .semicolon := by
        rcases gap.sort with semicolon | braces
        · exact semicolon.isSign
        · have starts := braces.starts
          rw [closes] at starts
          cases starts
      have nothing (look : Nat) := isOpen.skipType?_eq_none look
        (show Kind.symbol gap.sign ≠ .symbol .rightBrace by simp [semicolon]) behind
      obtain ⟨word, rest, isShared, isWord⟩ := isOpen.head
      rw [if_neg (by simp [startsVarDef, nothing])] at ran
      refine absurd ran (open_ ?_ isWord fun look => (congrArg _ isLeft).trans (nothing look))
      rw [Cursor.kind_peek, isLeft, isShared]
      rfl
  · rcases startsVarDef_edge gap.inert_of_sign starts with onwards | ⟨closes, member, -⟩
    · exact onwards _ (Kind.endsShape_of_isInert gap.inert_next)
    · rcases gap.sort with semicolon | isBraces
      · rw [semicolon.isSign] at closes
        cases closes
      · cases braces isBraces _ member

/-- A list ends at the gap: on the left with a brace, and on the right with what starts there.
A semicolon does not end it, but nothing starts with one either. -/
theorem until_ {done finished onward another : Step α} (ends : Parser → Bool)
    (is : ∀ parser, step parser = (if ends parser = true then done else onward) parser)
    (isOther : ∀ parser, other parser = (if ends parser = true then finished else another) parser)
    (inside : ∀ {left right : Parser}, gap.Across .inside left right → ends right = ends left)
    (semicolon : ∀ {parser : Parser}, parser.cursor.peek.kind = .symbol .semicolon →
      ends parser = false)
    (closing : ∀ {parser : Parser}, parser.cursor.peek.kind = .symbol .rightBrace ∨
      parser.cursor.peek.kind = .endOfFile → ends parser = true)
    (starting : ∀ {parser : Parser}, gap.IsBraces → gap.AtOther parser → ends parser = true)
    (finishes : Bridged gap .among .among done finished) (astray : Astray gap onward)
    (goes : Bridged gap .inside .among onward another) :
    Bridged gap .among .among step other := by
  refine choose (fun here => if here = true then done else onward)
    (fun here => if here = true then finished else another) ends is isOther
    (fun {left right later value} across ran clean => ?_)
    (fun _ => .ite finishes (from_ astray goes))
  rcases across with ⟨before, place⟩ | ⟨isSemicolon, parsers⟩ | ⟨-, braces, through⟩
  · rename_i shared
    by_cases empty : shared = []
    · subst empty
      rcases gap.sort with isSemicolon | braces
      · have here := before.peek_left
        rw [isSemicolon.isSign] at here
        rw [if_neg (by rw [semicolon here]; nofun)] at ran
        exact absurd clean (astray (.inl before.peek_left) ran)
      · have here := before.peek_left
        rw [braces.isSign] at here
        rw [closing (.inl here), starting braces before.atOther]
    · exact inside (.before before fun _ => empty)
  · exact inside (.behind isSemicolon parsers)
  · have stops := through.stops
    rw [Gap.Stops, braces.isSign] at stops
    rw [closing stops, starting braces through.atOther]

/-! ### Optional tokens and parts -/

theorem eat? (kind : Kind) (away : kind.isInert = false)
    (notEnd : kind ≠ .endOfFile) : Bridges gap start .among (Step.eat? kind) := by
  refine of_eq ?_ (StableFrom.eat?_eq_expect kind) (StableFrom.eat?_eq_expect kind)
  refine check (fun _ => .ite ?_ ?_) away notEnd
  · exact bind (expect kind (Gap.spared_of_away away notEnd)) fun _ _ tokens => .pure (.some tokens)
  · exact .pure .none

/-- Where a token is shared, it may be one at which something goes on or not. -/
theorem eatInside (kind : Kind)
    (spared : kind ∉ ([.symbol .semicolon, .symbol .rightBrace, .endOfFile] : List Kind)) :
    Bridges gap .inside .among (Step.eat kind) := by
  have found : Bridges gap .inside .among (Step.eat? kind) := by
    refine of_eq ?_ (StableFrom.eat?_eq_expect kind) (StableFrom.eat?_eq_expect kind)
    refine checkInside fun _ => .ite ?_ (.pure .none)
    exact bind (expect kind spared) fun _ _ tokens => .pure (.some tokens)
  exact bind found fun _ _ agree => .pure (View.isSome_of_rel agree)

theorem eat (kind : Kind) (away : kind.isInert = false)
    (notEnd : kind ≠ .endOfFile) : Bridges gap start .among (Step.eat kind) :=
  bind (eat? kind away notEnd) fun _ _ found => .pure (View.isSome_of_rel found)

section Parts

variable {part another : Step α} {kind : Kind} (bridged : Bridged gap .among .among part another)
  (away : kind.isInert = false) (notEnd : kind ≠ .endOfFile)

include bridged away notEnd

theorem ifAt : Bridged gap .among .among (Step.ifAt kind part) (Step.ifAt kind another) :=
  check (fun _ => .ite (bind bridged fun _ _ found => .pure (.some found)) (.pure .none)) away notEnd

theorem ifBehind :
    Bridged gap .among .among (Step.ifBehind kind part) (Step.ifBehind kind another) := by
  refine bind (eat kind away notEnd) fun _ _ same => ?_
  cases same
  exact .ite (bind bridged fun _ _ found => .pure (.some found)) (.pure .none)

end Parts

theorem peek {next onwards : Token → Step β}
    (bridged : ∀ token other, Bridged gap start stop (next token) (onwards other)) :
    Bridged gap start stop (Step.peek >>= next) (Step.peek >>= onwards) := by
  constructor
  · intro parser later result ran clean
    rw [look_bind (peek_eq parser)] at ran
    exact (bridged parser.cursor.peek parser.cursor.peek).quiet ran clean
  · intro left right later result across ran clean
    rw [look_bind (peek_eq left)] at ran
    rw [look_bind (peek_eq right)]
    exact (bridged _ _).meets across ran clean

theorem takeComments {next onwards : List Token → Step β}
    (bridged : ∀ comments others, gap.view.Comments comments others →
      Bridged gap start stop (next comments) (onwards others)) :
    Bridged gap start stop (Step.takeComments >>= next) (Step.takeComments >>= onwards) := by
  constructor
  · intro parser later result ran clean
    obtain ⟨comments, taken⟩ := takeComments_moves parser
    rw [bind_of_ok taken] at ran
    have quiet := (bridged comments comments (Gap.comments_agree _ _)).quiet ran clean
    exact (Parser.clean_moved _).mp quiet
  · intro left right later result across ran clean
    obtain ⟨comments, taken⟩ := takeComments_moves left
    obtain ⟨others, takenToo⟩ := takeComments_moves right
    rw [bind_of_ok taken] at ran
    rw [bind_of_ok takenToo]
    exact (bridged comments others (Gap.comments_agree _ _)).meets across.withoutComments ran clean

/-! ### Closing tokens -/

theorem endStatement_of_peek {right : Parser} (semicolon : gap.IsSemicolon)
    (isNext : right.cursor.peek = gap.next) :
    ∃ place, endStatement right = .ok ⟨place, true⟩ (right.report gap.note) := by
  have follows := semicolon.follows
  rw [← isNext] at follows
  obtain ⟨place, ran⟩ := endStatement_of_follows follows
  rw [isNext, ← semicolon.isSign] at ran
  exact ⟨place, ran⟩

theorem closeBrace_of_peek {right : Parser} (braces : gap.IsBraces)
    (isNext : right.cursor.peek = gap.next) :
    ∃ place, closeBrace right = .ok ⟨place, true⟩ (right.report gap.note) := by
  have other : right.cursor.peek.kind ≠ .symbol .rightBrace := by
    intro same
    have starts := braces.starts
    rw [← isNext, same] at starts
    cases starts
  rw [closeBrace, bind_of_ok (eat?_of_other other)]
  simp only [assume, look_bind (cursor_eq right), isNext, ← braces.isSign]
  exact ⟨_, rfl⟩

theorem ended {next onwards : Step β} (bridged : Bridged gap .edge stop next onwards) :
    Bridged gap start stop (do let _ ← endStatement; next) (do let _ ← endStatement; onwards) := by
  constructor
  · intro parser later result ran clean
    obtain ⟨marker, between, ranEnd, ranNext⟩ := bind_ok ran
    have cleanBetween := bridged.quiet ranNext clean
    have here := StableFrom.semicolon_of_endStatement ranEnd cleanBetween
    cases (endStatement_of_kind here).symm.trans ranEnd
    exact Parser.clean_of_advance cleanBetween
  · intro left right later result across ran clean
    obtain ⟨marker, between, ranEnd, ranNext⟩ := bind_ok ran
    have cleanBetween := bridged.quiet ranNext clean
    have here := StableFrom.semicolon_of_endStatement ranEnd cleanBetween
    have onwards {mark : TokenMarker} {last : Parser} (ranRight : endStatement right = .ok mark last)
        (acrossBetween : gap.Across .edge between last) :
        ∃ otherResult last, (endStatement >>= fun _ => onwards) right = .ok otherResult last ∧
          gap.view.Agree result otherResult ∧ gap.Across stop later last := by
      obtain ⟨otherResult, last, ranOnwards, found⟩ := bridged.meets acrossBetween ranNext clean
      exact ⟨otherResult, last, (bind_of_ok ranRight).trans ranOnwards, found⟩
    cases across with
    | @before shared before =>
        cases (endStatement_of_kind here).symm.trans ranEnd
        cases shared with
        | nil =>
            rcases gap.sort with semicolon | braces
            · obtain ⟨place, ranRight⟩ := endStatement_of_peek semicolon before.atOther.peek
              exact onwards ranRight (.behind semicolon (before.behind semicolon))
            · have brace := before.peek_left
              rw [here, braces.isSign] at brace
              cases brace
        | cons slot rest =>
            have same := before.peek (List.cons_ne_nil _ _)
            exact onwards (endStatement_of_kind (same ▸ here)) (.before before.advance nofun)
    | behind semicolon parsers =>
        obtain ⟨_, _, ranRight, -, parsersBetween⟩ := Abreast.endStatement.ok_of_ok parsers ranEnd
        exact onwards ranRight (.behind semicolon parsersBetween)
    | through isAmong braces through =>
        rcases through.stops with isBrace | isEnd
        · rw [here, braces.isSign] at isBrace
          cases isBrace
        · rw [here] at isEnd
          cases isEnd

theorem closeBrace : Bridges gap .among .among closeBrace := by
  constructor
  · intro parser later marker ran clean
    cases (closeBrace_of_kind (StableFrom.rightBrace_of_closeBrace ran clean)).symm.trans ran
    exact Parser.clean_of_advance clean
  · intro left right later marker across ran clean
    have here := StableFrom.rightBrace_of_closeBrace ran clean
    -- Where a brace stands and where it is assumed does not show.
    have marks (braces : gap.IsBraces) (left right : TokenMarker) : gap.view.Agree left right := by
      change TokenMarker.sifted gap.sieve _ = TokenMarker.sifted gap.sieve _
      rw [TokenMarker.sifted, TokenMarker.sifted, braces.marks]
      rfl
    cases across with
    | @before shared before =>
        cases (closeBrace_of_kind here).symm.trans ran
        cases shared with
        | nil =>
            rcases gap.sort with semicolon | braces
            · have sign := before.peek_left
              rw [here, semicolon.isSign] at sign
              cases sign
            · obtain ⟨place, ranRight⟩ := closeBrace_of_peek braces before.atOther.peek
              exact ⟨_, _, ranRight, marks braces _ _, .through rfl braces (before.through braces)⟩
        | cons slot rest =>
            have same := before.peek (List.cons_ne_nil _ _)
            refine ⟨_, _, closeBrace_of_kind (same ▸ here), ?_, .before before.advance nofun⟩
            rw [same]
            exact Gap.agree_self _
    | behind semicolon parsers =>
        obtain ⟨_, _, ranRight, values, parsersLater⟩ := Abreast.closeBrace.ok_of_ok parsers ran
        exact ⟨_, _, ranRight, values, .behind semicolon parsersLater⟩
    | through isAmong braces through =>
        cases (closeBrace_of_kind here).symm.trans ran
        obtain ⟨place, ranRight⟩ := closeBrace_of_peek braces through.atOther.peek
        exact ⟨_, _, ranRight, marks braces _ _, .through rfl braces through.advance⟩

/-- The left side does not come to a semicolon among the missing braces. -/
theorem astray_endStatement (braces : gap.IsBraces) : Astray gap endStatement := by
  intro parser later marker stops ran clean
  have here := StableFrom.semicolon_of_endStatement ran clean
  rw [Gap.Stops, here, braces.isSign] at stops
  rcases stops with same | same <;> cases same

theorem stableEnded {closing : Option (List Symbol)} {next onwards : α → Step β}
    (stable : Stable True closing step) (steady : ∀ matching, Steady matching step)
    (bridged : ∀ value otherValue, gap.view.Agree value otherValue →
      Bridged gap .edge stop (next value) (onwards otherValue)) :
    Bridged gap .edge stop
      (do let value ← step; let _ ← endStatement; next value)
      (do let value ← step; let _ ← endStatement; onwards value) := by
  refine bindStable stable steady (fun _ _ agree => ended (bridged _ _ agree)) fun braces value => ?_
  exact (astray_endStatement braces).bind fun _ => (bridged value value (Gap.agree_self value)).quiet

theorem stableThen {closing : Option (List Symbol)} {next onwards : α → Step β}
    (stable : Stable True closing step) (steady : ∀ matching, Steady matching step)
    (blocks : ∀ value, Blocks gap (next value))
    (bridged : ∀ value otherValue, gap.view.Agree value otherValue →
      Bridged gap .edge stop (next value) (onwards otherValue)) :
    Bridged gap .edge stop (step >>= next) (step >>= onwards) :=
  bindStable stable steady bridged fun _ value => (blocks value).astray

/-! ### Repeating -/

omit [Matchable σ] in
theorem quiet_loop {turn : σ → Step (ForInStep σ)}
    (quiet : ∀ {state : σ} {parser later : Parser} {decision : ForInStep σ},
      turn state parser = .ok decision later → later.Clean → parser.Clean)
    {state final : σ} {parser later : Parser} (ran : Step.loop turn state parser = .ok final later)
    (clean : later.Clean) : parser.Clean := by
  rcases loop_ok ran with ran | ⟨next, between, ran, ⟨shorter, rest⟩ | ⟨-, -, rfl⟩⟩
  · exact quiet ran clean
  · exact quiet ran (quiet_loop quiet rest clean)
  · exact quiet ran clean
termination_by parser.cursor.remaining

section Loops

variable {turn : σ → Step (ForInStep σ)} (advancing : Advancing turn)

include advancing

theorem meets_loop
    (turns : ∀ state other, gap.view.Agree state other →
      Bridged gap .among .among (turn state) (turn other))
    {state other final : σ} {left right later : Parser} (states : gap.view.Agree state other)
    (across : gap.Across .among left right) (ran : Step.loop turn state left = .ok final later)
    (clean : later.Clean) :
    ∃ otherFinal last, Step.loop turn other right = .ok otherFinal last ∧
      gap.view.Agree final otherFinal ∧ gap.Across .among later last := by
  have bridged := turns state other states
  rcases loop_ok ran with ran | ⟨next, between, ran, ⟨shorter, rest⟩ | ⟨still, -, -⟩⟩
  · obtain ⟨decision, last, ranRight, agree, acrossLast⟩ := bridged.meets across ran clean
    cases agree with
    | done agree => exact ⟨_, last, loop_of_done ranRight, agree, acrossLast⟩
  · have cleanBetween := quiet_loop (fun {state _ _ _} ran clean =>
      (turns state state (Gap.agree_self state)).quiet ran clean) rest clean
    obtain ⟨decision, last, ranRight, agree, acrossLast⟩ := bridged.meets across ran cleanBetween
    cases agree with
    | yield agree =>
        rw [loop_of_yield ranRight (advancing _ _ _ _ ranRight)]
        exact meets_loop turns agree acrossLast rest clean
  · exact absurd (advancing _ _ _ _ ran) still
termination_by left.cursor.remaining

theorem loop
    (turns : ∀ state other, gap.view.Agree state other →
      Bridged gap .among .among (turn state) (turn other))
    {state other : σ} (states : gap.view.Agree state other) :
    Bridged gap .among .among (Step.loop turn state) (Step.loop turn other) :=
  ⟨fun _ _ _ ran clean => quiet_loop (fun {state _ _ _} ran clean =>
      (turns state state (Gap.agree_self state)).quiet ran clean) ran clean,
    fun _ _ _ _ across ran clean => meets_loop advancing turns states across ran clean⟩

/-- A loop that stops at the gap on the left side may go on there on the right one. Yet what
stands behind the loop does not end well on the left side then. -/
theorem loopThen {next onwards : σ → Step β}
    (turns : ∀ state other, gap.view.Agree state other →
      Bridged gap .inside .edge (turn state) (turn other))
    (still : ∀ {state : σ} {parser : Parser}, parser.cursor.peek.kind = .symbol gap.sign →
      turn state parser = .ok (.done state) parser)
    (astray : ∀ {state : σ} {parser later : Parser} {result : β},
      parser.cursor.peek.kind = .symbol gap.sign → next state parser = .ok result later → ¬later.Clean)
    (behind : ∀ state other, gap.view.Agree state other →
      Bridged gap .inside stop (next state) (onwards other))
    {state other : σ} (states : gap.view.Agree state other) :
    Bridged gap .edge stop (Step.loop turn state >>= next) (Step.loop turn other >>= onwards) := by
  have quiet {state final : σ} {parser later : Parser}
      (ran : Step.loop turn state parser = .ok final later) (clean : later.Clean) : parser.Clean :=
    quiet_loop (fun {state _ _ _} ran clean =>
      (turns state state (Gap.agree_self state)).quiet ran clean) ran clean
  have quietBehind {state : σ} {parser later : Parser} {result : β}
      (ran : next state parser = .ok result later) (clean : later.Clean) : parser.Clean :=
    (behind state state (Gap.agree_self state)).quiet ran clean
  -- Where the loop has stopped on the left side, a token is shared.
  have meets (bound : Nat) {state other final : σ} {left right between later : Parser} {result : β}
      (within : left.cursor.remaining < bound) (states : gap.view.Agree state other)
      (across : gap.Across .edge left right) (ran : Step.loop turn state left = .ok final between)
      (ranNext : next final between = .ok result later) (clean : later.Clean) :
      ∃ otherFinal last, Step.loop turn other right = .ok otherFinal last ∧
        gap.view.Agree final otherFinal ∧ gap.Across .inside between last := by
    induction bound generalizing state other left right with
    | zero => exact absurd within (Nat.not_lt_zero _)
    | succ bound ih =>
        rcases across.inside_or (.inl nofun) with inside | here
        · rcases loop_ok ran with ran | ⟨middle, place, ran, ⟨shorter, rest⟩ | ⟨notMoved, -, -⟩⟩
          · obtain ⟨decision, last, ranRight, agree, acrossLast⟩ :=
              (turns state other states).meets inside ran (quietBehind ranNext clean)
            cases agree with
            | done agree =>
                refine ⟨_, last, loop_of_done ranRight, agree, ?_⟩
                exact (acrossLast.inside_or (.inl nofun)).resolve_right fun here => astray here ranNext clean
          · obtain ⟨decision, last, ranRight, agree, acrossLast⟩ :=
              (turns state other states).meets inside ran (quiet rest (quietBehind ranNext clean))
            cases agree with
            | yield agree =>
                rw [loop_of_yield ranRight (advancing _ _ _ _ ranRight)]
                exact ih (by omega) agree acrossLast rest
          · exact absurd (advancing _ _ _ _ ran) notMoved
        · rw [loop_of_done (still here)] at ran
          cases ran
          exact absurd clean (astray here ranNext)
  constructor
  · intro parser later result ran clean
    obtain ⟨final, between, ranLoop, ranNext⟩ := bind_ok ran
    exact quiet ranLoop (quietBehind ranNext clean)
  · intro left right later result across ran clean
    obtain ⟨final, between, ranLoop, ranNext⟩ := bind_ok ran
    obtain ⟨otherFinal, otherBetween, ranRight, agree, inside⟩ :=
      meets _ (Nat.lt_succ_self _) states across ranLoop ranNext clean
    obtain ⟨otherResult, last, ranOnwards, found⟩ :=
      (behind final otherFinal agree).meets inside ranNext clean
    exact ⟨otherResult, last, (bind_of_ok ranRight).trans ranOnwards, found⟩

end Loops

theorem whileAt {kind : Kind} {item : Step α} (bridges : Bridges gap .among .among item)
    (advancing : Advancing (nextAt kind item)) (away : kind.isInert = false)
    (notEnd : kind ≠ .endOfFile) : Bridges gap .among .among (Step.whileAt kind item) := by
  refine loop advancing (fun items others agree => ?_) .nil
  refine check (fun _ => .ite ?_ (.pure (.done agree))) away notEnd
  exact bind bridges fun _ _ found => .pure (.yield (List.rel_append agree (.cons found .nil)))

/-! ### Recovering -/

/-- A step that does what a part of it does, as long as nothing is reported. -/
theorem unfailing {whole another : Step α} (bridged : Bridged gap start stop step other)
    (calm : ∀ {parser later : Parser} {value : α}, whole parser = .ok value later → later.Clean →
      step parser = .ok value later)
    (again : ∀ {parser later : Parser} {value : α}, other parser = .ok value later →
      another parser = .ok value later) : Bridged gap start stop whole another := by
  refine ⟨fun _ _ _ ran clean => bridged.quiet (calm ran clean) clean, ?_⟩
  intro left right later value across ran clean
  obtain ⟨otherValue, last, ranRight, found⟩ := bridged.meets across (calm ran clean) clean
  exact ⟨otherValue, last, again ranRight, found⟩

theorem orRecover {point : SyncPoint} {instead otherwise : Span → α}
    (bridged : Bridged gap start stop step other) :
    Bridged gap start stop (Step.orRecover point step instead)
      (Step.orRecover point other otherwise) := by
  refine unfailing bridged (fun {parser later value} ran clean => ?_) orRecover_of_ok
  rcases orRecover_cases point step instead parser with
    ⟨_, _, ranPart, same⟩ | ⟨_, _, _, _, _, same, _, reported⟩
  · cases same.symm.trans ran
    exact ranPart
  · cases same.symm.trans ran
    exact absurd clean reported

theorem orSkip {instead otherwise : Span → α} (bridged : Bridged gap start stop step other) :
    Bridged gap start stop (Step.orSkip step instead) (Step.orSkip other otherwise) := by
  refine unfailing bridged (fun {parser later value} ran clean => ?_) orSkip_of_ok
  rcases orSkip_cases step instead parser with
    ⟨_, _, ranPart, same⟩ | ⟨_, _, _, _, _, same, _, reported⟩
  · cases same.symm.trans ran
    exact ranPart
  · cases same.symm.trans ran
    exact absurd clean reported

end Bridged

end Step

end ServiceLang
