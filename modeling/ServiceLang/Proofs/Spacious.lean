import ServiceLang.Proofs.Edges
import ServiceLang.Proofs.Stable

set_option autoImplicit false

/-! The limit on nesting. A step that stays within its levels, and reports nothing, gives the
same under every limit that allows for these levels: what looking ahead makes of a type that
is read does not depend on how many levels it knows beyond. -/

namespace ServiceLang

def Parser.limited (parser : Parser) (depth : Nat) : Parser :=
  { parser with
    options := { parser.options with maxDepth := depth }
    depth := 0
    depth_le := Nat.zero_le _ }

theorem Parser.Clean.limited {parser : Parser} (clean : parser.Clean) (depth : Nat) :
    (parser.limited depth).Clean :=
  ⟨clean.nothingReported, clean.nothingRemembered, clean.belowLimit⟩

/-! ### Looking ahead -/

/-- Looking ahead makes the same of these kinds if it knows more levels than this. -/
def Settled (room : Nat) (kinds : List Kind) : Prop :=
  ∃ seen, ∀ look, room < look → skipType? look kinds = seen

namespace Settled

variable {room : Nat} {kinds : List Kind}

/-- Only the word `map` lets a type nest. -/
theorem of_head (notMap : kinds.head? ≠ some (.keyword .mapKw)) : Settled room kinds := by
  refine ⟨skipType? 1 kinds, fun look within => ?_⟩
  obtain ⟨look, rfl⟩ := Nat.exists_eq_succ_of_ne_zero (Nat.ne_zero_of_lt within)
  have same : skipBase? (skipType? look) kinds = skipBase? (skipType? 0) kinds := by
    unfold skipBase?
    split
    · exact absurd rfl notMap
    all_goals rfl
  rw [skipType?, skipType?, same]

theorem of_typeName {parser later : Parser} {type : TypeName} {levels : Nat}
    (within : levels ≤ room) (ran : Grammar.typeName levels parser = .ok type later) :
    Settled room parser.cursor.kinds := by
  refine ⟨some later.cursor.kinds, fun look more => ?_⟩
  exact Grammar.skipType?_of_typeName (Nat.le_trans within (Nat.le_of_lt more)) ran

theorem of_expr {parser later : Parser} {value : Expr} {levels power : Nat}
    (within : levels ≤ room) (ran : Grammar.expr levels power parser = .ok value later) :
    Settled room parser.cursor.kinds := by
  by_cases isMap : parser.cursor.peek.kind = .keyword .mapKw
  · obtain ⟨left, seen⟩ := skipType?_of_expr isMap (by simp) ran
    exact ⟨some left, fun look more => seen look (Nat.le_trans within (Nat.le_of_lt more))⟩
  · apply of_head
    intro head
    exact isMap ((Step.head_kinds (.keyword .mapKw) nofun).mp head)

theorem startsVarDef (settled : Settled room kinds) {look other : Nat} (more : room < look)
    (moreOther : room < other) :
    startsVarDef look kinds = ServiceLang.startsVarDef other kinds := by
  obtain ⟨seen, same⟩ := settled
  rw [ServiceLang.startsVarDef, ServiceLang.startsVarDef, same look more, same other moreOther]

theorem startsCast (settled : Settled room kinds) {look other : Nat} (more : room < look)
    (moreOther : room < other) :
    startsCast look (.symbol .leftParen :: kinds) =
      ServiceLang.startsCast other (.symbol .leftParen :: kinds) := by
  obtain ⟨seen, same⟩ := settled
  rw [ServiceLang.startsCast, ServiceLang.startsCast, same look more, same other moreOther]

end Settled

/-! ### Steps -/

namespace Step

variable {α β σ : Type} {room : Nat}

/-- How a step came to a value: nothing had been reported before, the options are kept, and
the same is read under every limit that leaves so many levels, if the limit does. -/
structure Kept (room : Nat) (step : Step α) (parser : Parser) (value : α) (later : Parser) :
    Prop where
  clean : parser.Clean
  options : later.options = parser.options
  again : room ≤ parser.options.maxDepth → ∀ depth, room ≤ depth →
    step (parser.limited depth) = .ok value (later.limited depth)

/-- A step that reads the same under every limit that leaves so many levels, as long as
nothing is reported. -/
def Spacious (room : Nat) (step : Step α) : Prop :=
  ∀ ⦃parser later : Parser⦄ ⦃value : α⦄, step parser = .ok value later → later.Clean →
    Kept room step parser value later

namespace Spacious

/-! ### Steps one after another -/

theorem of_never {step : Step α}
    (never : ∀ {parser value later}, step parser = .ok value later → ¬later.Clean) :
    Spacious room step :=
  fun _ _ _ ran clean => absurd clean (never ran)

theorem fail (diagnostic : Diagnostic) : Spacious room (Step.fail diagnostic : Step α) :=
  of_never fun ran => absurd ran fail_ne_ok

theorem failAt (other : Token → Diagnostic) : Spacious room (Step.failAt other : Step α) :=
  of_never fun ran => absurd ran failAt_ne_ok

theorem tooDeep : Spacious room (Step.tooDeep : Step α) :=
  of_never fun ran => absurd ran tooDeep_ne_ok

theorem look {look : Step α} (seen : Parser → α)
    (looks : ∀ parser, look parser = .ok (seen parser) parser)
    (same : ∀ parser depth, seen (parser.limited depth) = seen parser) : Spacious room look := by
  intro parser later value ran clean
  cases ran.symm.trans (looks parser)
  refine ⟨clean, rfl, fun _ depth _ => ?_⟩
  rw [looks, same]

theorem pure (value : α) : Spacious room (Pure.pure value : Step α) :=
  look (fun _ => value) (fun _ => rfl) fun _ _ => rfl

theorem bind {first : Step α} {next : α → Step β} (here : Spacious room first)
    (onwards : ∀ value, Spacious room (next value)) : Spacious room (first >>= next) := by
  intro parser later result ran clean
  obtain ⟨value, between, ranFirst, ranNext⟩ := bind_ok ran
  have behind := onwards value ranNext clean
  have before := here ranFirst behind.clean
  refine ⟨before.clean, behind.options.trans before.options, fun inside depth more => ?_⟩
  have insideBehind : room ≤ between.options.maxDepth := by rwa [before.options]
  exact (bind_of_ok (before.again inside depth more)).trans (behind.again insideBehind depth more)

theorem mapped {step : Step α} (make : α → β) (spacious : Spacious room step) :
    Spacious room (step >>= fun value => Pure.pure (make value)) :=
  spacious.bind fun _ => .pure _

theorem ite {condition : Prop} [Decidable condition] {left right : Step α}
    (onTrue : Spacious room left) (onFalse : Spacious room right) :
    Spacious room (if condition then left else right) := by
  split
  · exact onTrue
  · exact onFalse

/-! ### Looking -/

theorem peek : Spacious room Step.peek :=
  look _ peek_eq fun _ _ => rfl

theorem current : Spacious room Step.current :=
  look _ current_eq fun _ _ => rfl

theorem check (kind : Kind) : Spacious room (Step.check kind) :=
  look _ (fun parser => check_eq parser kind) fun _ _ => rfl

theorem kindNth (count : Nat) : Spacious room (Step.kindNth count) :=
  look _ (fun parser => kindNth_eq parser count) fun _ _ => rfl

theorem spanFrom (start : Span) : Spacious room (Step.spanFrom start) :=
  look _ (fun parser => spanFrom_eq parser start) fun _ _ => rfl

theorem isInvocation : Spacious room Step.isInvocation :=
  look _ isInvocation_eq fun _ _ => rfl

theorem isJoinCondition : Spacious room Step.isJoinCondition :=
  look _ isJoinCondition_eq fun _ _ => rfl

theorem spanned (start : Span) (make : Span → α) :
    Spacious room (do return make (← Step.spanFrom start)) :=
  (spanFrom start).mapped make

/-- A choice that looking ahead makes, where what is read settles what it sees. -/
theorem choose {look : Step Bool} {left right : Step α} (seen : Nat → List Kind → Bool)
    (looks : ∀ parser, look parser =
      .ok (seen (parser.options.maxDepth + 1) parser.cursor.kinds) parser)
    (settles : ∀ {parser later : Parser} {value : α},
      left parser = .ok value later ∨ right parser = .ok value later →
      ∀ look other, room < look → room < other →
        seen look parser.cursor.kinds = seen other parser.cursor.kinds)
    (onTrue : Spacious room left) (onFalse : Spacious room right) :
    Spacious room (do if ← look then left else right) := by
  intro parser later value ran clean
  rw [look_bind (looks parser)] at ran
  have kept := (ite onTrue onFalse : Spacious room _) ran clean
  refine ⟨kept.clean, kept.options, fun inside depth more => ?_⟩
  have either : left parser = .ok value later ∨ right parser = .ok value later := by
    split at ran
    · exact .inl ran
    · exact .inr ran
  have same := settles either (depth + 1) (parser.options.maxDepth + 1) (Nat.lt_succ_of_le more)
    (Nat.lt_succ_of_le inside)
  rw [look_bind (looks _)]
  change (if seen (depth + 1) parser.cursor.kinds = true then left else right) _ = _
  rw [same]
  exact kept.again inside depth more

/-! ### Consuming -/

theorem advance : Spacious room Step.advance := by
  intro parser later token ran clean
  cases ran
  exact ⟨(Parser.clean_moved _).mp clean, rfl, fun _ _ _ => rfl⟩

theorem consumes {step : Step α} (kind : Kind) (make : Token → α)
    (reads : ∀ {parser : Parser}, parser.cursor.peek.kind = kind →
      step parser = .ok (make parser.cursor.peek) parser.advance)
    (only : ∀ {parser value later}, step parser = .ok value later → later.Clean →
      parser.cursor.peek.kind = kind) : Spacious room step := by
  intro parser later value ran clean
  have here := only ran clean
  cases ran.symm.trans (reads here)
  exact ⟨Parser.clean_of_advance clean, rfl, fun _ depth _ => reads here⟩

theorem expect (kind : Kind) : Spacious room (Step.expect kind) :=
  consumes kind id expect_of_kind fun ran _ => (expect_ok ran).1

theorem symbol (sign : Symbol) : Spacious room (expectSymbol sign) :=
  expect _

theorem keyword (word : Keyword) : Spacious room (expectKeyword word) :=
  expect _

theorem identifier : Spacious room expectIdentifier :=
  consumes .identifier (fun token => ⟨token.lexeme, token.span⟩) expectIdentifier_of_kind
    fun ran _ => (expectIdentifier_ok ran).1

theorem closeBrace : Spacious room Step.closeBrace :=
  consumes (.symbol .rightBrace) (fun token => ⟨token.span, false⟩) closeBrace_of_kind
    StableFrom.rightBrace_of_closeBrace

theorem endStatement : Spacious room Step.endStatement :=
  consumes (.symbol .semicolon) (fun token => ⟨token.span, false⟩) endStatement_of_kind
    StableFrom.semicolon_of_endStatement

theorem eat? (kind : Kind) : Spacious room (Step.eat? kind) :=
  (check kind).bind fun _ => ite (advance.mapped some) (pure _)

theorem eat (kind : Kind) : Spacious room (Step.eat kind) :=
  (eat? kind).mapped _

theorem takeComments : Spacious room Step.takeComments := by
  intro parser later comments ran clean
  rw [takeComments_eq] at ran
  by_cases keep : parser.options.keepComments = true
  · rw [if_pos keep] at ran
    cases ran
    refine ⟨clean.moved parser.cursor, rfl, fun _ depth _ => ?_⟩
    rw [takeComments_eq]
    exact if_pos keep
  · rw [if_neg keep] at ran
    cases ran
    refine ⟨clean, rfl, fun _ depth _ => ?_⟩
    rw [takeComments_eq]
    exact if_neg keep

/-! ### Repeating -/

theorem loop {turn : σ → Step (ForInStep σ)} (spacious : ∀ state, Spacious room (turn state))
    (state : σ) : Spacious room (Step.loop turn state) := by
  intro parser later final ran clean
  induction less : parser.cursor.remaining using Nat.strongRecOn generalizing parser state with
  | ind _ ih =>
    subst less
    rcases loop_ok ran with ranTurn | ⟨next, between, ranTurn, ⟨shorter, rest⟩ | ⟨still, rfl, rfl⟩⟩
    · have kept := spacious state ranTurn clean
      exact ⟨kept.clean, kept.options, fun inside depth more =>
        loop_of_done (kept.again inside depth more)⟩
    · have behind := ih _ shorter next rest rfl
      have before := spacious state ranTurn behind.clean
      refine ⟨before.clean, behind.options.trans before.options, fun inside depth more => ?_⟩
      have insideBehind : room ≤ between.options.maxDepth := by rwa [before.options]
      exact (loop_of_yield (before.again inside depth more) shorter).trans
        (behind.again insideBehind depth more)
    · have kept := spacious state ranTurn clean
      exact ⟨kept.clean, kept.options, fun inside depth more =>
        loop_of_still (kept.again inside depth more) still⟩

theorem commaSeparated {item : Step α} (spacious : Spacious room item) :
    Spacious room (Step.commaSeparated item) :=
  loop (fun _ => spacious.bind fun _ => (eat _).bind fun _ => ite (pure _) (pure _)) []

theorem whileAt {kind : Kind} {item : Step α} (spacious : Spacious room item) :
    Spacious room (Step.whileAt kind item) :=
  loop (fun _ => (check kind).bind fun _ => ite (spacious.mapped _) (pure _)) []

theorem closedList {close : Symbol} {item : Step α} (spacious : Spacious room item) :
    Spacious room (Step.closedList close item) :=
  bind ((check _).bind fun _ => ite (pure _) spacious.commaSeparated) fun _ => (symbol _).mapped _

theorem ifAt {kind : Kind} {part : Step α} (spacious : Spacious room part) :
    Spacious room (Step.ifAt kind part) :=
  (check kind).bind fun _ => ite (spacious.mapped _) (pure _)

theorem ifBehind {kind : Kind} {part : Step α} (spacious : Spacious room part) :
    Spacious room (Step.ifBehind kind part) :=
  (eat kind).bind fun _ => ite (spacious.mapped _) (pure _)

/-! ### Reporting -/

theorem report (diagnostic : Diagnostic) : Spacious room (Step.report diagnostic) :=
  of_never fun {parser _ _} ran => by
    cases ran
    exact parser.not_clean_report diagnostic

theorem orRecover {point : SyncPoint} {part : Step α} {instead : Span → α}
    (spacious : Spacious room part) : Spacious room (Step.orRecover point part instead) := by
  intro parser later value ran clean
  rcases orRecover_cases point part instead parser with
    ⟨_, _, ranPart, same⟩ | ⟨_, _, _, _, _, same, _, reported⟩
  · cases same.symm.trans ran
    have kept := spacious ranPart clean
    exact ⟨kept.clean, kept.options, fun inside depth more =>
      orRecover_of_ok (kept.again inside depth more)⟩
  · cases same.symm.trans ran
    exact absurd clean reported

end Spacious

end Step

end ServiceLang
