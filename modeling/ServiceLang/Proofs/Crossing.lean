import ServiceLang.Proofs.AbreastDefinition
import ServiceLang.Proofs.Edges
import ServiceLang.Proofs.Opening
import ServiceLang.Proofs.RoundTrip
import ServiceLang.Proofs.SpanningDefinition
import ServiceLang.Proofs.StableDefinition

set_option autoImplicit false

/-! Reading on beyond a seam. A step that nothing goes wrong in passes over the shared tokens and
over what stands at the seam. With other tokens there it may still give a value that agrees. That
it does is known of one part of it; the parts in front read shared tokens only, and those behind
keep abreast. -/

namespace ServiceLang

/-- Where spans stand for themselves, every value does. -/
theorem Matching.agree_self {matching : Matching} (spans : ∀ span, matching.Spans span span)
    {α : Type} [Matchable α] (value : α) : matching.Agree value value :=
  Matchable.agree_self matching.toView spans value

/-- The parser stands somewhere in a layout, and has these options. -/
structure Parser.Within (layout : Layout) (options : Options) (parser : Parser) : Prop where
  stands : ∃ index, layout.Stands index parser
  options : parser.options = options

/-- A run stays within a layout, and never changes the options. -/
theorem Parser.Within.after {α : Type} {layout : Layout} {options : Options} {parser later : Parser}
    {step : Step α} {value : α} (within : parser.Within layout options)
    (orderly : Step.Orderly (fun _ => True) step) (ran : step parser = .ok value later) :
    later.Within layout options := by
  obtain ⟨index, stands⟩ := within.stands
  obtain ⟨behind, -, standsLater⟩ := stands.of_run (orderly parser)
  have same := ((orderly parser).keeping (fun later => later.options = options)
    (fun _ same _ _ => same) (fun _ same => same)
    (fun later diagnostic same => (later.options_report diagnostic).trans same) within.options).2
  rw [Step.after_of_ok ran] at standsLater same
  exact ⟨⟨behind, standsLater⟩, same⟩

namespace Step

variable {α β γ σ : Type}

/-- A step has passed over what stands at a seam. Read with what else may stand there, it gives a
value that agrees, and the two come to parsers of which `lands` holds. -/
structure CrossesFrom [Matchable α] (matching : Matching) (seam : Seam)
    (lands : Parser → Parser → Prop) (step : Step α) (parser : Parser) (value : α)
    (later : Parser) : Prop where
  clean : parser.Clean
  before : ∃ shared, shared ≠ [] ∧ parser.cursor.ahead = shared ++ seam.rest
  meets : ∀ ⦃shared : List Slot⦄ ⦃right : Parser⦄, parser.Joined False seam shared right →
    ∃ other last, step right = .ok other last ∧ matching.Agree value other ∧ lands later last

/-- A step that, wherever it gives a wanted value, has passed over what stands at a seam. -/
def Crosses [Matchable α] (matching : Matching) (seam : Seam) (layout : Layout) (options : Options)
    (lands : Parser → Parser → Prop) (wanted : α → Prop) (step : Step α) : Prop :=
  ∀ ⦃parser later : Parser⦄ ⦃value : α⦄, parser.Within layout options →
    step parser = .ok value later → later.Clean → wanted value →
    CrossesFrom matching seam lands step parser value later

variable [Matchable α] [Matchable β] [Matchable σ] {matching : Matching} {seam : Seam}
  {layout : Layout} {options : Options} {lands : Parser → Parser → Prop}
  {closing : Option (List Symbol)}

theorem CrossesFrom.front {first : Step γ} {step : Step α} {parser between later : Parser}
    {middle : γ} {value : α} (stable : Stable False closing first)
    (ran : first parser = .ok middle between)
    (crosses : CrossesFrom matching seam lands step between value later) :
    parser.Clean ∧ (∃ shared, shared ≠ [] ∧ parser.cursor.ahead = shared ++ seam.rest) ∧
      ∀ ⦃shared : List Slot⦄ ⦃right : Parser⦄, parser.Joined False seam shared right →
        ∃ rest last, first right = .ok middle last ∧ between.Joined False seam rest last := by
  have carried := stable ran crosses.clean
  obtain ⟨rest, more, split⟩ := crosses.before
  obtain ⟨front, passed, -⟩ := carried.passed
  refine ⟨carried.clean, ⟨front ++ rest, ?_, ?_⟩, fun shared right joined => ?_⟩
  · exact List.append_ne_nil_of_right_ne_nil front more
  · rw [passed, split, List.append_assoc]
  · obtain ⟨last, ranRight, joinedLast⟩ :=
      carried.again seam shared rest right joined nofun split fun empty => absurd empty more
    exact ⟨rest, last, ranRight, joinedLast⟩

namespace CrossesFrom

theorem ne_nil {step : Step α} {parser later right : Parser} {value : α} {shared : List Slot}
    (crosses : CrossesFrom matching seam lands step parser value later)
    (joined : parser.Joined False seam shared right) : shared ≠ [] := by
  obtain ⟨front, more, split⟩ := crosses.before
  rwa [List.append_cancel_right (joined.ahead.symm.trans split)]

theorem andThen {first : Step α} {next : α → Step β} {parser between later : Parser} {value : α}
    {result : β} (crosses : CrossesFrom matching seam matching.Parsers first parser value between)
    (abreast : ∀ {other}, matching.Agree value other → Abreast matching (next value) (next other))
    (ran : next value between = .ok result later) :
    CrossesFrom matching seam matching.Parsers (first >>= next) parser result later := by
  refine ⟨crosses.clean, crosses.before, fun shared right joined => ?_⟩
  obtain ⟨other, last, ranRight, agree, parsers⟩ := crosses.meets joined
  obtain ⟨found, final, ranFinal, agreeFinal, landed⟩ := (abreast agree).ok_of_ok parsers ran
  exact ⟨found, final, (bind_of_ok ranRight).trans ranFinal, agreeFinal, landed⟩

theorem loop {turn : σ → Step (ForInStep σ)} {state next final : σ} {parser between later : Parser}
    (turns : ∀ state, Turn (fun _ => True) (turn state))
    (crosses : CrossesFrom matching seam matching.Parsers (turn state) parser (.yield next) between)
    (abreast : ∀ {state other}, matching.Agree state other → Abreast matching (turn state) (turn other))
    (ran : Step.loop turn next between = .ok final later) :
    CrossesFrom matching seam matching.Parsers (Step.loop turn state) parser final later := by
  refine ⟨crosses.clean, crosses.before, fun shared right joined => ?_⟩
  obtain ⟨decision, last, ranRight, agree, parsers⟩ := crosses.meets joined
  cases agree with
  | yield agree =>
      rw [loop_of_yield ranRight ((turns state).advances ranRight)]
      exact (Abreast.loop (fun _ _ => abreast) agree).ok_of_ok parsers ran

end CrossesFrom

namespace Crosses

variable {wanted : α → Prop}

theorem of_unlike {step : Step α}
    (unlike : ∀ {parser later : Parser} {value : α}, step parser = .ok value later → ¬wanted value) :
    Crosses matching seam layout options lands wanted step :=
  fun _ _ _ _ ran _ isWanted => absurd isWanted (unlike ran)

theorem ite {condition : Prop} [Decidable condition] {left right : Step α}
    (onTrue : Crosses matching seam layout options lands wanted left)
    (onFalse : Crosses matching seam layout options lands wanted right) :
    Crosses matching seam layout options lands wanted (if condition then left else right) := by
  split
  · exact onTrue
  · exact onFalse

theorem behind {first : Step γ} {next : γ → Step α} (stable : Stable False closing first)
    (orderly : Orderly (fun _ => True) first)
    (crosses : ∀ middle, Crosses matching seam layout options lands wanted (next middle)) :
    Crosses matching seam layout options lands wanted (first >>= next) := by
  intro parser later value within ran clean isWanted
  obtain ⟨middle, between, ranFirst, ranNext⟩ := bind_ok ran
  have onwards := crosses middle (within.after orderly ranFirst) ranNext clean isWanted
  obtain ⟨cleanParser, before, again⟩ := onwards.front stable ranFirst
  refine ⟨cleanParser, before, fun shared right joined => ?_⟩
  obtain ⟨rest, rightBetween, ranRight, joinedBetween⟩ := again joined
  rw [bind_of_ok ranRight]
  exact onwards.meets joinedBetween

theorem mapped {made : β → Prop} {step : Step α} {make : α → β}
    (crosses : Crosses matching seam layout options lands wanted step)
    (wants : ∀ value, made (make value) → wanted value)
    (agrees : ∀ {value other}, matching.Agree value other →
      matching.Agree (make value) (make other)) :
    Crosses matching seam layout options lands made
      (step >>= fun value => Pure.pure (make value)) := by
  intro parser later result within ran clean isMade
  obtain ⟨value, between, ranStep, same⟩ := bind_ok ran
  cases same
  have here := crosses within ranStep clean (wants value isMade)
  refine ⟨here.clean, here.before, fun shared right joined => ?_⟩
  obtain ⟨other, last, ranRight, agree, landed⟩ := here.meets joined
  exact ⟨make other, last, bind_of_ok ranRight, agrees agree, landed⟩

theorem andThen {made : β → Prop} {first : Step α} {next : α → Step β}
    (crosses : Crosses matching seam layout options matching.Parsers wanted first)
    (orderly : ∀ value, Orderly (fun _ => True) (next value))
    (wants : ∀ {value result parser later}, next value parser = .ok result later → made result →
      wanted value)
    (abreast : ∀ {value other}, matching.Agree value other →
      Abreast matching (next value) (next other)) :
    Crosses matching seam layout options matching.Parsers made (first >>= next) := by
  intro parser later result within ran clean isMade
  obtain ⟨value, between, ranFirst, ranNext⟩ := bind_ok ran
  have cleanBetween := (orderly value).clean_of_ok ranNext clean
  exact (crosses within ranFirst cleanBetween (wants ranNext isMade)).andThen abreast ranNext

/-- Where nothing has been reported, nothing has been skipped. -/
theorem orSkip {part : Step α} {instead : Span → α}
    (crosses : Crosses matching seam layout options lands wanted part) :
    Crosses matching seam layout options lands wanted (Step.orSkip part instead) := by
  intro parser later value within ran clean isWanted
  rcases orSkip_cases part instead parser with
    ⟨_, _, ranPart, same⟩ | ⟨_, _, _, _, _, same, _, reported⟩
  · cases same.symm.trans ran
    have here := crosses within ranPart clean isWanted
    refine ⟨here.clean, here.before, fun shared right joined => ?_⟩
    obtain ⟨other, last, ranRight, agree, landed⟩ := here.meets joined
    exact ⟨other, last, orSkip_of_ok ranRight, agree, landed⟩
  · cases same.symm.trans ran
    exact absurd clean reported

/-! ### Loops -/

section Loops

variable {turn : List α → Step (ForInStep (List α))} {ends : Parser → Prop}
  (turns : ∀ found, Turn (fun _ => True) (turn found))
  (stable : ∀ found, Stable False none (turn found))
  (adds : ∀ {found parser decision later}, turn found parser = .ok decision later → later.Clean →
    decision = .done found ∨ ∃ item, decision = .yield (found ++ [item]))
  (crosses : ∀ {found item parser between final later}, parser.Within layout options →
    turn found parser = .ok (.yield (found ++ [item])) between → wanted item →
    Step.loop turn (found ++ [item]) between = .ok final later → later.Clean → ends later →
    CrossesFrom matching seam lands (Step.loop turn found) parser final later)

include turns stable adds crosses

/-- A loop that collects items crosses the seam where the first wanted one is read. -/
theorem collecting {found final : List α} {parser later : Parser}
    (within : parser.Within layout options) (ran : Step.loop turn found parser = .ok final later)
    (clean : later.Clean) (ended : ends later) (isNew : ∀ item ∈ found, ¬wanted item)
    (isWanted : ∃ item ∈ final, wanted item) :
    CrossesFrom matching seam lands (Step.loop turn found) parser final later := by
  have orderly (state : List α) : Orderly (fun _ => True) (Step.loop turn state) :=
    .loop turns state
  rcases loop_ok ran with ranTurn | ⟨next, between, ranTurn, ⟨shorter, rest⟩ | ⟨notMoved, -, -⟩⟩
  · rcases adds ranTurn clean with same | ⟨_, same⟩
    · cases same
      obtain ⟨item, member, isItem⟩ := isWanted
      exact absurd isItem (isNew item member)
    · cases same
  · rcases adds ranTurn ((orderly next).clean_of_ok rest clean) with same | ⟨item, same⟩
    · cases same
    cases same
    -- Either this turn reads the first wanted item, or the seam lies further on.
    by_cases isItem : wanted item
    · exact crosses within ranTurn isItem rest clean ended
    · have isNewNext : ∀ earlier ∈ found ++ [item], ¬wanted earlier := by
        intro earlier member
        rcases List.mem_append.mp member with member | member
        · exact isNew earlier member
        · rwa [List.mem_singleton.mp member]
      have onwards := collecting (within.after (turns found).orderly ranTurn) rest clean ended
        isNewNext isWanted
      obtain ⟨cleanParser, before, again⟩ := onwards.front (stable found) ranTurn
      refine ⟨cleanParser, before, fun shared right joined => ?_⟩
      obtain ⟨left, rightBetween, ranRight, joinedBetween⟩ := again joined
      rw [loop_of_yield ranRight ((turns found).advances ranRight)]
      exact onwards.meets joinedBetween
  · exact absurd ((turns found).advances ranTurn) notMoved
termination_by parser.cursor.remaining

end Loops

end Crosses

end Step

/-! ### Behind a missing token -/

def Definition.varDefs : Definition → List VarDef
  | .service definition => definition.varDefs
  | .connector definition => definition.varDefs
  | _ => []

/-- The variables among the members of all definitions of a tree. -/
def SourceUnit.memberVarDefs (unit : SourceUnit) : List VarDef :=
  unit.items.flatMap Definition.varDefs

/-- The left parser stands before a token that closes no braces. But for the note that has been
reported, and for what stands in front, the right one stands there too. -/
structure Parser.Resumes (note : Diagnostic) (left right : Parser) : Prop where
  near : (left.report note).Near right
  onwards : left.cursor.peek.kind ≠ .symbol .rightBrace

namespace Grammar

open Step

structure IsMember {α : Type} [Matchable α] (matching : Matching) (member : Step α) : Prop where
  stable : Stable False none member
  eager : Eager (fun _ => True) member
  steady : Steady matching member
  fresh : Fresh True member

section Members

variable {α : Type} [Matchable α] {matching : Matching} {seam : Seam} {layout : Layout}
  {options : Options} {note : Diagnostic} {member : Step α} {wanted : α → Prop}
  (isMember : IsMember matching member)

include isMember

theorem nextMember_of_near {left right later : Parser} {item : α} (near : left.Near right)
    (inside : endsMembers left.cursor.peek.kind (left.cursor.peekNth 1).kind = false)
    (ran : member left = .ok item later) (found : List α) :
    nextMember member found right = nextMember member found left := by
  have insideRight : endsMembers right.cursor.peek.kind (right.cursor.peekNth 1).kind = false := by
    rw [near.peek, near.peekNth]
    exact inside
  have ranRight : member right = .ok item later := by
    rcases isMember.fresh near with same | ⟨diagnostic, failed, -⟩ | ⟨still, -⟩
    · exact same.trans ran
    · cases failed.symm.trans ran
    · exact absurd trivial still
  rw [nextMember_of_ok inside ran, nextMember_of_ok insideRight ranRight]

variable (spans : ∀ span, matching.Spans span span)
  (noted : ∀ ⦃parser⦄, parser.Within layout options → parser.Clean →
    matching.Parsers parser (parser.report note))

include noted

theorem nextMembers_resume {found others final : List α} {parser later right : Parser}
    (within : parser.Within layout options)
    (ran : loop (nextMember member) found parser = .ok final later) (clean : later.Clean)
    (closes : later.cursor.peek.kind = .symbol .rightBrace) (agree : matching.Agree found others)
    (resumes : parser.Resumes note right) :
    ∃ finalRight last, loop (nextMember member) others right = .ok finalRight last ∧
      matching.Agree final finalRight ∧ matching.Parsers later last := by
  have turns := nextMember_turn isMember.eager
  have orderly (state : List α) : Orderly (fun _ => True) (loop (nextMember member) state) :=
    .loop turns state
  have parsers := noted within ((orderly found).clean_of_ok ran clean)
  obtain ⟨finalRight, last, ranNoted, agreeFinal, parsersLast⟩ :=
    (Abreast.loop (fun _ _ => nextMember_abreast isMember.steady) agree).ok_of_ok parsers ran
  refine ⟨finalRight, last, ?_, agreeFinal, parsersLast⟩
  -- On the left a member stands here, since the braces are not closed yet.
  obtain ⟨item, behind, ranItem, inside⟩ : ∃ item behind, member parser = .ok item behind ∧
      endsMembers parser.cursor.peek.kind (parser.cursor.peekNth 1).kind = false := by
    rcases loop_ok ran with ranTurn | ⟨next, behind, ranTurn, ⟨-, rest⟩ | ⟨still, -, -⟩⟩
    · have quiet : later.CleanWith later.options := ⟨clean, rfl⟩
      rcases nextMember_ok isMember.eager ranTurn quiet with ⟨-, rfl⟩ | ⟨_, same, -⟩
      · exact absurd closes resumes.onwards
      · cases same
    · have quiet : behind.CleanWith behind.options := ⟨(orderly next).clean_of_ok rest clean, rfl⟩
      rcases nextMember_ok isMember.eager ranTurn quiet with ⟨same, -⟩ | ⟨item, -, ranItem, inside⟩
      · cases same
      · exact ⟨item, behind, ranItem, inside⟩
    · exact absurd ((turns found).advances ranTurn) still
  obtain ⟨other, _, ranOther, -⟩ := isMember.steady.ok_of_ok parsers ranItem
  have insideNoted : endsMembers (parser.report note).cursor.peek.kind
      ((parser.report note).cursor.peekNth 1).kind = false := by
    rw [Parser.cursor_report]
    exact inside
  rw [loop, nextMember_of_near isMember resumes.near insideNoted ranOther, resumes.near.remaining,
    ← ranNoted, loop]

variable (crosses : Crosses matching seam layout options (Parser.Resumes note) wanted member)

include spans crosses

theorem nextMembers_cross {found final : List α} {item : α} {parser between later : Parser}
    (within : parser.Within layout options)
    (ranTurn : nextMember member found parser = .ok (.yield (found ++ [item])) between)
    (isItem : wanted item) (rest : loop (nextMember member) (found ++ [item]) between = .ok final later)
    (clean : later.Clean) (closes : later.cursor.peek.kind = .symbol .rightBrace) :
    CrossesFrom matching seam matching.Parsers (loop (nextMember member) found) parser final later := by
  have turns := nextMember_turn isMember.eager
  have orderly : Orderly (fun _ => True) (loop (nextMember member) (found ++ [item])) :=
    .loop turns _
  have quiet : between.CleanWith between.options := ⟨orderly.clean_of_ok rest clean, rfl⟩
  rcases nextMember_ok isMember.eager ranTurn quiet with ⟨same, -⟩ | ⟨_, same, ranItem, inside⟩
  · cases same
  obtain rfl : item = _ := by simpa using same
  have here := crosses within ranItem quiet.1 isItem
  refine ⟨here.clean, here.before, fun shared right joined => ?_⟩
  obtain ⟨other, last, ranRight, agree, resumes⟩ := here.meets joined
  have insideRight := (endsMembers_of_joined joined (here.ne_nil joined)).trans inside
  have turnRight : nextMember member found right = .ok (.yield (found ++ [other])) last :=
    nextMember_of_ok insideRight ranRight
  have agreeFound : matching.Agree (found ++ [item]) (found ++ [other]) :=
    List.rel_append (Matching.agree_self spans found) (.cons agree .nil)
  rw [loop_of_yield turnRight ((turns found).advances turnRight)]
  exact nextMembers_resume isMember noted (within.after (turns found).orderly ranTurn) rest clean
    closes agreeFound resumes

/-- The members of a definition cross the seam where one of them does, if both sides resume
behind that one. -/
theorem members_crosses : Crosses matching seam layout options matching.Parsers
    (fun found => ∃ item ∈ found, wanted item) (members member) := by
  have adds {found : List α} {parser later : Parser} {decision : ForInStep (List α)}
      (ran : nextMember member found parser = .ok decision later) (clean : later.Clean) :
      decision = .done found ∨ ∃ item, decision = .yield (found ++ [item]) := by
    have quiet : later.CleanWith later.options := ⟨clean, rfl⟩
    exact (nextMember_ok isMember.eager ran quiet).imp And.left fun ⟨item, same, _⟩ => ⟨item, same⟩
  intro parser later found within ran clean isWanted
  obtain ⟨_, between, ranLoop, ranRest⟩ := bind_ok ran
  obtain ⟨_, _, ranClose, same⟩ := bind_ok ranRest
  cases same
  have orderly : Orderly (fun _ => True) closeBrace := .closeBrace
  have here := Crosses.collecting (nextMember_turn isMember.eager) (nextMember_stable isMember.stable)
    adds (nextMembers_cross isMember spans noted crosses) within ranLoop
    (orderly.clean_of_ok ranClose clean) (StableFrom.rightBrace_of_closeBrace ranClose clean)
    (fun _ member => absurd member List.not_mem_nil) isWanted
  exact here.andThen (fun agree => .bind .closeBrace fun _ _ _ => .pure agree) ranRest

end Members

section Variables

variable {matching : Matching} {seam : Seam} {layout : Layout} {options : Options}
  {note : Diagnostic} {target : VarDef} (room : Nat)

theorem serviceMember_isMember : IsMember matching (serviceMember room) :=
  ⟨serviceMember_stable room, serviceMember_eager room, serviceMember_steady room,
    serviceMember_fresh room⟩

theorem connectorMember_isMember : IsMember matching (connectorMember room) :=
  ⟨connectorMember_stable room, connectorMember_eager room, connectorMember_steady room,
    connectorMember_fresh room⟩

variable (inert : StartsInert seam.rest) (apart : seam.IsApart)
  (crosses : Crosses matching seam layout options (Parser.Resumes note) (· = target)
    (varDef (.within room)))

include inert apart crosses

/-- A variable is seen on both sides, since its shape ends where the seam is. -/
theorem variableOr_crosses {β : Type} [Matchable β] (wanted : String) :
    Crosses matching seam layout options (Parser.Resumes note) (· = Sum.inl target) (do
      if ← isVarDef then return Sum.inl (← varDef (.within room)) else notAMember wanted :
        Step (VarDef ⊕ β)) := by
  have found : Crosses matching seam layout options (Parser.Resumes note) (· = Sum.inl target)
      (do return Sum.inl (← varDef (.within room)) : Step (VarDef ⊕ β)) :=
    crosses.mapped (fun _ => Sum.inl.inj) .inl
  intro parser later value within ran clean isTarget
  rw [look_bind (isVarDef_eq parser)] at ran
  split at ran
  · rename_i starts
    have here := found within ran clean isTarget
    refine ⟨here.clean, here.before, fun shared right joined => ?_⟩
    obtain ⟨other, last, ranRight, agree, resumes⟩ := here.meets joined
    refine ⟨other, last, ?_, agree, resumes⟩
    obtain ⟨edge, behind, isRest, isInert⟩ := inert.kinds
    obtain ⟨first, rest, isOther, unsought⟩ := apart.other.kinds
    rw [joined.kinds, isRest] at starts
    rw [look_bind (isVarDef_eq right), joined.options, joined.otherKinds, isOther]
    rcases startsVarDef_edge isInert starts with onwards | ⟨closes, -, -⟩
    · rw [if_pos (onwards rest (Kind.endsShape_of_isUnsought unsought))]
      exact ranRight
    · obtain ⟨kind, _, same, edgeUnsought⟩ := apart.rest.kinds
      obtain ⟨rfl, -⟩ := List.cons.inj (isRest.symm.trans same)
      rw [closes] at edgeUnsought
      cases edgeUnsought
  · exact absurd ran failAt_ne_ok

/-- Among other members only a variable is wanted. -/
theorem memberOr_crosses {β : Type} [Matchable β] {opens : Kind → Prop} [DecidablePred opens]
    (part : Step β) (wanted : String) :
    Crosses matching seam layout options (Parser.Resumes note) (· = Sum.inl target) (do
      let kind ← current
      if opens kind then return Sum.inr (← part)
      else if ← isVarDef then return Sum.inl (← varDef (.within room)) else notAMember wanted :
        Step (VarDef ⊕ β)) := by
  refine .behind .current .current fun kind => .ite (.of_unlike fun ran => ?_)
    (variableOr_crosses room inert apart crosses wanted)
  obtain ⟨_, _, -, same⟩ := bind_ok ran
  cases same
  nofun

theorem serviceMember_crosses :
    Crosses matching seam layout options (Parser.Resumes note) (· = .inl target)
      (serviceMember room) :=
  memberOr_crosses room inert apart crosses (resource room) _

theorem connectorMember_crosses :
    Crosses matching seam layout options (Parser.Resumes note) (· = .inl target)
      (connectorMember room) :=
  memberOr_crosses room inert apart crosses (action room) _

variable (spans : ∀ span, matching.Spans span span)
  (noted : ∀ ⦃parser⦄, parser.Within layout options → parser.Clean →
    matching.Parsers parser (parser.report note))

include spans noted

omit inert apart crosses spans noted in
theorem word_orderly (word : Keyword) : Orderly (fun _ => True) (expectKeyword word) :=
  fun _ => .expect fun _ => trivial

omit inert apart crosses spans noted in
/-- A variable that is found among the members was one of those that were read. -/
theorem inl_mem_of_varDefs {β : Type} {found : List (VarDef ⊕ β)}
    (member : target ∈ found.filterMap Sum.getLeft?) : ∃ item ∈ found, item = .inl target := by
  obtain ⟨item, isItem, isLeft⟩ := List.mem_filterMap.mp member
  exact ⟨item, isItem, Sum.getLeft?_eq_some_iff.mp isLeft⟩

theorem service_crosses (header : Header) :
    Crosses matching seam layout options matching.Parsers (target ∈ ·.varDefs)
      (service room header) := by
  have found := members_crosses (serviceMember_isMember room) spans noted
    (serviceMember_crosses room inert apart crosses)
  refine .behind (.keyword _) (word_orderly _) fun _ => .behind (.symbol _ nofun) (.symbol _) fun _ =>
    .behind .identifier .expectIdentifier fun protocol => .behind (.symbol _ nofun) (.symbol _) fun _ =>
      .behind .identifier .expectIdentifier fun name => .behind (.symbol _ nofun) (.symbol _) fun _ =>
        found.andThen (fun _ => .bind (.spanFrom _) fun _ => .pure _) ?_ fun agree =>
          .bind (.spanFrom (spans _)) fun _ _ span => .pure (service_agree span
            (Matching.agree_self spans name) (Matching.agree_self spans header.attachments)
            (Matching.agree_self spans protocol) (lefts_agree agree) (rights_agree agree))
  intro value result parser later ran member
  obtain ⟨_, _, -, same⟩ := bind_ok ran
  cases same
  exact inl_mem_of_varDefs member

theorem connector_crosses (header : Header) :
    Crosses matching seam layout options matching.Parsers (target ∈ ·.varDefs)
      (connector room header) := by
  have found := members_crosses (connectorMember_isMember room) spans noted
    (connectorMember_crosses room inert apart crosses)
  refine .behind (.keyword _) (word_orderly _) fun _ => .behind .identifier .expectIdentifier fun name =>
    .behind (params_stable room) (params_orderly room) fun params =>
      .behind (.symbol _ nofun) (.symbol _) fun _ =>
        found.andThen (fun _ => .bind (.spanFrom _) fun _ => .pure _) ?_ fun agree =>
          .bind (.spanFrom (spans _)) fun _ _ span => .pure (connector_agree span
            (Matching.agree_self spans name) (Matching.agree_self spans header.attachments)
            (Matching.agree_self spans params) (lefts_agree agree) (rights_agree agree))
  intro value result parser later ran member
  obtain ⟨_, _, -, same⟩ := bind_ok ran
  cases same
  exact inl_mem_of_varDefs member

omit inert apart crosses spans noted in
theorem varDefs_of_nativeDefinition {header : Header} {parser later : Parser}
    {definition : Definition} (ran : nativeDefinition room header parser = .ok definition later) :
    definition.varDefs = [] := by
  obtain ⟨kind, between, -, ran⟩ := bind_ok ran
  split at ran
  · obtain ⟨_, _, -, same⟩ := bind_ok ran
    cases same
    rfl
  · obtain ⟨_, _, -, same⟩ := bind_ok ran
    cases same
    rfl
  · rw [look_bind (cursor_eq between)] at ran
    exact absurd ran fail_ne_ok

omit inert apart crosses spans noted in
theorem varDefs_of_plainDefinition {header : Header} {parser later : Parser}
    {definition : Definition} (ran : plainDefinition room header parser = .ok definition later) :
    definition.varDefs = [] := by
  rw [plainDefinition, look_bind (isVarDef_eq parser)] at ran
  split at ran
  · obtain ⟨_, _, -, same⟩ := bind_ok ran
    cases same
    rfl
  · exact absurd ran failAt_ne_ok

/-- Only services and connectors have variables among their members. -/
theorem headedDefinition_crosses (header : Header) :
    Crosses matching seam layout options matching.Parsers (target ∈ ·.varDefs)
      (headedDefinition room header) := by
  have without {step : Step Definition} (nothing : ∀ {parser later definition},
      step parser = .ok definition later → definition.varDefs = []) :
      Crosses matching seam layout options matching.Parsers (target ∈ ·.varDefs) step :=
    .of_unlike fun ran member => by
      rw [nothing ran] at member
      cases member
  have made {α : Type} {step : Step α} {make : α → Definition}
      (nothing : ∀ value, (make value).varDefs = []) :
      Crosses matching seam layout options matching.Parsers (target ∈ ·.varDefs)
        (do return make (← step)) := without fun ran => by
    obtain ⟨value, _, -, same⟩ := bind_ok ran
    cases same
    exact nothing value
  have misplaced : Crosses matching seam layout options matching.Parsers (target ∈ ·.varDefs)
      misplacedDirective := .of_unlike fun ran => by
    rw [misplacedDirective, look_bind (peek_eq _)] at ran
    exact absurd ran fail_ne_ok
  refine .behind .current .current fun kind => ?_
  split
  · exact .mapped (service_crosses room inert apart crosses spans noted header) (fun _ => id)
      serviceDefinition_agree
  · exact made fun _ => rfl
  · exact without (varDefs_of_nativeDefinition room)
  · exact .mapped (connector_crosses room inert apart crosses spans noted header) (fun _ => id)
      connectorDefinition_agree
  · exact made fun _ => rfl
  · exact made fun _ => rfl
  · exact made fun _ => rfl
  · exact made fun _ => rfl
  · exact misplaced
  · exact misplaced
  · exact misplaced
  · exact without (varDefs_of_plainDefinition room)

theorem definition_crosses :
    Crosses matching seam layout options matching.Parsers (target ∈ ·.varDefs) (definition room) :=
  .behind .peek .peek fun _ => .behind (attachments_stable room) (attachments_orderly room) fun _ =>
    headedDefinition_crosses room inert apart crosses spans noted _

theorem nextDefinition_crosses (found : List Definition) :
    Crosses matching seam layout options matching.Parsers
      (fun decision => ∃ item, decision = .yield (found ++ [item]) ∧ target ∈ item.varDefs)
      (nextDefinition room found) := by
  refine .behind (.checkAny _) (.check _) fun _ => .ite (.of_unlike fun ran => ?_) ?_
  · cases ran
    rintro ⟨_, same, -⟩
    cases same
  · refine .mapped (.orSkip (definition_crosses room inert apart crosses spans noted))
      (fun item isItem => ?_) fun agree => .yield (List.rel_append ?_ (.cons agree .nil))
    · obtain ⟨other, same, member⟩ := isItem
      obtain rfl : item = other := by simpa using same
      exact member
    · exact Matching.agree_self spans found

theorem definitions_crosses :
    Crosses matching seam layout options matching.Parsers
      (fun items => ∃ item ∈ items, target ∈ item.varDefs) (definitions room) := by
  have adds {found : List Definition} {parser later : Parser} {decision : ForInStep (List Definition)}
      (ran : nextDefinition room found parser = .ok decision later) (_ : later.Clean) :
      decision = .done found ∨ ∃ item, decision = .yield (found ++ [item]) := by
    rw [nextDefinition, isEnd, look_bind (check_eq parser _)] at ran
    split at ran
    · cases ran
      exact .inl rfl
    · obtain ⟨item, _, -, same⟩ := bind_ok ran
      cases same
      exact .inr ⟨item, rfl⟩
  have crossesHere {found final : List Definition} {item : Definition}
      {parser between later : Parser} (within : parser.Within layout options)
      (ranTurn : nextDefinition room found parser = .ok (.yield (found ++ [item])) between)
      (isItem : target ∈ item.varDefs)
      (rest : loop (nextDefinition room) (found ++ [item]) between = .ok final later)
      (clean : later.Clean) (_ : True) :
      CrossesFrom matching seam matching.Parsers (loop (nextDefinition room) found) parser final
        later := by
    have orderly : Orderly (fun _ => True) (loop (nextDefinition room) (found ++ [item])) :=
      .loop (nextDefinition_turn room) _
    have here := nextDefinition_crosses room inert apart crosses spans noted found within ranTurn
      (orderly.clean_of_ok rest clean) ⟨item, rfl, isItem⟩
    exact here.loop (nextDefinition_turn room) (nextDefinition_abreast room) rest
  intro parser later items within ran clean isWanted
  exact Crosses.collecting (nextDefinition_turn room) (nextDefinition_stable room) adds crossesHere
    within ran clean trivial (fun _ member => absurd member List.not_mem_nil) isWanted

/-- A source crosses the seam where one of the variables among the members of its definitions does,
if both sides resume behind that one. -/
theorem sourceUnit_crosses :
    Crosses matching seam layout options matching.Parsers
      (fun unit => ∃ item ∈ unit.items, target ∈ item.varDefs) (sourceUnit room) := by
  refine .behind .peek .peek fun first => .behind packageHeader_stable packageHeader_orderly
    fun package => .behind directives_stable directives_orderly fun directives =>
      .andThen (definitions_crosses room inert apart crosses spans noted)
        (fun _ => .bind .peek fun _ => .pure _) ?_ fun agree => .bind .peek fun _ _ last =>
          .pure (unit_agree (matching.merge (spans first.span) last.spans)
            (Matching.agree_self spans package) (Matching.agree_self spans directives) agree)
  intro items unit parser later ran member
  rw [look_bind (peek_eq parser)] at ran
  cases ran
  exact member

end Variables

end Grammar

end ServiceLang
