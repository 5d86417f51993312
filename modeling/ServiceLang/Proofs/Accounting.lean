import ServiceLang.Proofs.Appending
import ServiceLang.Proofs.Nesting

set_option autoImplicit false

/-! What becomes of the tokens of a source. Its head and its definitions share them out: each
stretch of tokens is read as one part, and the node of that part goes over all of them. A
part of the head that is broken is the only one that leaves no node. -/

namespace ServiceLang

/-- Tokens that are read as one part of a source, and the span of the node that this part
leaves, if it leaves one. -/
structure Stretch where
  tokens : List Token
  node : Option Span

/-- There are tokens, and the node goes from the first one to the last one. -/
structure Stretch.IsTight (stretch : Stretch) : Prop where
  nonempty : stretch.tokens ≠ []
  start : ∀ span ∈ stretch.node,
    stretch.tokens.head?.map (fun token => token.span.start) = some span.start
  stop : ∀ span ∈ stretch.node,
    stretch.tokens.getLast?.map (fun token => token.span.stop) = some span.stop
  within : ∀ span ∈ stretch.node, ∀ token ∈ stretch.tokens, span.contains token.span = true

/-- A part that has left no node starts with a word that only the head of a source starts
with. -/
def Stretch.IsOfHead (stretch : Stretch) : Prop :=
  stretch.node = none → ∃ token ∈ stretch.tokens.head?, token.kind ∈ Grammar.headWords

/-! ### Tokens of a layout -/

namespace Layout

variable {layout : Layout} {first middle behind : Nat}

def between (layout : Layout) (first behind : Nat) : List Token :=
  ((layout.buffer.drop first).take (behind - first)).map Slot.token

theorem between_self (first : Nat) : layout.between first first = [] := by
  rw [between, Nat.sub_self, List.take_zero, List.map_nil]

theorem between_append (starts : first ≤ middle) (upTo : middle ≤ behind) :
    layout.between first middle ++ layout.between middle behind =
      layout.between first behind := by
  obtain ⟨left, rfl⟩ := Nat.exists_eq_add_of_le starts
  obtain ⟨right, rfl⟩ := Nat.exists_eq_add_of_le upTo
  have front : first + left - first = left := by omega
  have back : first + left + right - (first + left) = right := by omega
  have both : first + left + right - first = left + right := by omega
  rw [between, between, between, front, back, both, List.take_add, List.map_append,
    List.drop_drop]

theorem length_between (starts : first ≤ behind) (inside : behind < layout.buffer.length) :
    (layout.between first behind).length = behind - first := by
  rw [between, List.length_map, List.length_take, List.length_drop]
  omega

theorem getElem?_between {index : Nat} (less : first + index < behind) :
    (layout.between first behind)[index]? = layout.buffer[first + index]?.map Slot.token := by
  rw [between, List.getElem?_map, List.getElem?_take_of_lt (by omega), List.getElem?_drop]

theorem head?_between (less : first < behind) :
    (layout.between first behind).head? = layout.buffer[first]?.map Slot.token := by
  rw [List.head?_eq_getElem?, getElem?_between (by omega), Nat.add_zero]

/-- Every token lies within a node that goes over these tokens. -/
theorem Over.isTight {span : Span} (placed : layout.Over first behind span) (node : Option Span)
    (only : ∀ other ∈ node, other = span) : Stretch.IsTight ⟨layout.between first behind, node⟩ := by
  have less := placed.less
  have inside := placed.inside
  have length : (layout.between first behind).length = behind - first :=
    length_between (Nat.le_of_lt less) inside
  constructor
  · exact List.length_pos_iff.mp (length ▸ Nat.sub_pos_of_lt less)
  · intro other isNode
    obtain rfl := only other isNode
    rw [head?_between less, List.getElem?_eq_getElem (by omega), placed.start, startAt,
      List.getElem?_eq_getElem (by omega)]
    rfl
  · intro other isNode
    obtain rfl := only other isNode
    have last : first + (behind - first - 1) = behind - 1 := by omega
    rw [List.getLast?_eq_getElem?, length, getElem?_between (by omega), last,
      List.getElem?_eq_getElem (by omega), placed.stop, stopAt, List.getElem?_eq_getElem (by omega)]
    rfl
  · intro other isNode token member
    obtain rfl := only other isNode
    obtain ⟨index, found⟩ := List.mem_iff_getElem?.mp member
    have bounded : index < (layout.between first behind).length :=
      (List.getElem?_eq_some_iff.mp found).1
    have less' : first + index < behind := by omega
    have here : first + index < layout.buffer.length := by omega
    rw [getElem?_between less', List.getElem?_eq_getElem here] at found
    obtain rfl := Option.some.inj found
    have own : layout.Over (first + index) (first + index + 1)
        layout.buffer[first + index].token.span := by
      constructor
      · omega
      · omega
      · rw [startAt, List.getElem?_eq_getElem here]
        rfl
      · rw [Nat.add_sub_cancel, stopAt, List.getElem?_eq_getElem here]
        rfl
      · exact layout.fits_token _ (List.getElem_mem here)
    exact placed.contains own (by omega) (by omega)

/-- Stretches one behind the other that share out the tokens. -/
structure Divided (layout : Layout) (first behind : Nat) (parts : List Stretch) : Prop where
  order : first ≤ behind
  tokens : parts.flatMap Stretch.tokens = layout.between first behind
  tight : ∀ part ∈ parts, part.IsTight

namespace Divided

variable {parts others : List Stretch}

theorem nil : layout.Divided first first [] :=
  ⟨Nat.le_refl first, (between_self first).symm, nofun⟩

theorem single {span : Span} (placed : layout.Over first behind span) (node : Option Span)
    (only : ∀ other ∈ node, other = span) :
    layout.Divided first behind [⟨layout.between first behind, node⟩] := by
  constructor
  · exact Nat.le_of_lt placed.less
  · rw [List.flatMap_cons, List.flatMap_nil, List.append_nil]
  · intro part member
    rw [List.mem_singleton.mp member]
    exact placed.isTight node only

theorem append (divided : layout.Divided first middle parts)
    (rest : layout.Divided middle behind others) :
    layout.Divided first behind (parts ++ others) := by
  constructor
  · exact Nat.le_trans divided.order rest.order
  · rw [List.flatMap_append, divided.tokens, rest.tokens,
      between_append divided.order rest.order]
  · intro part member
    rcases List.mem_append.mp member with member | member
    · exact divided.tight part member
    · exact rest.tight part member

end Divided

end Layout

/-! ### Parts of a source -/

theorem Directive.span_outline (directive : Directive) (role : String) :
    (directive.outline role).span = directive.span := by
  cases directive <;> rfl

theorem Definition.span_outline (item : Definition) (role : String) :
    (item.outline role).span = item.span := by
  cases item <;> rfl

open Step

variable {α σ : Type} {layout : Layout} {index : Nat}

/-- What a step passes over is shared out among parts, and what it gives agrees with them.
Where nothing has been reported, every part has left a node. -/
def Layout.Divides (layout : Layout) (index : Nat) (step : Step α)
    (agrees : List Stretch → α → Prop) : Prop :=
  ∀ ⦃parser later : Parser⦄ ⦃value : α⦄, layout.Stands index parser →
    step parser = .ok value later →
    ∃ behind parts, layout.Stands behind later ∧ layout.Divided index behind parts ∧
      agrees parts value ∧
      (later.Clean → parser.Clean ∧ ∀ part ∈ parts, part.node ≠ none)

namespace Layout.Divides

/-- A part whose errors are recovered from leaves its own node, or an error has been
reported about it. -/
theorem orSkip {part : Step α} {instead : Span → α} (agrees : List Stretch → α → Prop)
    (left : Span → Option Span) (only : ∀ span, ∀ other ∈ left span, other = span)
    {parser later : Parser} {value : α} (stands : layout.Stands index parser)
    (notEnd : parser.cursor.peek.kind ≠ .endOfFile) (orderly : Orderly (fun _ => True) part)
    (spans : layout.Spans index part fun behind value =>
      ∃ span, layout.Over index behind span ∧ ∀ tokens, agrees [⟨tokens, some span⟩] value)
    (broken : ∀ span tokens, tokens.head? = some parser.cursor.peek →
      agrees [⟨tokens, left span⟩] (instead span))
    (ran : Step.orSkip part instead parser = .ok value later) :
    ∃ behind parts, layout.Stands behind later ∧ layout.Divided index behind parts ∧
      agrees parts value ∧
      (later.Clean → parser.Clean ∧ ∀ part ∈ parts, part.node ≠ none) := by
  have own (behind : Nat) (span : Span) (placed : layout.Over index behind span) :
      layout.Divided index behind [⟨layout.between index behind, some span⟩] := by
    apply Divided.single placed
    rintro other ⟨⟩
    rfl
  rcases orSkip_cases part instead parser with
    ⟨_, _, ranPart, same⟩ | ⟨diagnostic, between, span, last, failed, same, place, reported⟩
  · cases same.symm.trans ran
    obtain ⟨behind, -, standsLater, span, placed, agreeing⟩ := spans stands ranPart
    refine ⟨behind, _, standsLater, own behind span placed, agreeing _, fun clean => ?_⟩
    constructor
    · exact (orderly parser).clean_of_after (by rwa [after_of_ok ranPart])
    · intro part member
      rw [List.mem_singleton.mp member]
      nofun
  · cases same.symm.trans ran
    have divides : layout.Spans index (Step.orSkip part instead) fun behind value =>
        ∃ parts, layout.Divided index behind parts ∧ agrees parts value := by
      apply Spans.orSkip (stands.more notEnd) orderly
      · apply spans.weaken
        rintro behind value - ⟨span, placed, agreeing⟩
        exact ⟨_, own behind span placed, agreeing _⟩
      · intro behind span placed
        refine ⟨_, .single placed (left span) (only span), broken span _ ?_⟩
        rw [head?_between placed.less]
        exact stands.place.peek
    obtain ⟨behind, -, standsLater, parts, divided, agreeing⟩ := divides stands ran
    exact ⟨behind, parts, standsLater, divided, agreeing, fun clean => absurd clean reported⟩

theorem loop {turn : σ → Step (ForInStep σ)} (agrees : σ → List Stretch → σ → Prop)
    (onwards : ∀ {first middle last parts others}, agrees first parts middle →
      agrees middle others last → agrees first (parts ++ others) last)
    (turns : ∀ index state, layout.Divides index (turn state) fun parts next =>
      match next with
      | .done final => agrees state parts final
      | .yield final => agrees state parts final) (state : σ) :
    layout.Divides index (Step.loop turn state) (agrees state) := by
  intro parser later final stands ran
  induction less : parser.cursor.remaining using Nat.strongRecOn
    generalizing parser index state with
  | ind _ ih =>
    subst less
    rcases loop_ok ran with ranTurn | ⟨next, between, ranTurn, ⟨shorter, rest⟩ | ⟨-, rfl, rfl⟩⟩
    · exact turns index state stands ranTurn
    · obtain ⟨middle, parts, standsMiddle, divided, agreeing, keeps⟩ :=
        turns index state stands ranTurn
      obtain ⟨behind, others, standsLater, dividedRest, agreeingRest, keepsRest⟩ :=
        ih _ shorter next standsMiddle rest rfl
      refine ⟨behind, parts ++ others, standsLater, divided.append dividedRest,
        onwards agreeing agreeingRest, fun clean => ?_⟩
      obtain ⟨cleanMiddle, allRest⟩ := keepsRest clean
      obtain ⟨cleanParser, all⟩ := keeps cleanMiddle
      refine ⟨cleanParser, fun part member => ?_⟩
      exact (List.mem_append.mp member).elim (all part) (allRest part)
    · exact turns index state stands ranTurn

end Layout.Divides

namespace Grammar

/-- The nodes that the stretches of a head have left stand behind the ones that were there,
and only broken parts have left none. -/
structure LeavesHead (found : List Span) (parts : List Stretch) (nodes : List Span) : Prop where
  nodes : nodes = found ++ parts.filterMap Stretch.node
  ofHead : ∀ part ∈ parts, part.IsOfHead

namespace LeavesHead

variable {first middle last : List Span} {parts others : List Stretch} {tokens : List Token}

theorem nil : LeavesHead first [] first :=
  ⟨(List.append_nil first).symm, nofun⟩

theorem append (left : LeavesHead first parts middle) (right : LeavesHead middle others last) :
    LeavesHead first (parts ++ others) last := by
  constructor
  · rw [right.nodes, left.nodes, List.filterMap_append, List.append_assoc]
  · intro part member
    exact (List.mem_append.mp member).elim (left.ofHead part) (right.ofHead part)

theorem whole (span : Span) : LeavesHead first [⟨tokens, some span⟩] (first ++ [span]) := by
  constructor
  · rfl
  · intro part member
    rw [List.mem_singleton.mp member]
    exact nofun

theorem behind (left : LeavesHead [] parts last) (found : List Span) :
    LeavesHead found parts (found ++ last) := by
  constructor
  · rw [left.nodes, List.nil_append]
  · exact left.ofHead

theorem broken {token : Token} (head : tokens.head? = some token)
    (ofHead : token.kind ∈ headWords) : LeavesHead first [⟨tokens, none⟩] first := by
  constructor
  · exact (List.append_nil first).symm
  · intro part member
    rw [List.mem_singleton.mp member]
    exact fun _ => ⟨token, head, ofHead⟩

end LeavesHead

theorem packageHeader_divides : layout.Divides index packageHeader fun parts package =>
    LeavesHead [] parts (package.map PackageDecl.span).toList := by
  intro parser later package stands ran
  rw [packageHeader, look_bind (check_eq parser _)] at ran
  split at ran
  · rename_i here
    have word : parser.cursor.peek.kind = .keyword .packageKw := beq_iff_eq.mp here
    apply Layout.Divides.orSkip (fun parts package =>
      LeavesHead [] parts (package.map PackageDecl.span).toList) (fun _ => none)
      (fun _ other member => absurd member (Option.not_mem_none other)) stands
      (by rw [word]; decide) (.bind packageDecl_eager.orderly fun _ => .pure _) _ _ ran
    · apply Layout.Spans.mapped packageDecl_spans
      intro behind declaration _ placed
      exact ⟨declaration.span, (placed "").placed, fun _ => .whole _⟩
    · intro span tokens head
      exact .broken head (by rw [word]; decide)
  · rw [pure_eq] at ran
    cases ran
    exact ⟨index, [], stands, .nil, .nil, fun clean => ⟨clean, List.forall_mem_nil _⟩⟩

theorem directives_divides (found : List Directive) :
    layout.Divides index (Step.loop nextDirective found) fun parts directives =>
      LeavesHead (found.map Directive.span) parts (directives.map Directive.span) := by
  refine .loop (fun found parts directives =>
    LeavesHead (found.map Directive.span) parts (directives.map Directive.span)) .append ?_ found
  intro index found parser later next stands ran
  rw [nextDirective, look_bind (current_eq parser)] at ran
  split at ran
  · rename_i here
    obtain ⟨directives, between, ranPart, ranNext⟩ := bind_ok ran
    cases ranNext
    have notEnd : parser.cursor.peek.kind ≠ .endOfFile := by
      intro ends
      rw [ends] at here
      revert here
      decide
    apply Layout.Divides.orSkip (fun parts directives =>
      LeavesHead (found.map Directive.span) parts (directives.map Directive.span))
      (fun _ => none) (fun _ other member => absurd member (Option.not_mem_none other)) stands
      notEnd (.bind directive_eager.orderly fun _ => .pure _) _ _ ranPart
    · apply Layout.Spans.mapped directive_spans
      intro behind directive _ placed
      refine ⟨directive.span, ?_, fun tokens => ?_⟩
      · rw [← directive.span_outline ""]
        exact (placed "").placed
      · rw [List.map_append]
        exact .whole _
    · intro span tokens head
      exact .broken head (List.mem_cons_of_mem _ here)
  · rw [pure_eq] at ran
    cases ran
    exact ⟨index, [], stands, .nil, .nil, fun clean => ⟨clean, List.forall_mem_nil _⟩⟩

/-- Every definition takes a stretch of its own, a broken one too. -/
theorem definitions_divides (room : Nat) (found : List Definition) :
    layout.Divides index (Step.loop (nextDefinition room) found) fun parts items =>
      items.map (fun item => some item.span) =
        found.map (fun item => some item.span) ++ parts.map Stretch.node := by
  refine .loop (fun found parts items => items.map (fun item => some item.span) =
    found.map (fun item => some item.span) ++ parts.map Stretch.node) ?_ ?_ found
  · intro first middle last parts others left right
    rw [right, left, List.map_append, List.append_assoc]
  · intro index found parser later next stands ran
    rw [nextDefinition, isEnd, look_bind (check_eq parser _)] at ran
    split at ran
    · rw [pure_eq] at ran
      cases ran
      exact ⟨index, [], stands, .nil, (List.append_nil _).symm,
        fun clean => ⟨clean, List.forall_mem_nil _⟩⟩
    · rename_i notEnd
      obtain ⟨item, between, ranPart, ranNext⟩ := bind_ok ran
      cases ranNext
      apply Layout.Divides.orSkip (fun parts item => (found ++ [item]).map
        (fun item => some item.span) = found.map (fun item => some item.span) ++
          parts.map Stretch.node) some (fun _ _ same => (Option.some.inj same).symm) stands
        (by simpa using notEnd) (definition_eager room).orderly _ _ ranPart
      · apply (definition_spans room).weaken
        intro behind item _ placed
        refine ⟨item.span, ?_, fun tokens => List.map_append⟩
        rw [← item.span_outline ""]
        exact (placed "").placed
      · intro span tokens _
        exact List.map_append

/-- A source shares out the tokens up to its end: stretches of the head come first, then
those of the definitions. -/
theorem sourceUnit_divides (room : Nat) : layout.Divides index (sourceUnit room) fun parts unit =>
    ∃ head body, parts = head ++ body ∧
      LeavesHead [] head
        ((unit.package.map PackageDecl.span).toList ++ unit.directives.map Directive.span) ∧
      body.map Stretch.node = unit.items.map fun item => some item.span := by
  intro parser later unit stands ran
  rw [sourceUnit, look_bind (peek_eq parser)] at ran
  obtain ⟨package, behindPackage, ranPackage, ran⟩ := bind_ok ran
  obtain ⟨directives, behindDirectives, ranDirectives, ran⟩ := bind_ok ran
  obtain ⟨items, last, ranItems, ran⟩ := bind_ok ran
  rw [look_bind (peek_eq last), pure_eq] at ran
  cases ran
  obtain ⟨first, front, stands, dividedFront, leavesFront, keepsFront⟩ :=
    packageHeader_divides stands ranPackage
  obtain ⟨second, middle, stands, dividedMiddle, leavesMiddle, keepsMiddle⟩ :=
    directives_divides [] stands ranDirectives
  obtain ⟨behind, body, stands, dividedBody, leavesBody, keepsBody⟩ :=
    definitions_divides room [] stands ranItems
  refine ⟨behind, front ++ middle ++ body, stands,
    (dividedFront.append dividedMiddle).append dividedBody,
    ⟨front ++ middle, body, rfl, ?_, leavesBody.symm⟩, fun clean => ?_⟩
  · exact leavesFront.append (leavesMiddle.behind _)
  · obtain ⟨clean, allBody⟩ := keepsBody clean
    obtain ⟨clean, allMiddle⟩ := keepsMiddle clean
    obtain ⟨clean, allFront⟩ := keepsFront clean
    refine ⟨clean, fun part member => ?_⟩
    rcases List.mem_append.mp member with member | member
    · exact (List.mem_append.mp member).elim (allFront part) (allMiddle part)
    · exact allBody part member

end Grammar

/-! ### All tokens of a source -/

/-- Whether a token belongs to the program itself: it is neither a comment nor invalid, and
not the end of the file. -/
def Token.isOfProgram (token : Token) : Bool :=
  token.isRead && token.kind != .endOfFile

def SourceUnit.partSpans (unit : SourceUnit) : List Span :=
  (unit.package.map PackageDecl.span).toList ++ unit.directives.map Directive.span ++
    unit.items.map Definition.span

/-- What is read of a source are the tokens of the program. -/
theorem read_eq_filter (source : String) :
    (Slot.ofTokens [] (tokenize source).1).1.map Slot.token =
      (tokenize source).1.filter Token.isOfProgram := by
  obtain ⟨earlier, last, whole, ⟨isEnd, -⟩, inner⟩ := (isTiling_of_tokenize source).ends
  have noEnd : ∀ token ∈ earlier, token.kind ≠ .endOfFile := fun token member =>
    (inner token member).1
  have read := Cursor.tokens_ofTokens noEnd (.inr ⟨last, [], rfl, isEnd⟩)
  rw [whole]
  refine read.trans ?_
  rw [List.filter_append, List.filter_cons_of_neg (by simp [Token.isOfProgram, isEnd]),
    List.filter_nil, List.append_nil]
  apply List.filter_congr
  intro token member
  simp [Token.isOfProgram, noEnd token member]

/-- Every token of the program is accounted for. For every source and all options its tokens
are shared out among parts that stand one behind the other. Each definition and each broken
definition has one of them for its own, from its first token to its last one, and so have
the package declaration and each directive. What is left are broken parts of the head, and
where there is one, an error has been reported. -/
theorem parseWith_accounts (source : String) (options : Options) :
    ∃ head body : List Stretch,
      (head ++ body).flatMap Stretch.tokens = (tokenize source).1.filter Token.isOfProgram ∧
      (∀ part ∈ head ++ body, part.IsTight) ∧
      head.filterMap Stretch.node ++ body.filterMap Stretch.node =
        (parseWith source options).1.partSpans ∧
      (∀ part ∈ body, part.node ≠ none) ∧
      ∀ part ∈ head, part.node = none →
        (∃ token ∈ part.tokens.head?, token.kind ∈ Grammar.headWords) ∧
          (parseWith source options).2.entries ≠ [] := by
  obtain ⟨layout, same⟩ := exists_layout source
  obtain ⟨unit, later, ran⟩ :=
    Grammar.sourceUnit_succeeds options.maxDepth (.ofSource source options)
  have atEnd := Grammar.isEnd_of_sourceUnit options.maxDepth ran
  rw [parseWith_of_ok ran]
  obtain ⟨behind, parts, stands, divided, ⟨head, body, rfl, leaves, leavesBody⟩, keeps⟩ :=
    Grammar.sourceUnit_divides options.maxDepth (layout.stands_ofSource same options) ran
  refine ⟨head, body, ?_, divided.tight, ?_, ?_, ?_⟩
  · have length := stands.place.length_eq
    have none : later.cursor.remaining = 0 :=
      List.length_eq_zero_iff.mpr (later.cursor.peek_isEnd_iff.mp atEnd)
    rw [same, Slot.buffer, List.length_append, List.length_singleton] at length
    rw [divided.tokens, ← read_eq_filter, Layout.between, same, Slot.buffer, List.drop_zero,
      Nat.sub_zero, List.take_append_of_le_length (by omega), List.take_of_length_le (by omega)]
  · have bodySpans : body.filterMap Stretch.node = unit.items.map Definition.span := by
      have nodes := congrArg (List.filterMap id) leavesBody
      rw [List.filterMap_map, List.filterMap_map] at nodes
      rw [← List.filterMap_eq_map]
      exact nodes
    have headSpans := leaves.nodes
    rw [List.nil_append] at headSpans
    rw [← headSpans, bodySpans, SourceUnit.partSpans]
  · intro part member isNone
    have kept : part.node ∈ body.map Stretch.node := List.mem_map_of_mem member
    rw [leavesBody, isNone] at kept
    simp at kept
  · intro part member isNone
    refine ⟨leaves.ofHead part member isNone, fun nothing => ?_⟩
    have run := Grammar.sourceUnit_orderly options.maxDepth (.ofSource source options)
    -- Had nothing been reported, every part would have left its node.
    have clean := Parser.clean_or_reported_after run (Parser.clean_or_reported_ofTokens _ _ options)
    rw [Step.after_of_ok ran] at clean
    have clean := clean.resolve_right fun reported => reported nothing
    exact (keeps clean).2 part (List.mem_append_left _ member) isNone

/-- An import without a package. -/
def brokenImport : String :=
  "import 1;"

/-- A broken directive leaves its tokens outside every node. -/
theorem not_covered_brokenImport :
    ¬∀ token ∈ (tokenize brokenImport).1, token.isOfProgram = true →
      ∃ span ∈ (parseWith brokenImport {}).1.partSpans, span.contains token.span = true := by
  decide +kernel

end ServiceLang
