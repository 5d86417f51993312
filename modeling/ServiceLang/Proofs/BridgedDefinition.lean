import ServiceLang.Proofs.BridgedStmt
import ServiceLang.Proofs.StableDefinition

set_option autoImplicit false

/-! The rules for members and definitions bridge a gap, and so does the rule for a whole source
where a semicolon is missing. -/

namespace ServiceLang.Grammar

open Step
open Gap (Side)

variable {gap : Gap} {start : Side}

/-! ### Signatures -/

variable (room : Nat)

theorem params_bridges : Bridges gap start .edge (params room) :=
  .anywhere (.bind (.symbol _ (by decide))) <| .inside <|
    .closed (params_stable room) (fun _ => params_steady room) (by decide)

theorem body_bridges (kind : BodyKind) : Bridges gap start .among (body room kind) :=
  (StmtParts.within_areBridging room).body kind start

theorem body_blocks (kind : BodyKind) : Blocks gap (body room kind) :=
  (StmtParts.within_areBridging room).opens kind

theorem callableEnd_bridges {α : Type} [Matchable α] (native : Bool) {body : Step α}
    (bridges : Bridges gap .edge .among body) : Bridges gap .edge .among (callableEnd native body) :=
  .ite (.ended (.pure .none)) (.bind bridges fun _ _ bodies => .pure (.some bodies))

theorem astray_callableEnd {α : Type} (braces : gap.IsBraces) (native : Bool) {body : Step α}
    (blocks : Blocks gap body) : Astray gap (callableEnd native body) := by
  rw [callableEnd]
  split
  · exact (Bridged.astray_endStatement braces).bind fun _ _ _ _ ran clean => by
      cases ran
      exact clean
  · exact Blocks.astray (.bind blocks)

theorem signature_bridged {α β : Type} [Matchable α] [Matchable β] (native : Bool) {body : Step α}
    (bridges : Bridges gap .edge .among body) (blocks : Blocks gap body) {stop : Side}
    {next onwards : Signature → Option α → Step β}
    (behind : ∀ signature other, gap.view.Agree signature other → ∀ found others,
      gap.view.Agree found others →
        Bridged gap .among stop (next signature found) (onwards other others)) :
    Bridged gap .edge stop
      (do
        let signature ← signature room
        let body ← callableEnd native body
        next signature body)
      (do
        let signature ← signature room
        let body ← callableEnd native body
        onwards signature body) := by
  refine .bindStable (signature_stable room) (fun _ => signature_steady room)
    (fun _ _ signatures => .bind (callableEnd_bridges native bridges) fun _ _ bodies =>
      behind _ _ signatures _ _ bodies) fun braces signature => ?_
  exact (astray_callableEnd braces native blocks).bind fun found =>
    (behind signature signature (Gap.agree_self _) found found (Gap.agree_self _)).quiet

/-! ### Members -/

/-- Unless an action may stand there, the second kind does not matter. -/
theorem endsMembers_eq {next other : Kind} (away : next ≠ .keyword .actionKw)
    (otherAway : other ≠ .keyword .actionKw) (kind : Kind) :
    endsMembers kind next = endsMembers kind other := by
  rw [endsMembers, endsMembers, beq_false_of_ne away, beq_false_of_ne otherAway]

section Members

variable {α : Type} [Matchable α] {member : Step α} (bridges : Bridges gap .inside .among member)
  (blocks : Blocks gap member)

include bridges blocks

omit room

theorem nextMember_bridged {found others : List α} (agree : gap.view.Agree found others) :
    Bridged gap .among .among (nextMember member found) (nextMember member others) := by
  have seen (found : List α) (parser : Parser) :
      nextMember member found parser =
        (if endsMembers parser.cursor.peek.kind (parser.cursor.peekNth 1).kind = true
          then pure (.done found) else do
            return .yield (← orRecover .member (do return found ++ [← member]) (fun _ => found)) :
              Step (ForInStep (List α))) parser := by
    rw [nextMember, look_bind (current_eq parser), look_bind (kindNth_eq parser 1)]
  refine .until_ (fun parser => endsMembers parser.cursor.peek.kind (parser.cursor.peekNth 1).kind)
    (seen found) (seen others) (fun across => ?_) (fun here => ?_) (fun here => ?_)
    (fun {parser} braces atOther => ?_) (.pure (.done agree)) (.recovered (.bind blocks)) ?_
  · rw [across.kind_peek]
    rcases across.second with same | ⟨isLeft, isRight⟩
    · rw [same]
    · rw [isLeft, isRight]
      refine endsMembers_eq (fun same => ?_) Kind.noConfusion _
      have inert := gap.inert_next
      rw [same] at inert
      cases inert
  · rw [here]
    rfl
  · rcases here with here | here <;>
      · rw [here]
        rfl
  · have second : (parser.cursor.peekNth 1) = (gap.other[1]?.getD gap.final).token := by
      rw [Cursor.peekNth, atOther.ahead, atOther.final]
    rw [atOther.peek, second]
    exact braces.ends
  · have more : Bridged gap .inside .among (do return found ++ [← member])
        (do return others ++ [← member]) :=
      .bind bridges fun _ _ values => .pure (List.rel_append agree (.cons values .nil))
    exact .bind (.orRecover more) fun _ _ found => .pure (.yield found)

theorem members_bridges (turns : ∀ found, Turn (fun _ => True) (nextMember member found)) :
    Bridges gap .among .among (members member) :=
  .bind (.loop (advancing_of_turn turns) (fun _ _ agree => nextMember_bridged bridges blocks agree) .nil)
    fun _ _ found => .bind .closeBrace fun _ _ _ => .pure found

end Members

theorem resource_bridges : Bridges gap .inside .among (resource room) := by
  refine .inside (.peek fun first other => .stableThen (attachments_stable room)
    (fun _ => attachments_steady room) (fun _ => .bind (.keyword _)) fun _ _ attachments =>
      .bind (.keyword _) fun _ _ _ => .bind .identifier fun _ _ names =>
        .bind (params_bridges room) fun _ _ params => .bind (body_bridges room _) fun _ _ bodies =>
          .pure ?_)
  exact resource_agree (gap.view.merge trivial bodies.spans) names attachments params bodies

theorem memberVarDef_bridges : Bridges gap .inside .edge (varDef (.within room)) :=
  varDef_bridges (StmtParts.within_areBridging room)

theorem serviceMember_bridges : Bridges gap .inside .among (serviceMember room) := by
  refine .current fun _ => .ite
    (.bind (resource_bridges room) fun _ _ resources => .pure (.inr resources)) ?_
  refine .isVarDef (.bind (memberVarDef_bridges room) fun _ _ definitions => .pure (.inl definitions))
    (.failAt _) fun _ _ _ => failAt_ne_ok

theorem serviceMember_blocks : Blocks gap (serviceMember room) := by
  refine .current fun kind stops => ?_
  rcases Gap.away_of_stops stops with rfl | rfl | rfl <;> exact .isVarDef (.failAt _)

theorem action_bridges : Bridges gap .inside .among (action room) := by
  refine .inside (.peek fun first other => .stableThen (attachments_stable room)
    (fun _ => attachments_steady room) (fun _ => .eat (.bind (.keyword _)) (by simp))
      fun _ _ attachments => ?_)
  refine .anywhere (.eat (.bind (.keyword _)) (by simp)) (.bind (.eatInside _ (by decide)) fun native _ same => ?_)
  cases same
  refine .bind (.keyword _) fun _ _ _ => signature_bridged room native (body_bridges room _)
    (body_blocks room _) fun _ _ signatures _ _ bodies => ?_
  exact .bind (.spanFrom _ _) fun _ _ spans =>
    .pure (callable_agree spans attachments native signatures bodies)

theorem connectorMember_bridges : Bridges gap .inside .among (connectorMember room) := by
  refine .current fun _ => .ite
    (.bind (action_bridges room) fun _ _ actions => .pure (.inr actions)) ?_
  refine .isVarDef (.bind (memberVarDef_bridges room) fun _ _ definitions => .pure (.inl definitions))
    (.failAt _) fun _ _ _ => failAt_ne_ok

theorem connectorMember_blocks : Blocks gap (connectorMember room) := by
  refine .current fun kind stops => ?_
  rcases Gap.away_of_stops stops with rfl | rfl | rfl <;> exact .isVarDef (.failAt _)

theorem field_bridges : Bridges gap .inside .among (field room) := by
  refine .current fun _ => .ite (.inside ?_) (.failAt _)
  refine .stableThen (typeName_stable room) (fun _ => typeName_steady room)
    (fun _ => .bind .identifier) fun _ _ types => .bind .identifier fun _ _ names => ?_
  refine .stableEnded (.ifBehind rfl (by decide) simpleLiteral_stable)
    (fun _ => .ifBehind simpleLiteral_steady _) fun _ _ defaults => ?_
  exact .bind (.spanFrom _ _) fun _ _ spans => .pure (field_agree spans names types defaults)

theorem field_blocks : Blocks gap (field room) := by
  refine .current fun kind stops => ?_
  rcases Gap.away_of_stops stops with rfl | rfl | rfl <;> exact .failAt _

/-! ### Definitions -/

section Headed

variable {header other : Header} (headers : gap.view.Agree header other)

include headers

theorem service_bridged : Bridged gap start .among (service room header) (service room other) := by
  refine .bind (.keyword _) fun _ _ _ => .bind (.symbol _ (by decide)) fun _ _ _ =>
    .bind .identifier fun _ _ protocols => .bind (.symbol _ (by decide)) fun _ _ _ =>
      .bind .identifier fun _ _ names => .bind (.symbol _ (by decide)) fun _ _ _ => .bind (.anyStart
        (members_bridges (serviceMember_bridges room) (serviceMember_blocks room)
          (nextMember_turn (serviceMember_eager room)))) fun _ _ found =>
            .bind (.spanFrom _ _) fun _ _ spans => .pure ?_
  exact service_agree spans names headers.1 protocols (lefts_agree found) (rights_agree found)

theorem function_bridged : Bridged gap .inside .among (function room header) (function room other) := by
  refine .bind (.eatInside _ (by decide)) fun native _ same => ?_
  cases same
  refine .bind (.keyword _) fun _ _ _ => signature_bridged room native (body_bridges room _)
    (body_blocks room _) fun _ _ signatures _ _ bodies => ?_
  exact .bind (.spanFrom _ _) fun _ _ spans =>
    .pure (callable_agree spans headers.1 native signatures bodies)

theorem connector_bridged :
    Bridged gap start .among (connector room header) (connector room other) := by
  refine .bind (.keyword _) fun _ _ _ => .bind .identifier fun _ _ names =>
    .bind (params_bridges room) fun _ _ params => .bind (.symbol _ (by decide)) fun _ _ _ => .bind (.anyStart
      (members_bridges (connectorMember_bridges room) (connectorMember_blocks room)
        (nextMember_turn (connectorMember_eager room)))) fun _ _ found =>
          .bind (.spanFrom _ _) fun _ _ spans => .pure ?_
  exact connector_agree spans names headers.1 params (lefts_agree found) (rights_agree found)

omit headers in
theorem fields_bridges : Bridges gap start .among (members (field room)) :=
  .anyStart (members_bridges (field_bridges room) (field_blocks room) (nextMember_turn (field_eager room)))

theorem struct_bridged : Bridged gap start .among (struct room header) (struct room other) :=
  .bind (.keyword _) fun _ _ _ => .bind .identifier fun _ _ names => .bind (.symbol _ (by decide)) fun _ _ _ =>
    .bind (fields_bridges room) fun _ _ fields => .bind (.spanFrom _ _) fun _ _ spans =>
      .pure (struct_agree spans names headers.1 fields)

theorem annotationDef_bridged :
    Bridged gap start .among (annotationDef room header) (annotationDef room other) :=
  .bind (.keyword _) fun _ _ _ => .bind .identifier fun _ _ names =>
    .stableThen attachPoints_stable (fun _ => attachPoints_steady) (fun _ => .bind (.symbol _ (by decide)))
      fun _ _ points => .bind (.symbol _ (by decide)) fun _ _ _ => .bind (fields_bridges room) fun _ _ fields =>
        .bind (.spanFrom _ _) fun _ _ spans =>
          .pure (annotationDef_agree spans names headers.1 fields points)

omit headers in
theorem definitionBlock_bridges : Bridges gap start .among (block room) :=
  .bind (body_bridges room _) fun _ _ bodies => .pure (toBlock_agree bodies)

theorem typeMapper_bridged :
    Bridged gap .inside .among (typeMapper room header) (typeMapper room other) := by
  refine .bind (.eatInside _ (by decide)) fun native _ same => ?_
  cases same
  refine .bind (.keyword _) fun _ _ _ => .bind .identifier fun _ _ names =>
    .bind (.symbol _ (by decide)) fun _ _ _ => .stableThen (param_stable room) (fun _ => param_steady room)
      (fun _ => .bind (.symbol _ (by decide))) fun _ _ params => .bind (.symbol _ (by decide)) fun _ _ _ =>
        .bind (.symbol _ (by decide)) fun _ _ _ => .stableThen (typeName_stable room)
          (fun _ => typeName_steady room) (fun _ => .bind (.symbol _ (by decide))) fun _ _ types =>
            .bind (.symbol _ (by decide)) fun _ _ _ =>
              .bind (callableEnd_bridges native (definitionBlock_bridges room)) fun _ _ bodies => ?_
  exact .bind (.spanFrom _ _) fun _ _ spans =>
    .pure (typeMapper_agree spans names types headers.1 native params bodies)

theorem constant_bridged : Bridged gap start .edge (constant room header) (constant room other) := by
  refine .bind (.keyword _) fun _ _ _ => .stableThen (constantType_stable room)
    (fun _ => constantType_steady room) (fun _ => .bind .identifier) fun _ _ types =>
      .bind .identifier fun _ _ names => .bind (.symbol _ (by decide)) fun _ _ _ => ?_
  refine .stableEnded (expr_stable room 0) (fun _ => expr_steady room 0) fun _ _ values => ?_
  exact .bind (.spanFrom _ _) fun _ _ spans =>
    .pure (constant_agree spans names types headers.1 values)

theorem globalVar_bridged :
    Bridged gap .inside .edge (globalVar room header) (globalVar room other) := by
  refine .inside (.stableThen (typeName_stable room) (fun _ => typeName_steady room)
    (fun _ => .bind .identifier) fun _ _ types => .bind .identifier fun _ _ names => ?_)
  refine .stableEnded (.ifBehind rfl (by decide) (expr_stable room 0))
    (fun _ => .ifBehind (expr_steady room 0) _) fun _ _ inits => ?_
  exact .bind (.spanFrom _ _) fun _ _ spans =>
    .pure (globalVar_agree spans names types headers.1 inits)

theorem plainDefinition_bridged :
    Bridged gap .inside .among (plainDefinition room header) (plainDefinition room other) :=
  .isVarDef (.bind (globalVar_bridged room headers) fun _ _ definitions =>
      .pure (globalVarDefinition_agree definitions))
    (.failAt _) fun _ _ _ => failAt_ne_ok

theorem nativeDefinition_bridged :
    Bridged gap .inside .among (nativeDefinition room header) (nativeDefinition room other) := by
  refine .second fail_ne_ok fun second => ?_
  split
  · exact .bind (function_bridged room headers) fun _ _ definitions =>
      .pure (functionDefinition_agree definitions)
  · exact .bind (typeMapper_bridged room headers) fun _ _ definitions =>
      .pure (typeMapperDefinition_agree definitions)
  · refine .of_never fun {parser value later} ran => ?_
    rw [look_bind (cursor_eq parser)] at ran
    exact absurd ran fail_ne_ok

theorem headedDefinition_bridged :
    Bridged gap .inside .among (headedDefinition room header) (headedDefinition room other) := by
  refine .current fun kind => ?_
  split
  · exact .bind (service_bridged room headers) fun _ _ definitions =>
      .pure (serviceDefinition_agree definitions)
  · exact .bind (function_bridged room headers) fun _ _ definitions =>
      .pure (functionDefinition_agree definitions)
  · exact nativeDefinition_bridged room headers
  · exact .bind (connector_bridged room headers) fun _ _ definitions =>
      .pure (connectorDefinition_agree definitions)
  · exact .bind (struct_bridged room headers) fun _ _ definitions =>
      .pure (structDefinition_agree definitions)
  · exact .bind (typeMapper_bridged room headers) fun _ _ definitions =>
      .pure (typeMapperDefinition_agree definitions)
  · exact .bind (constant_bridged room headers) fun _ _ definitions =>
      .pure (constantDefinition_agree definitions)
  · exact .bind (annotationDef_bridged room headers) fun _ _ definitions =>
      .pure (annotationDefinition_agree definitions)
  · exact .peek fun _ _ => .fail _
  · exact .peek fun _ _ => .fail _
  · exact .peek fun _ _ => .fail _
  · exact plainDefinition_bridged room headers

end Headed

theorem headedDefinition_blocks (header : Header) : Blocks gap (headedDefinition room header) := by
  refine .current fun kind stops => ?_
  rcases Gap.away_of_stops stops with rfl | rfl | rfl <;> exact .isVarDef (.failAt _)

theorem definition_blocks : Blocks gap (definition room) :=
  .peek fun _ => .whileAt (headedDefinition_blocks room _) (by simp)

theorem definition_bridges : Bridges gap .edge .among (definition room) := by
  refine .peek fun first other => .stableThen (attachments_stable room)
    (fun _ => attachments_steady room) (headedDefinition_blocks room ⟨·, _⟩) fun _ _ attachments => ?_
  exact .anywhere (headedDefinition_blocks room _)
    (headedDefinition_bridged room ⟨attachments, trivial⟩)

/-! ### Heads of sources -/

omit room

theorem packageDecl_bridges : Bridges gap start .edge packageDecl := by
  refine .bind (.keyword _) fun _ _ _ => .stableEnded packageName_stable
    (fun _ => packageName_steady) fun _ _ names => .bind (.spanFrom _ _) fun _ _ spans => .pure ?_
  exact ⟨by simp only [PackageDecl.placedBy, names.same, gap.view.shown_eq spans], spans⟩

theorem importDecl_bridges : Bridges gap start .edge importDecl := by
  refine .bind (.keyword _) fun _ _ _ => .bindStable packageName_stable
    (fun _ => packageName_steady) (fun _ _ packages => ?_) fun braces _ => .ifBehind ?_ (by simp)
  · refine .stableEnded (.ifBehind rfl (by decide) .identifier)
      (fun _ => .ifBehind .expectIdentifier _) fun _ _ names =>
        .bind (.spanFrom _ _) fun _ _ spans => .pure ?_
    exact ⟨by simp only [ImportDecl.placedBy, packages.same, View.map_eq_of_rel names,
      gap.view.shown_eq spans], spans⟩
  · exact (Bridged.astray_endStatement braces).bind fun _ _ _ _ ran clean => by
      cases ran
      exact clean

theorem directive_bridges : Bridges gap .inside .edge directive :=
  .checkInside fun _ => .ite
    (.bind importDecl_bridges fun _ _ declarations =>
      .pure ⟨congrArg Directive.importDecl declarations.same, declarations.spans⟩)
    (.bind namespaceDecl_bridges fun _ _ declarations =>
      .pure ⟨congrArg Directive.namespaceDecl declarations.same, declarations.spans⟩)

theorem packageHeader_bridges : Bridges gap .inside .edge packageHeader := by
  have some : Bridges gap .inside .edge (do return some (← packageDecl)) :=
    .bind packageDecl_bridges fun _ _ declarations => .pure (.some declarations)
  exact .checkInside fun _ => .ite (.orSkip some) (.pure .none)

theorem nextDirective_bridged {found others : List Directive} (agree : gap.view.Agree found others) :
    Bridged gap .inside .edge (nextDirective found) (nextDirective others) := by
  have more : Bridged gap .inside .edge (do return found ++ [← directive])
      (do return others ++ [← directive]) :=
    .bind directive_bridges fun _ _ values => .pure (List.rel_append agree (.cons values .nil))
  exact .current fun _ => .ite (.bind (.orSkip more) fun _ _ found => .pure (.yield found))
    (.pure (.done agree))

/-- The head of a source, and behind it something that does not start at the gap. -/
theorem headed_bridged {α : Type} [Matchable α] {stop : Side}
    {next onwards : Option PackageDecl → List Directive → Step α}
    (astray : ∀ package found ⦃parser later : Parser⦄ ⦃value : α⦄,
      parser.cursor.peek.kind = .symbol gap.sign → next package found parser = .ok value later →
        ¬later.Clean)
    (behind : ∀ package other, gap.view.Agree package other → ∀ found others,
      gap.view.Agree found others → Bridged gap .inside stop (next package found) (onwards other others)) :
    Bridged gap .inside stop
      (do
        let package ← packageHeader
        let found ← directives
        next package found)
      (do
        let package ← packageHeader
        let found ← directives
        onwards package found) := by
  refine .bind packageHeader_bridges fun package other packages =>
    .loopThen (advancing_of_turn nextDirective_turn) (fun _ _ agree => nextDirective_bridged agree)
      (fun {found parser} here => ?_)
      (fun {found _ _ _} here ran => astray package found here ran)
      (fun found others directives => behind package other packages found others directives) .nil
  rw [nextDirective, look_bind (current_eq parser), here]
  rfl

/-! ### Sources -/

variable (room : Nat)

/-- No definition starts at the gap. -/
theorem not_clean_of_definitions {parser later : Parser} {items : List Definition}
    (here : parser.cursor.peek.kind = .symbol gap.sign)
    (ran : definitions room parser = .ok items later) : ¬later.Clean := by
  intro clean
  obtain ⟨first, _, _, -, ranFirst, -⟩ :=
    definition_of_definitions room (by rw [here]; nofun) ran clean
  exact definition_blocks room (.inl here) ranFirst

theorem not_clean_of_sourceUnit {parser later : Parser} {unit : SourceUnit}
    (here : parser.cursor.peek.kind = .symbol gap.sign)
    (ran : sourceUnit room parser = .ok unit later) : ¬later.Clean :=
  not_clean_of_definitions room here
    (definitions_of_sourceUnit room (by simp [here, headWords]) ran)

section Semicolon

variable (semicolon : gap.IsSemicolon)

include semicolon

theorem nextDefinition_bridged {found others : List Definition}
    (agree : gap.view.Agree found others) :
    Bridged gap .among .among (nextDefinition room found) (nextDefinition room others) := by
  have astray : Astray gap (do
      return .yield (found ++ [← orSkip (definition room) (fun span => .broken span)]) :
        Step (ForInStep (List Definition))) :=
    .skipped (definition_blocks room)
  have more : Bridged gap .inside .among
      (do return ForInStep.yield (found ++
        [← orSkip (definition room) (fun span => .broken span)]))
      (do return ForInStep.yield (others ++
        [← orSkip (definition room) (fun span => .broken span)])) :=
    .bind (.orSkip (definition_bridges room).inside) fun _ _ definitions =>
      .pure (.yield (List.rel_append agree (.cons definitions .nil)))
  exact .isEnd (Gap.not_isBraces_of_isSemicolon semicolon) astray fun _ =>
    .ite (.pure (.done agree)) (.from_ astray more)

theorem definitions_bridges : Bridges gap .among .among (definitions room) :=
  .loop (advancing_of_turn (nextDefinition_turn room))
    (fun _ _ agree => nextDefinition_bridged room semicolon agree) .nil

theorem sourceUnit_bridges : Bridges gap .inside .among (sourceUnit room) := by
  refine .peek fun first other => headed_bridged (fun package found parser later unit here ran => ?_)
    fun _ _ packages _ _ directives => ?_
  · obtain ⟨items, between, ranItems, ran⟩ := bind_ok ran
    rw [look_bind (peek_eq between)] at ran
    cases ran
    exact not_clean_of_definitions room here ranItems
  · exact .bind (.anyStart (definitions_bridges room semicolon)) fun _ _ items =>
      .peek fun _ _ => .pure (unit_agree (gap.view.merge trivial trivial) packages directives items)

end Semicolon

end ServiceLang.Grammar
