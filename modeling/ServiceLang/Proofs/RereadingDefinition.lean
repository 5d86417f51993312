import ServiceLang.Proofs.RereadingMember

set_option autoImplicit false

/-! The rules for definitions and for a whole source read again what they have read. -/

namespace ServiceLang.Grammar

open Step
open Word (listed inParens inBraces inBrackets inAngles behind)

variable {calm : Parser → Prop} [Quiet calm]

/-! ### Definitions -/

section Headed

variable (room : Nat) {header other : Header}
  (sameHeader : other.attachments.map Attachment.erased = header.attachments.map Attachment.erased)

abbrev ReadsHeaded {α ε : Type} (calm : Parser → Prop) (exact : Prop) (rule : Header → Step α)
    (header other : Header) (erased : α → ε) (written : α → List Word) : Prop :=
  Rereads calm exact Agree (fun _ => Anything) (header.attachments.flatMap Attachment.written)
    (rule header) (rule other) erased written

include sameHeader

theorem service_reads : ReadsHeaded calm False (service room) header other ServiceDef.erased
    ServiceDef.written := by
  refine .bind (.keyword _ (by simp)) fun _ _ _ => .bind (.symbol _ rfl) fun _ _ _ =>
    .bind .identifier fun protocol _ sameProtocol => .bindAgree (.symbol _ rfl) fun _ _ _ => ?_
  refine .bindAgree .identifier fun name _ same => .bind (.symbol _ rfl) fun _ _ _ =>
    .bindClosed (members_reads (serviceMember_reads room) variablesFirst_arranges
      (serviceMember_eager room)) fun found _ sameFound =>
      .spanned (fun _ => ?_) fun _ _ => ?_
  · simp [ServiceDef.written, flatMap_variablesFirst, inBraces, inAngles]
  · simp only [keptMembers, Prod.mk.injEq] at sameFound
    simp only [ServiceDef.erased, sameHeader, sameProtocol, same, sameFound]

theorem function_reads : ReadsHeaded calm False (function room) header other CallableDef.erased
    (CallableDef.written .functionKw) := by
  refine .bind (.eatKeyword _ (by simp)) fun native _ sameNative => .bindAgree (.keyword _ (by simp))
    fun _ _ _ => ?_
  cases sameNative
  refine .bindAgree (signature_reads room).inexact fun signature _ same => .bindClosed
    (callableEnd_reads native (body_reads room .callable)) fun body _ sameBody =>
      .spanned (fun _ => ?_) fun _ _ => ?_
  · simp [CallableDef.written]
  · simp only [CallableDef.erased, sameHeader, same, sameBody]

theorem connector_reads : ReadsHeaded calm False (connector room) header other
    ConnectorDef.erased ConnectorDef.written := by
  refine .bind (.keyword _ (by simp)) fun _ _ _ => .bindAgree .identifier fun name _ same => ?_
  refine .bindAgree ((params_reads room).inexact.strengthenBehind fun _ _ _ _ => trivial)
    fun params _ sameParams => .bind (.symbol _ rfl) fun _ _ _ =>
    .bindClosed (members_reads (connectorMember_reads room) variablesFirst_arranges
      (connectorMember_eager room)) fun found _ sameFound =>
      .spanned (fun _ => ?_) fun _ _ => ?_
  · simp [ConnectorDef.written, flatMap_variablesFirst, inBraces]
  · simp only [keptMembers, Prod.mk.injEq] at sameFound
    simp only [ConnectorDef.erased, sameHeader, same, sameParams, sameFound]

theorem struct_reads : ReadsHeaded calm False (struct room) header other StructDef.erased
    StructDef.written := by
  refine .bind (.keyword _ (by simp)) fun _ _ _ => .bindAgree .identifier fun name _ same =>
    .bind (.symbol _ rfl) fun _ _ _ => .bindClosed (fields_reads room) fun fields _ sameFields =>
      .spanned (fun _ => ?_) fun _ _ => ?_
  · simp [StructDef.written, inBraces]
  · simp only [StructDef.erased, sameHeader, same, sameFields]

omit sameHeader in
theorem AttachTarget.kind_of_ofKind? {kind : Kind} {target : AttachTarget}
    (found : AttachTarget.ofKind? kind = some target) : kind = .keyword target.keyword := by
  have same := List.find?_some found
  exact (beq_iff_eq.mp same).symm

omit sameHeader in
theorem attachPoint_reads : Reads calm attachPoint AttachPoint.erased
    (fun point => [.keyword point.target.keyword]) := by
  refine .token (fun token => (AttachTarget.ofKind? token.kind).map (⟨·, token.span⟩))
    (fun token => (AttachTarget.ofKind? token.kind).map (⟨·, token.span⟩)) ?_ ?_ ?_
  · intro parser point later ran
    rw [attachPoint, look_bind (peek_eq parser)] at ran
    cases found : AttachTarget.ofKind? parser.cursor.peek.kind with
    | some target =>
        simp only [found, bind_of_ok (advance_eq parser)] at ran
        cases ran
        exact ⟨rfl, rfl⟩
    | none =>
        simp only [found] at ran
        exact absurd ran fail_ne_ok
  · intro parser point found
    obtain ⟨target, isTarget, rfl⟩ := Option.map_eq_some_iff.mp found
    rw [attachPoint, look_bind (peek_eq parser)]
    simp only [isTarget]
    exact bind_of_ok (advance_eq parser)
  · intro token point found
    obtain ⟨target, isTarget, rfl⟩ := Option.map_eq_some_iff.mp found
    have kind := AttachTarget.kind_of_ofKind? isTarget
    refine ⟨?_, ?_, fun other same => ⟨⟨target, other.span⟩, ?_, rfl⟩⟩
    · rw [kind]
      cases target <;> simp [AttachTarget.keyword]
    · rw [Token.word_of_keyword kind]
      rfl
    · rw [Token.kind_of_word same, Token.kind_word, isTarget]
      rfl

omit sameHeader in
theorem attachPoints_reads : Reads calm attachPoints (List.map AttachPoint.erased)
    attachPointsWritten := by
  refine .ofEat (by simp) (fun _ => Token.word_of_keyword) ?_ (.pure rfl rfl)
  intro parser points later ran quiet
  have reads : Reads calm (commaSeparated attachPoint) (List.map AttachPoint.erased)
      (fun points => listed (points.map fun point => [.keyword point.target.keyword])) :=
    .commaSeparated attachPoint_orderly attachPoint_reads
  obtain ⟨added, whole, reread⟩ := reads ran quiet
  refine ⟨added, ?_, reread⟩
  obtain rfl : listed _ = added := whole
  have some_ : points.isEmpty = false := by simpa using ne_nil_of_commaSeparated ran
  simp [attachPointsWritten, some_]

theorem annotationDef_reads : ReadsHeaded calm False (annotationDef room) header other
    AnnotationDef.erased AnnotationDef.written := by
  refine .bind (.keyword _ (by simp)) fun _ _ _ => .bindAgree .identifier fun name _ same =>
    .bindAgree attachPoints_reads.inexact fun points _ samePoints =>
    .bind (.symbol _ rfl) fun _ _ _ => .bindClosed (fields_reads room) fun fields _ sameFields =>
      .spanned (fun _ => ?_) fun _ _ => ?_
  · simp [AnnotationDef.written, inBraces]
  · simp only [AnnotationDef.erased, sameHeader, same, samePoints, sameFields]

theorem typeMapper_reads : ReadsHeaded calm False (typeMapper room) header other
    TypeMapperDef.erased TypeMapperDef.written := by
  refine .bind (.eatKeyword _ (by simp)) fun native _ sameNative => .bindAgree (.keyword _ (by simp))
    fun _ _ _ => ?_
  cases sameNative
  refine .bindAgree .identifier fun name _ same => .bindAgree (.symbol _ rfl) fun _ _ _ =>
    .bindAgree (param_reads room).inexact fun param _ sameParam =>
    .bindAgree (.symbol _ rfl) fun _ _ _ => .bindAgree (.symbol _ rfl) fun _ _ _ => ?_
  refine .bindAgree (typeName_reads room).inexact fun type _ sameType =>
    .bindAgree (.symbol _ rfl) fun _ _ _ => .bindClosed
      (callableEnd_reads native (block_reads room)) fun body _ sameBody =>
      .spanned (fun _ => ?_) fun _ _ => ?_
  · simp [TypeMapperDef.written, inParens]
  · simp only [TypeMapperDef.erased, sameHeader, same, sameParam, sameType, sameBody]

omit sameHeader in
theorem constantType_reads : Reads calm (constantType room) TypeName.erased TypeName.written := by
  refine .bind .peek fun token other same => ?_
  rw [same]
  exact .ite (fun _ => baseType_reads (typeName_reads room)) fun _ => .fail _

theorem constant_reads : ReadsHeaded calm True (constant room) header other ConstantDef.erased
    ConstantDef.written := by
  refine .bind (.keyword _ (by simp)) fun _ _ _ => .bindAgree (constantType_reads room)
    fun type _ same => .bindAgree .identifier fun name _ sameName =>
    .bindAgree (.symbol _ rfl) fun _ _ _ => ?_
  refine .bindAgree (expr_reads room 0) fun value _ sameValue => ended_reads (fun _ => ?_)
    fun _ _ => ?_
  · simp [ConstantDef.written]
  · simp only [ConstantDef.erased, sameHeader, same, sameName, sameValue]

theorem globalVar_reads : ReadsHeaded calm True (globalVar room) header other
    GlobalVarDef.erased GlobalVarDef.written := by
  refine .bindAgree (typeName_reads room) fun type _ same => .bindAgree .identifier
    fun name _ sameName => ?_
  refine .bindAgree (.ifBehindSymbol .equal (fun _ _ => id) (expr_reads room 0))
    fun value _ sameValue => ended_reads (fun _ => ?_) fun _ _ => ?_
  · simp [GlobalVarDef.written]
  · simp only [GlobalVarDef.erased, sameHeader, same, sameName, sameValue]

theorem plainDefinition_reads : ReadsHeaded calm True (plainDefinition room) header other
    Definition.erased Definition.written := by
  refine ofIsVarDef failAt_ne_ok ?_ ?_
  · intro parser value later added ran whole
    obtain ⟨definition, between, ranDefinition, ran⟩ := bind_ok ran
    cases ran
    have headed : Gives (globalVar room header) fun definition =>
        definition.attachments = header.attachments :=
      .bind fun _ => .bind fun _ => .bind fun _ => .bind fun _ => .bind fun _ => .pure rfl
    rw [Definition.written, GlobalVarDef.written, headed ranDefinition] at whole
    rw [← List.append_cancel_left whole]
    simp
  · exact (globalVar_reads room sameHeader).mapped (fun _ => rfl)
      fun _ _ same => by simp only [Definition.erased, same]

theorem headedDefinition_reads : ReadsHeaded calm False (headedDefinition room) header other
    Definition.erased Definition.written := by
  have functions : ReadsHeaded calm False (fun header => do
      return .function (← function room header)) header other Definition.erased
      Definition.written :=
    (function_reads room sameHeader).mapped (fun _ => rfl)
      fun _ _ same => by simp only [Definition.erased, same]
  have typeMappers : ReadsHeaded calm False (fun header => do
      return .typeMapper (← typeMapper room header)) header other Definition.erased
      Definition.written :=
    (typeMapper_reads room sameHeader).mapped (fun _ => rfl)
      fun _ _ same => by simp only [Definition.erased, same]
  rw [ReadsHeaded, headedDefinition_eq, headedDefinition_eq]
  refine .ofPair rfl functions (.ofPair rfl typeMappers ?_)
  refine .bind .current fun kind _ same => ?_
  cases same
  rw [List.append_nil]
  split
  · exact (service_reads room sameHeader).mapped (fun _ => rfl)
      fun _ _ same => by simp only [Definition.erased, same]
  · exact functions
  · exact .bind (.glance (fun parser => parser.cursor) cursor_eq) fun _ _ _ => .fail _
  · exact (connector_reads room sameHeader).mapped (fun _ => rfl)
      fun _ _ same => by simp only [Definition.erased, same]
  · exact (struct_reads room sameHeader).mapped (fun _ => rfl)
      fun _ _ same => by simp only [Definition.erased, same]
  · exact typeMappers
  · exact (constant_reads room sameHeader).inexact.mapped (fun _ => rfl)
      fun _ _ same => by simp only [Definition.erased, same]
  · exact (annotationDef_reads room sameHeader).mapped (fun _ => rfl)
      fun _ _ same => by simp only [Definition.erased, same]
  · exact .bind .peek fun _ _ _ => .fail _
  · exact .bind .peek fun _ _ _ => .fail _
  · exact .bind .peek fun _ _ _ => .fail _
  · exact (plainDefinition_reads room sameHeader).inexact

end Headed

theorem definition_reads (room : Nat) :
    ReadsClosed calm False (definition room) Definition.erased Definition.written := by
  refine .bind .peek fun start again _ => .bind (attachments_reads room).inexact
    fun found other same => ?_
  have headed : ReadsHeaded calm False (headedDefinition room) ⟨found, start.span⟩
      ⟨other, again.span⟩ Definition.erased Definition.written :=
    headedDefinition_reads room same
  exact headed.from_ (by simp)

/-! ### Header lines -/

section Lines

def segmentsBehind (segments : List Identifier) : List Word :=
  segments.tail.flatMap fun segment => [.symbol .dot, .name segment]

theorem nextSegment_reads (segments others : List Identifier) (some_ : segments ≠ [])
    (same : others.map Identifier.erased = segments.map Identifier.erased) :
    Rereads calm True Agree (Rereads.behindTurn Agree Agree) (segmentsBehind segments)
      (nextSegment segments) (nextSegment others) (Rereads.decided (List.map Identifier.erased))
      (Rereads.soFar segmentsBehind segmentsBehind) := by
  refine .ofPair rfl ?_ (.done rfl same)
  refine .bind (.symbolLooking _) fun _ _ _ => .bind .identifier fun segment _ sameSegment =>
    .yield ?_ ?_
  · simp [segmentsBehind, List.tail_append_of_ne_nil some_]
  · rw [List.map_append, List.map_append, same, List.map_singleton, List.map_singleton, sameSegment]

/-- No turn takes the first segment away. -/
theorem head_of_segments (first : Identifier) :
    Gives (loop nextSegment [first]) fun segments => segments.head? = some first := by
  refine .loop (fun segments starts => .bind fun _ => .bind fun _ => .ite ?_ (.pure starts)) rfl
  refine .bind fun _ => .bind fun segment => .pure ?_
  change (segments ++ [segment]).head? = some first
  rw [List.head?_append, starts]
  rfl

theorem packageName_reads : Reads calm packageName PackageName.erased PackageName.written := by
  have some_ {segments : List Identifier} {first : Identifier}
      (starts : segments.head? = some first) : segments ≠ [] := by
    rintro rfl
    cases starts
  have segments (first other : Identifier) (same : other.erased = first.erased) :
      Rereads calm True Agree (fun _ => Agree) [] (loop nextSegment [first])
        (loop nextSegment [other]) (List.map Identifier.erased) segmentsBehind := by
    refine .loopOf (advancing_of_turn nextSegment_turn) ?_
      (fun segments others some_ _ => nextSegment_reads segments others some_) [first] [other]
      (by simp) (by simp) (by simp [same])
    intro segments parser next later _ ran
    rw [nextSegment, look_bind (check_eq parser _), look_bind (kindNth_eq parser 1)] at ran
    split at ran
    · obtain ⟨_, _, -, ran⟩ := bind_ok ran
      obtain ⟨segment, _, -, ran⟩ := bind_ok ran
      cases ran
      simp
    · cases ran
  refine .bind .identifier fun first other same => .bindOf (segments first other same)
    fun found _ ran sameFound => .spanned (fun _ => ?_) fun _ _ => ?_
  · obtain ⟨_, _, ran⟩ := ran
    obtain ⟨others, rfl⟩ := List.head?_eq_some_iff.mp (head_of_segments first ran)
    rfl
  · simp only [PackageName.erased, sameFound]

theorem packageDecl_reads : Rereads calm True Agree (fun _ => Anything) [] packageDecl packageDecl
    PackageDecl.erased PackageDecl.written :=
  .bind (.keyword _ (by simp)) fun _ _ _ => .bind packageName_reads fun name _ same =>
    ended_reads (fun _ => by simp [PackageDecl.written])
      fun _ _ => by simp only [PackageDecl.erased, same]

theorem importDecl_reads : Rereads calm True Agree (fun _ => Anything) [] importDecl importDecl
    ImportDecl.erased ImportDecl.written := by
  refine .bind (.keyword _ (by simp)) fun _ _ _ => .bind packageName_reads fun package _ same => ?_
  refine .bindAgree (.ifBehindKeyword .asKw (by simp) (fun _ _ => id) .identifier)
    fun localName _ sameName => ended_reads (fun _ => ?_) fun _ _ => ?_
  · simp [ImportDecl.written]
  · simp only [ImportDecl.erased, same, sameName]

theorem directive_reads : Rereads calm True Agree (fun _ => Anything) [] directive directive
    Directive.erased Directive.written := by
  refine .ofCheck (by simp) ?_ ?_
  · exact importDecl_reads.mapped (fun _ => rfl) fun _ _ same => by
      simp only [Directive.erased, same]
  · exact namespaceDecl_reads.mapped (fun _ => rfl) fun _ _ same => by
      simp only [Directive.erased, same]

theorem packageHeader_reads : Reads calm packageHeader (Option.map PackageDecl.erased)
    (behind [] PackageDecl.written) := by
  refine .ofCheck (by simp) (.orSkip (packageDecl_eager.orderly.bind fun _ => .pure _) ?_)
    (.pure rfl rfl)
  exact (packageDecl_reads.strengthenBehind fun _ _ _ _ => trivial).mapped (fun _ => rfl)
    fun _ _ same => congrArg some same

theorem nextDirective_reads (found others : List Directive)
    (same : others.map Directive.erased = found.map Directive.erased) :
    Rereads calm True Agree (Rereads.behindTurn Agree Agree) (found.flatMap Directive.written)
      (nextDirective found) (nextDirective others) (Rereads.decided (List.map Directive.erased))
      (Rereads.soFar (fun found => found.flatMap Directive.written)
        (fun found => found.flatMap Directive.written)) := by
  refine .bind .current fun kind _ sameKind => ?_
  cases sameKind
  rw [List.append_nil]
  refine .ite (fun _ => .yielded (.orSkip (directive_eager.orderly.bind fun _ => .pure _) ?_))
    fun _ => .done rfl same
  refine .bind (directive_reads.strengthenBehind fun _ _ _ _ => trivial)
    fun directive _ sameDirective => .pure ?_ ?_
  · simp
  · simp [same, sameDirective]

theorem directives_reads : Reads calm directives (List.map Directive.erased)
    (fun found => found.flatMap Directive.written) :=
  .loop (advancing_of_turn nextDirective_turn) nextDirective_reads [] [] rfl

end Lines

/-! ### Sources -/

def BothEnd (left right : List Kind) : Prop :=
  left = [] ∧ right = []

theorem BothEnd.agree {left right : List Kind} (both : BothEnd left right) :
    Agree left right := by
  obtain ⟨rfl, rfl⟩ := both
  exact ⟨rfl, fun _ none => by cases none⟩

variable (room : Nat)

theorem nextDefinition_reads (found others : List Definition)
    (same : others.map Definition.erased = found.map Definition.erased) :
    Rereads calm False Agree (Rereads.behindTurn Agree BothEnd)
      (found.flatMap Definition.written) (nextDefinition room found) (nextDefinition room others)
      (Rereads.decided (List.map Definition.erased))
      (Rereads.soFar (fun found => found.flatMap Definition.written)
        (fun found => found.flatMap Definition.written)) := by
  refine .bind (.check _) fun atEnd _ sameEnd => ?_
  cases sameEnd
  rw [List.append_nil]
  refine .ite (fun _ => (Rereads.done rfl same).weakenFront fun _ _ => BothEnd.agree) fun _ => ?_
  refine .bind (.orSkip (definition_eager room).orderly
    ((definition_reads room).strengthenBehind fun _ _ _ _ => trivial)) fun definition _ sameDefinition =>
      .yield ?_ ?_
  · simp
  · simp [same, sameDefinition]

theorem definitions_reads : Rereads calm False Agree (fun _ => BothEnd) [] (definitions room)
    (definitions room) (List.map Definition.erased)
    (fun found => found.flatMap Definition.written) :=
  .loop (advancing_of_turn (nextDefinition_turn room)) (nextDefinition_reads room) [] [] rfl

/-- A source that is read without errors is read again from what is written of it. -/
theorem sourceUnit_reads : Rereads calm False Agree (fun _ => BothEnd) [] (sourceUnit room)
    (sourceUnit room) SourceUnit.erased SourceUnit.written := by
  refine .bind .peek fun _ _ _ => .bind packageHeader_reads.inexact fun package _ same =>
    .bind directives_reads.inexact fun directives _ sameDirectives => ?_
  refine .bind (definitions_reads room) fun items _ sameItems => .bind
    (.glance (fun parser => parser.cursor.peek) peek_eq) fun _ _ _ => .pure ?_ ?_
  · simp [SourceUnit.written]
  · simp only [SourceUnit.erased, same, sameDirectives, sameItems]

end ServiceLang.Grammar
