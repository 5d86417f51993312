import ServiceLang.Grammar.Definition
import ServiceLang.Parse
import ServiceLang.Proofs.DepthStmt

set_option autoImplicit false

/-! The levels of annotations, definitions and whole sources. Definitions stand side by side:
each has all the levels of the options, whatever has failed in the ones before. -/

namespace ServiceLang.Grammar

open Step

variable {room : Nat}

/-! ### Annotations -/

theorem unsignedLiteral_level : Level room unsignedLiteral :=
  .bind .peek fun _ _ => .ite .fail
    (.bind (literalOf_levels _) fun _ _ => .bind .advance fun _ _ => .pure trivial)

theorem simpleLiteral_level : Level room simpleLiteral :=
  .bind startsNegativeLiteral_level fun _ _ => .ite negativeLiteral_level unsignedLiteral_level

section Value

variable {value counted : Step AnnotationValue}
  (levels : Levels room (fun value => value.depth ≤ room) value counted)

include levels

theorem annotationEntry_levels :
    Levels room (fun entry => entry.depth ≤ room)
      (annotationEntry value) (annotationEntry counted) :=
  .bind .expectIdentifier fun _ _ => .bind (.symbol _) fun _ _ => .bind levels fun _ shallow =>
    .pure shallow

theorem attachmentWith_levels :
    Levels room (fun nested => nested.depth ≤ room + 1)
      (attachmentWith value) (attachmentWith counted) := by
  refine .bind (.symbol _) fun _ _ => .bind nameReference_level fun _ _ => .bind (.symbol _)
    fun _ _ => .bind (.closedList (annotationEntry_levels levels) _) fun list shallow => .pure ?_
  have inside : Attribute.deepest list.1 ≤ room :=
    Attribute.deepest_eq list.1 ▸ deepest_le_iff.mpr shallow
  exact Nat.succ_le_succ inside

theorem annotationArray_levels :
    Levels room (fun array => array.depth ≤ room + 1)
      (annotationArray value) (annotationArray counted) := by
  refine .bind (.symbol _) fun _ _ => .bind (.closedList levels _) fun list shallow => .pure ?_
  have inside : AnnotationValue.deepest list.1 ≤ room :=
    AnnotationValue.deepest_eq list.1 ▸ deepest_le_iff.mpr shallow
  exact Nat.succ_le_succ inside

end Value

/-- An annotation value goes one level further in where it is an annotation, and where it is an
array. -/
theorem annotationValue_levels {room fuel : Nat} (enough : room < fuel) :
    Levels room (fun value => value.depth ≤ room)
      (annotationValue room) (@annotationValue .counted fuel) := by
  have literals (room : Nat) : Levels room (fun value => value.depth ≤ room)
      (do return AnnotationValue.literal (← simpleLiteral))
      (do return AnnotationValue.literal (← simpleLiteral)) :=
    .bind simpleLiteral_level fun _ _ => .pure (Nat.zero_le room)
  induction room generalizing fuel with
  | zero =>
      obtain ⟨fuel, rfl⟩ := Nat.exists_eq_succ_of_ne_zero (Nat.ne_zero_of_lt enough)
      refine .bind .current fun kind _ => ?_
      split
      · change Levels 0 _ (tooDeep >>= fun nested => return AnnotationValue.attachment nested) _
        have refused : Levels 0 (fun _ => False) tooDeep
            (nested (attachmentWith (@annotationValue .counted fuel))) := .refused
        exact .bind refused fun _ never => never.elim
      · exact .refused
      · exact literals 0
  | succ room ih =>
      obtain ⟨fuel, rfl⟩ := Nat.exists_eq_succ_of_ne_zero (Nat.ne_zero_of_lt enough)
      have inner := ih (Nat.lt_of_succ_lt_succ enough)
      refine .bind .current fun kind _ => ?_
      split
      · exact .bind (.entered (attachmentWith_levels inner)) fun _ shallow => .pure shallow
      · exact .entered (annotationArray_levels inner)
      · exact literals (room + 1)

/-! ### Rules without levels of their own -/

theorem resultsAreNamed_level : Level room resultsAreNamed :=
  .bind (.check _) fun _ _ => .ite (.pure trivial) .isVarDef

theorem attachPoint_level : Level room attachPoint := by
  refine .bind .peek fun token _ => ?_
  split
  · exact .bind .advance fun _ _ => .pure trivial
  · exact .fail

theorem attachPoints_level : Level room attachPoints :=
  .bind (.eat _) fun _ _ => .ite (Levels.commaSeparated attachPoint_level).level
    (.pure trivial)

theorem nextSegment_level (segments : List Identifier) : Level room (nextSegment segments) :=
  .bind (.check _) fun _ _ => .bind (.kindNth 1) fun _ _ => .ite
    (.bind (.symbol _) fun _ _ => .bind .expectIdentifier fun _ _ => .pure trivial)
    (.pure trivial)

theorem packageName_level : Level room packageName := by
  refine .bind .expectIdentifier fun first _ => ?_
  have segments : Level room (loop nextSegment [first]) :=
    .loop (fun segments _ => nextSegment_level segments) trivial
  exact .bind segments fun _ _ => .bind (.spanFrom _) fun _ _ => .pure trivial

theorem packageDecl_level : Level room packageDecl :=
  .bind (.keyword _) fun _ _ => .bind packageName_level fun _ _ => .bind .endStatement
    fun _ _ => .bind (.spanFrom _) fun _ _ => .pure trivial

theorem importDecl_level : Level room importDecl :=
  .bind (.keyword _) fun _ _ => .bind packageName_level fun _ _ =>
    .bind (Levels.ifBehind .expectIdentifier _) fun _ _ => .bind .endStatement fun _ _ =>
      .bind (.spanFrom _) fun _ _ => .pure trivial

theorem directive_level : Level room directive :=
  .bind (.check _) fun _ _ => .ite
    (.bind importDecl_level fun _ _ => .pure trivial)
    (.bind namespaceDecl_level fun _ _ => .pure trivial)

theorem packageHeader_level : Level room packageHeader :=
  .bind (.check _) fun _ _ => .ite
    (.orSkip (.bind packageDecl_level fun _ _ => .pure trivial) fun _ => trivial)
    (.pure trivial)

theorem nextDirective_level (found : List Directive) : Level room (nextDirective found) := by
  refine .bind .current fun _ _ => .ite ?_ (.pure trivial)
  have next : Level room (orSkip (do return found ++ [← directive]) fun _ => found) :=
    .orSkip (.bind directive_level fun _ _ => .pure trivial) fun _ => trivial
  exact .bind next fun _ _ => .pure trivial

theorem directives_level : Level room directives :=
  .loop (fun found _ => nextDirective_level found) trivial

/-! ### Members -/

theorem callableEnd_levels {α : Type} {good : α → Prop} (native : Bool) {body counted : Step α}
    (levels : Levels room good body counted) :
    Levels room (fun found => ∀ body ∈ found, good body)
      (callableEnd native body) (callableEnd native counted) :=
  .ite (.bind .endStatement fun _ _ => .pure fun _ none => nomatch none)
    (.bind levels fun _ isGood => .pure fun _ found => by cases found; exact isGood)

section Members

variable {α : Type} {good : α → Prop} {member counted : Step α}

theorem members_levels (levels : Levels room good member counted) :
    Levels room (fun found => ∀ member ∈ found, good member)
      (members member) (members counted) := by
  refine .bind (.loop (fun found isGood => .bind .current fun _ _ => .bind (.kindNth 1) fun _ _ =>
    .ite (.pure isGood) ?_) fun _ none => nomatch none) fun _ isGood =>
      .bind .closeBrace fun _ _ => .pure isGood
  refine .bind (.orRecover ?_ (fun _ => isGood) _) fun _ isGood => .pure isGood
  exact .bind levels fun _ inner => .pure
    (List.forall_mem_append.mpr ⟨isGood, List.forall_mem_singleton.mpr inner⟩)

theorem notAMember_levels (wanted : String) :
    Levels room good (notAMember wanted : Step α) (notAMember wanted : Step α) :=
  .failAt

end Members

def MemberWithin (room : Nat) {α β : Type} (depth : α → Nat) (otherDepth : β → Nat) : α ⊕ β → Prop
  | .inl member => depth member ≤ room
  | .inr member => otherDepth member ≤ room

section Sorts

variable {α β : Type} {depth : α → Nat} {otherDepth : β → Nat} {found : List (α ⊕ β)}
  (shallow : ∀ member ∈ found, MemberWithin room depth otherDepth member)

include shallow

theorem lefts_shallow : deepest depth (found.filterMap Sum.getLeft?) ≤ room := by
  refine deepest_le_iff.mpr fun part inside => ?_
  obtain ⟨member, isMember, isPart⟩ := List.mem_filterMap.mp inside
  cases member with
  | inl left =>
      cases isPart
      exact shallow _ isMember
  | inr right => cases isPart

theorem rights_shallow : deepest otherDepth (found.filterMap Sum.getRight?) ≤ room := by
  refine deepest_le_iff.mpr fun part inside => ?_
  obtain ⟨member, isMember, isPart⟩ := List.mem_filterMap.mp inside
  cases member with
  | inl left => cases isPart
  | inr right =>
      cases isPart
      exact shallow _ isMember

end Sorts

def Header.Within (room : Nat) (header : Header) : Prop :=
  deepest Attachment.depth header.attachments ≤ room

abbrev Defines (room : Nat) {α : Type} (depth : α → Nat) (rule counted : Step α) : Prop :=
  Levels room (fun definition => depth definition ≤ room) rule counted

theorem misplacedDirective_levels :
    Defines room Definition.depth misplacedDirective misplacedDirective :=
  .bind .peek fun _ _ => .fail

/-! ### Rules within so many levels -/

section Guarded

variable {fuel : Nat} (enough : room < fuel)

include enough

theorem attachment_levels :
    Levels room (fun attachment => attachment.depth ≤ room)
      (attachment room) (@attachment .counted fuel) := by
  obtain ⟨fuel, rfl⟩ := Nat.exists_eq_succ_of_ne_zero (Nat.ne_zero_of_lt enough)
  cases room with
  | zero => exact .refused
  | succ room =>
      exact .entered (attachmentWith_levels (annotationValue_levels (Nat.lt_of_succ_lt_succ enough)))

theorem attachments_levels :
    Levels room (fun found => deepest Attachment.depth found ≤ room)
      (attachments room) (@attachments .counted fuel) :=
  (Levels.whileAt (attachment_levels enough) _).mono fun _ shallow => deepest_le_iff.mpr shallow

/-! ### Signatures -/

theorem typeName_shallow :
    Levels room (fun type => type.depth ≤ room) (typeName room) (@typeName .counted fuel) :=
  (typeName_levels enough).mono fun _ shallow => Nat.le_of_lt shallow

theorem param_levels :
    Levels room (fun param => param.depth ≤ room) (param room) (@param .counted fuel) :=
  .bind .peek fun _ _ => .bind (attachments_levels enough) fun _ attachments =>
    .bind (typeName_shallow enough) fun _ type => .bind .expectIdentifier fun _ _ =>
      .pure (Nat.max_le.mpr ⟨attachments, type⟩)

theorem params_levels :
    Levels room (fun params => deepest Param.depth params ≤ room)
      (params room) (@params .counted fuel) :=
  .bind (.symbol _) fun _ _ => .bind (.closedList (param_levels enough) _) fun _ shallow =>
    .pure (deepest_le_iff.mpr shallow)

theorem results_levels :
    Levels room (fun results => results.depth ≤ room) (results room) (@results .counted fuel) :=
  .bind resultsAreNamed_level fun _ _ => .ite
    (.bind (.commaSeparated (param_levels enough)) fun _ shallow =>
      .pure (deepest_le_iff.mpr shallow))
    (.bind (.commaSeparated (typeName_shallow enough)) fun _ shallow =>
      .pure (deepest_le_iff.mpr shallow))

theorem returns_levels :
    Levels room (fun returns => returns.depth ≤ room) (returns room) (@returns .counted fuel) :=
  .bind (.symbol _) fun _ _ => .bind (results_levels enough) fun _ shallow =>
    .bind (.symbol _) fun _ _ => .pure shallow

theorem signature_levels :
    Levels room (fun signature => signature.depth ≤ room)
      (signature room) (@signature .counted fuel) :=
  .bind .expectIdentifier fun _ _ => .bind (params_levels enough) fun _ params =>
    .bind (.ifAt (returns_levels enough) _) fun _ returns => .bind (.spanFrom _) fun _ _ =>
      .pure (Nat.max_le.mpr ⟨params, depthIfAny_le_iff.mpr returns⟩)

theorem resource_levels :
    Levels room (fun definition => definition.depth ≤ room)
      (resource room) (@resource .counted fuel) :=
  .bind .peek fun _ _ => .bind (attachments_levels enough) fun _ attachments =>
    .bind (.keyword _) fun _ _ => .bind .expectIdentifier fun _ _ =>
      .bind (params_levels enough) fun _ params => .bind (body_levels enough _) fun _ body =>
        .pure (Nat.max_le.mpr ⟨attachments, Nat.max_le.mpr ⟨params, body⟩⟩)

theorem memberVarDef_levels :
    Levels room (fun definition => definition.depth ≤ room)
      (varDef (.within room)) (varDef (@StmtParts.within .counted fuel)) :=
  varDef_levels (stmtParts_hasLevels enough)

theorem serviceMember_levels :
    Levels room (MemberWithin room VarDef.depth ResourceDef.depth)
      (serviceMember room) (@serviceMember .counted fuel) :=
  .bind .current fun _ _ => .ite
    (.bind (resource_levels enough) fun _ shallow => .pure shallow) <|
    .bind .isVarDef fun _ _ => .ite
      (.bind (memberVarDef_levels enough) fun _ shallow => .pure shallow) (notAMember_levels _)

theorem action_levels :
    Levels room (fun definition => definition.depth ≤ room) (action room) (@action .counted fuel) :=
  .bind .peek fun _ _ => .bind (attachments_levels enough) fun _ attachments =>
    .bind (.eat _) fun native _ => .bind (.keyword _) fun _ _ =>
      .bind (signature_levels enough) fun _ signature =>
        .bind (callableEnd_levels native (body_levels enough _)) fun _ body =>
          .bind (.spanFrom _) fun _ _ => .pure (Nat.max_le.mpr
            ⟨attachments, Nat.max_le.mpr ⟨signature, depthIfAny_le_iff.mpr body⟩⟩)

theorem connectorMember_levels :
    Levels room (MemberWithin room VarDef.depth CallableDef.depth)
      (connectorMember room) (@connectorMember .counted fuel) :=
  .bind .current fun _ _ => .ite
    (.bind (action_levels enough) fun _ shallow => .pure shallow) <|
    .bind .isVarDef fun _ _ => .ite
      (.bind (memberVarDef_levels enough) fun _ shallow => .pure shallow) (notAMember_levels _)

theorem field_levels :
    Levels room (fun definition => definition.depth ≤ room) (field room) (@field .counted fuel) :=
  .bind .current fun _ _ => .ite
    (.bind (typeName_shallow enough) fun _ type => .bind .expectIdentifier fun _ _ =>
      .bind (Levels.ifBehind simpleLiteral_level _) fun _ _ => .bind .endStatement fun _ _ =>
        .bind (.spanFrom _) fun _ _ => .pure type)
    (notAMember_levels _)

/-! ### Definitions -/

section Headed

variable {header : Header} (shallow : header.Within room)

include shallow

theorem service_levels :
    Defines room ServiceDef.depth (service room header) (@service .counted fuel header) :=
  .bind (.keyword _) fun _ _ => .bind (.symbol _) fun _ _ => .bind .expectIdentifier fun _ _ =>
    .bind (.symbol _) fun _ _ => .bind .expectIdentifier fun _ _ => .bind (.symbol _) fun _ _ =>
      .bind (members_levels (serviceMember_levels enough)) fun _ found => .bind (.spanFrom _)
        fun _ _ => .pure (Nat.max_le.mpr
          ⟨shallow, Nat.max_le.mpr ⟨lefts_shallow found, rights_shallow found⟩⟩)

theorem function_levels :
    Defines room CallableDef.depth (function room header) (@function .counted fuel header) :=
  .bind (.eat _) fun native _ => .bind (.keyword _) fun _ _ => .bind (signature_levels enough)
    fun _ signature => .bind (callableEnd_levels native (body_levels enough _)) fun _ body =>
      .bind (.spanFrom _) fun _ _ => .pure (Nat.max_le.mpr
        ⟨shallow, Nat.max_le.mpr ⟨signature, depthIfAny_le_iff.mpr body⟩⟩)

theorem connector_levels :
    Defines room ConnectorDef.depth (connector room header) (@connector .counted fuel header) :=
  .bind (.keyword _) fun _ _ => .bind .expectIdentifier fun _ _ => .bind (params_levels enough)
    fun _ params => .bind (.symbol _) fun _ _ =>
      .bind (members_levels (connectorMember_levels enough)) fun _ found => .bind (.spanFrom _)
        fun _ _ => .pure (Nat.max_le.mpr ⟨Nat.max_le.mpr ⟨shallow, params⟩,
          Nat.max_le.mpr ⟨lefts_shallow found, rights_shallow found⟩⟩)

theorem struct_levels :
    Defines room StructDef.depth (struct room header) (@struct .counted fuel header) :=
  .bind (.keyword _) fun _ _ => .bind .expectIdentifier fun _ _ => .bind (.symbol _) fun _ _ =>
    .bind (members_levels (field_levels enough)) fun _ fields => .bind (.spanFrom _) fun _ _ =>
      .pure (Nat.max_le.mpr ⟨shallow, deepest_le_iff.mpr fields⟩)

theorem annotationDef_levels :
    Defines room AnnotationDef.depth
      (annotationDef room header) (@annotationDef .counted fuel header) :=
  .bind (.keyword _) fun _ _ => .bind .expectIdentifier fun _ _ => .bind attachPoints_level
    fun _ _ => .bind (.symbol _) fun _ _ => .bind (members_levels (field_levels enough))
      fun _ fields => .bind (.spanFrom _) fun _ _ =>
        .pure (Nat.max_le.mpr ⟨shallow, deepest_le_iff.mpr fields⟩)

omit shallow in
theorem definitionBlock_levels :
    Levels room (fun block => block.depth ≤ room) (block room) (@block .counted fuel) :=
  .bind (body_levels enough _) fun body shallow =>
    .pure (Nat.le_trans (depth_toBlock body) shallow)

theorem typeMapper_levels :
    Defines room TypeMapperDef.depth (typeMapper room header) (@typeMapper .counted fuel header) :=
  .bind (.eat _) fun native _ => .bind (.keyword _) fun _ _ => .bind .expectIdentifier fun _ _ =>
    .bind (.symbol _) fun _ _ => .bind (param_levels enough) fun _ param => .bind (.symbol _)
      fun _ _ => .bind (.symbol _) fun _ _ => .bind (typeName_shallow enough) fun _ type =>
        .bind (.symbol _) fun _ _ =>
          .bind (callableEnd_levels native (definitionBlock_levels enough)) fun _ body =>
            .bind (.spanFrom _) fun _ _ => .pure (Nat.max_le.mpr
              ⟨Nat.max_le.mpr ⟨shallow, param⟩,
                Nat.max_le.mpr ⟨type, depthIfAny_le_iff.mpr body⟩⟩)

omit shallow in
theorem constantType_levels :
    Levels room (fun type => type.depth ≤ room) (constantType room) (@constantType .counted fuel) :=
  .bind .peek fun _ _ => .ite (baseType_levels (typeName_levels enough)) .fail

theorem constant_levels :
    Defines room ConstantDef.depth (constant room header) (@constant .counted fuel header) :=
  .bind (.keyword _) fun _ _ => .bind (constantType_levels enough) fun _ type =>
    .bind .expectIdentifier fun _ _ => .bind (.symbol _) fun _ _ => .bind (expr_levels enough 0)
      fun _ value => .bind .endStatement fun _ _ => .bind (.spanFrom _) fun _ _ =>
        .pure (Nat.max_le.mpr ⟨shallow, Nat.max_le.mpr ⟨type, Nat.le_of_lt value⟩⟩)

theorem globalVar_levels :
    Defines room GlobalVarDef.depth (globalVar room header) (@globalVar .counted fuel header) := by
  refine .bind (typeName_shallow enough) fun _ type => .bind .expectIdentifier fun _ _ =>
    .bind (.ifBehind (expr_levels enough 0) _) fun init inner => .bind .endStatement fun _ _ =>
      .bind (.spanFrom _) fun _ _ => .pure ?_
  have inInit : depthIfAny Expr.depth init ≤ room :=
    depthIfAny_le_iff.mpr fun value found => Nat.le_of_lt (inner value found)
  exact Nat.max_le.mpr ⟨shallow, Nat.max_le.mpr ⟨type, inInit⟩⟩

theorem plainDefinition_levels :
    Defines room Definition.depth
      (plainDefinition room header) (@plainDefinition .counted fuel header) :=
  .bind .isVarDef fun _ _ => .ite
    (.bind (globalVar_levels enough shallow) fun _ inner => .pure inner)
    .failAt

theorem nativeDefinition_levels :
    Defines room Definition.depth
      (nativeDefinition room header) (@nativeDefinition .counted fuel header) := by
  refine .bind (.kindNth 1) fun kind _ => ?_
  split
  · exact .bind (function_levels enough shallow) fun _ inner => .pure inner
  · exact .bind (typeMapper_levels enough shallow) fun _ inner => .pure inner
  · exact .bind .cursor fun _ _ => .fail

theorem headedDefinition_levels :
    Defines room Definition.depth
      (headedDefinition room header) (@headedDefinition .counted fuel header) := by
  refine .bind .current fun kind _ => ?_
  split
  · exact .bind (service_levels enough shallow) fun _ inner => .pure inner
  · exact .bind (function_levels enough shallow) fun _ inner => .pure inner
  · exact nativeDefinition_levels enough shallow
  · exact .bind (connector_levels enough shallow) fun _ inner => .pure inner
  · exact .bind (struct_levels enough shallow) fun _ inner => .pure inner
  · exact .bind (typeMapper_levels enough shallow) fun _ inner => .pure inner
  · exact .bind (constant_levels enough shallow) fun _ inner => .pure inner
  · exact .bind (annotationDef_levels enough shallow) fun _ inner => .pure inner
  · exact misplacedDirective_levels
  · exact misplacedDirective_levels
  · exact misplacedDirective_levels
  · exact plainDefinition_levels enough shallow

end Headed

theorem definition_levels :
    Defines room Definition.depth (definition room) (@definition .counted fuel) :=
  .bind .peek fun _ _ => .bind (attachments_levels enough) fun _ shallow =>
    headedDefinition_levels enough shallow

/-! ### Sources -/

/-- Each definition has all levels, whatever has failed before. -/
theorem definitions_levels :
    Levels room (fun items => ∀ item ∈ items, item.depth ≤ room)
      (definitions room) (@definitions .counted fuel) := by
  refine .loop (fun found shallow => .bind (.check _) fun _ _ => .ite (.pure shallow) ?_)
    fun _ none => nomatch none
  refine .bind (.orSkip (definition_levels enough) fun _ => Nat.zero_le room) fun _ inner => .pure ?_
  exact List.forall_mem_append.mpr ⟨shallow, List.forall_mem_singleton.mpr inner⟩

theorem sourceUnit_levels :
    Levels room (fun unit => unit.depth ≤ room) (sourceUnit room) (@sourceUnit .counted fuel) :=
  .bind .peek fun _ _ => .bind packageHeader_level fun _ _ => .bind directives_level
    fun _ _ => .bind (definitions_levels enough) fun _ shallow => .bind .peek fun _ _ =>
      .pure (deepest_le_iff.mpr shallow)

end Guarded

/-! ### The counter -/

/-- How a rule is counted. With some levels open it does what it does with those that are left up
to the limit, and behind it, whether it has given a value or failed, as many are open as before. -/
structure IsCounted {α : Type} (rule : [Guard] → (room : Nat) → Step α) (parser : Parser) : Prop where
  does : counted rule parser = rule (parser.options.maxDepth - parser.depth) parser
  closes : parser.AsDeep (after (counted rule) parser)

theorem isCounted_of_levels {α : Type} {good : Nat → α → Prop}
    {rule : [Guard] → (room : Nat) → Step α}
    (levels : ∀ {room fuel}, room < fuel →
      Levels room (good room) (rule room) (@rule .counted fuel))
    (parser : Parser) : IsCounted rule parser := by
  have enough : parser.options.maxDepth - parser.depth < parser.options.maxDepth + 1 :=
    Nat.lt_succ_of_le (Nat.sub_le _ _)
  obtain ⟨does, closes⟩ := (levels enough).eq (Nat.add_sub_of_le parser.depth_le)
  exact ⟨does, closes⟩

theorem sourceUnit_isCounted (parser : Parser) :
    IsCounted sourceUnit parser :=
  isCounted_of_levels sourceUnit_levels parser

end ServiceLang.Grammar

namespace ServiceLang.Parser

theorem depth_ofTokens (tokens : List Token) (errors : List LexicalError) (options : Options) :
    (ofTokens tokens errors options).depth = 0 := by
  refine List.foldlRecOn (motive := fun parser : Parser => parser.depth = 0) errors _ rfl
    fun parser same problem _ => ?_
  rw [(asDeep_report parser _).depth, same]

theorem depth_ofSource (source : String) (options : Options) :
    (ofSource source options).depth = 0 :=
  depth_ofTokens _ _ options

/-- A parse that is about to start has all levels left. -/
theorem readUnit_of_ok {parser later : Parser} {unit : SourceUnit} (start : parser.depth = 0)
    (ran : Grammar.sourceUnit parser.options.maxDepth parser = .ok unit later) :
    parser.readUnit = (unit, later.diagnostics) := by
  rw [readUnit, (Grammar.sourceUnit_isCounted parser).does, start, Nat.sub_zero, ran]

end ServiceLang.Parser
