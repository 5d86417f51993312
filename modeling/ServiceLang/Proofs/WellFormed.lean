import ServiceLang.Proofs.DepthDefinition
import ServiceLang.Proofs.WellFormedStmt

set_option autoImplicit false

/-! Every tree that is given back is well formed, however broken the source: what the
rules for definitions give is, and what recovery leaves in place of a broken one is a
placeholder or nothing. -/

namespace ServiceLang

namespace Grammar

open Step

variable {α : Type}

/-! ### Annotations -/

theorem unsignedLiteral_wellFormed : Gives unsignedLiteral Literal.WellFormed :=
  .bind fun token => .ite (.fail _) ((literalOf_wellFormed token).bindOf fun _ literal =>
    .bind fun _ => .pure literal)

theorem simpleLiteral_wellFormed : Gives simpleLiteral Literal.WellFormed :=
  startsNegativeLiteral_gives (fun _ _ _ number ran => wellFormed_of_negativeLiteral number ran)
    unsignedLiteral_wellFormed

theorem attachmentWith_wellFormed {value : Step AnnotationValue}
    (values : Gives value AnnotationValue.WellFormed) :
    Gives (attachmentWith value) Attachment.WellFormed := by
  have entry : Gives (annotationEntry value) fun entry => entry.value.WellFormed :=
    .bind fun _ => .bind fun _ => values.bindOf fun _ here => .pure here
  exact .bind fun _ => .bind fun _ => .bind fun _ => .bindOf (.closedList entry) fun found all =>
    .pure ((Attribute.allWellFormed_iff found.1).mpr all)

theorem annotationValue_wellFormed (room : Nat) :
    Gives (annotationValue room) AnnotationValue.WellFormed := by
  have literal : Gives (do return AnnotationValue.literal (← simpleLiteral))
      AnnotationValue.WellFormed := simpleLiteral_wellFormed.bindOf fun _ here => .pure here
  induction room with
  | zero =>
      refine .bind fun kind => ?_
      split
      · exact fun _ _ _ ran => absurd ran tooDeep_ne_ok
      · exact fun _ _ _ ran => absurd ran tooDeep_ne_ok
      · exact literal
  | succ room ih =>
      refine .bind fun kind => ?_
      split
      · exact (attachmentWith_wellFormed ih).bindOf fun _ here => .pure here
      · exact .bind fun _ => .bindOf (.closedList ih) fun found all =>
          .pure ((AnnotationValue.allWellFormed_iff found.1).mpr all)
      · exact literal

section Room

variable {room : Nat}

theorem attachments_wellFormed : Gives (attachments room) Attachment.AreWellFormed := by
  refine .whileAt ?_
  cases room with
  | zero => exact fun _ _ _ ran => absurd ran tooDeep_ne_ok
  | succ room => exact attachmentWith_wellFormed (annotationValue_wellFormed room)

/-! ### Signatures -/

theorem param_wellFormed : Gives (param room) Param.WellFormed :=
  .bind fun _ => .bindOf attachments_wellFormed fun _ attachments => .bind fun _ => .bind fun _ =>
    .pure attachments

theorem params_wellFormed : Gives (params room) fun params => ∀ param ∈ params, param.WellFormed :=
  .bind fun _ => .bindOf (.closedList param_wellFormed) fun _ all => .pure all

theorem results_wellFormed : Gives (results room) Returns.WellFormed := by
  refine .bind fun _ => .ite ?_ ?_
  · have named : Gives (commaSeparated (param room)) fun results =>
        results ≠ [] ∧ ∀ result ∈ results, result.WellFormed :=
      fun _ _ _ ran => ⟨Gives.commaSeparated_ne_nil ran, Gives.commaSeparated param_wellFormed ran⟩
    exact named.bindOf fun _ here => .pure here
  · have types : Gives (commaSeparated (typeName room)) fun results => results ≠ [] :=
      .commaSeparated_ne_nil
    exact types.bindOf fun _ here => .pure here

theorem signature_wellFormed : Gives (signature room) Signature.WellFormed := by
  have results : Gives (returns room) Returns.WellFormed :=
    .bind fun _ => results_wellFormed.bindOf fun _ here => .bind fun _ => .pure here
  exact .bind fun _ => .bindOf params_wellFormed fun _ params => .bindOf (.ifAt results)
    fun _ returns => .bind fun _ => .pure ⟨params, returns⟩

/-- A callable has a body exactly if it is not native. -/
theorem callableEnd_gives {native : Bool} {part : Step α} {holds : α → Prop}
    (parts : Gives part holds) :
    Gives (callableEnd native part) fun body =>
      (body = none ↔ native = true) ∧ ∀ found ∈ body, holds found := by
  cases native with
  | true => exact .bind fun _ => .pure ⟨by simp, by simp⟩
  | false => exact parts.bindOf fun _ here => .pure ⟨by simp, by simpa using here⟩

theorem callableBody_of_room : Gives (body room .callable) CallableBody.WellFormed :=
  callableBody_wellFormed (within_areWellFormed room)

theorem block_of_room : Gives (block room) Block.WellFormed :=
  block_wellFormed (within_areWellFormed room)

/-! ### Members -/

theorem members_give {member : Step α} {holds : α → Prop} (each : Gives member holds) :
    Gives (members member) fun found => ∀ value ∈ found, holds value := by
  have turns (found : List α) (start : ∀ value ∈ found, holds value) :
      Gives (nextMember member found) fun decision => ∀ value ∈ decision.value, holds value := by
    refine .bind fun _ => .bind fun _ => .ite (.pure start) ?_
    refine .bindOf (.orRecover (each.bindOf fun _ here => .pure ?_) fun _ => start) fun _ all =>
      .pure all
    exact Gives.append start here
  exact .bindOf (.loop turns (by simp)) fun _ all => .bind fun _ => .pure all

theorem resource_wellFormed : Gives (resource room) ResourceDef.WellFormed :=
  .bind fun _ => .bindOf attachments_wellFormed fun _ attachments => .bind fun _ => .bind fun _ =>
    .bindOf params_wellFormed fun _ params => .bindOf callableBody_of_room fun _ body =>
      .pure ⟨attachments, params, body⟩

theorem action_wellFormed : Gives (action room) CallableDef.WellFormed :=
  .bind fun _ => .bindOf attachments_wellFormed fun _ attachments => .bind fun _ => .bind fun _ =>
    .bindOf signature_wellFormed fun _ signature =>
      .bindOf (callableEnd_gives callableBody_of_room) fun _ body => .bind fun _ =>
        .pure ⟨attachments, signature, body.1, body.2⟩

def MemberIs (holds : α → Prop) : VarDef ⊕ α → Prop
  | .inl definition => definition.WellFormed
  | .inr definition => holds definition

theorem varDefs_of_members {holds : α → Prop} {found : List (VarDef ⊕ α)}
    (all : ∀ member ∈ found, MemberIs holds member) :
    ∀ varDef ∈ found.filterMap Sum.getLeft?, varDef.WellFormed := by
  intro varDef inside
  obtain ⟨member, isIn, isLeft⟩ := List.mem_filterMap.mp inside
  have here := all member isIn
  rw [Sum.getLeft?_eq_some_iff.mp isLeft] at here
  exact here

theorem others_of_members {holds : α → Prop} {found : List (VarDef ⊕ α)}
    (all : ∀ member ∈ found, MemberIs holds member) :
    ∀ other ∈ found.filterMap Sum.getRight?, holds other := by
  intro other inside
  obtain ⟨member, isIn, isRight⟩ := List.mem_filterMap.mp inside
  have here := all member isIn
  rw [Sum.getRight?_eq_some_iff.mp isRight] at here
  exact here

theorem serviceMember_gives :
    Gives (serviceMember room) (MemberIs ResourceDef.WellFormed) := by
  refine .bind fun _ => .ite ?_ (.bind fun _ => .ite ?_ (.failAt _))
  · exact resource_wellFormed.bindOf fun _ here => .pure here
  · exact (varDef_wellFormed (within_areWellFormed room)).bindOf fun _ here => .pure here

theorem connectorMember_gives :
    Gives (connectorMember room) (MemberIs CallableDef.WellFormed) := by
  refine .bind fun _ => .ite ?_ (.bind fun _ => .ite ?_ (.failAt _))
  · exact action_wellFormed.bindOf fun _ here => .pure here
  · exact (varDef_wellFormed (within_areWellFormed room)).bindOf fun _ here => .pure here

theorem field_wellFormed : Gives (field room) FieldDef.WellFormed := by
  have typed : Gives (typedField room) FieldDef.WellFormed :=
    .bind fun _ => .bind fun _ => .bindOf (.ifBehind simpleLiteral_wellFormed) fun _ default =>
      .bind fun _ => .bind fun _ => .pure default
  exact .bind fun _ => .ite typed (.failAt _)

/-! ### Definitions -/

variable {header : Header} (attachments : Attachment.AreWellFormed header.attachments)

include attachments

theorem service_wellFormed : Gives (service room header) ServiceDef.WellFormed :=
  .bind fun _ => .bind fun _ => .bind fun _ => .bind fun _ => .bind fun _ => .bind fun _ =>
    .bindOf (members_give serviceMember_gives) fun _ all => .bind fun _ =>
      .pure ⟨attachments, varDefs_of_members all, others_of_members all⟩

theorem function_wellFormed : Gives (function room header) CallableDef.WellFormed :=
  .bind fun _ => .bind fun _ => .bindOf signature_wellFormed fun _ signature =>
    .bindOf (callableEnd_gives callableBody_of_room) fun _ body => .bind fun _ =>
      .pure ⟨attachments, signature, body.1, body.2⟩

theorem connector_wellFormed : Gives (connector room header) ConnectorDef.WellFormed :=
  .bind fun _ => .bind fun _ => .bindOf params_wellFormed fun _ params => .bind fun _ =>
    .bindOf (members_give connectorMember_gives) fun _ all => .bind fun _ =>
      .pure ⟨attachments, params, varDefs_of_members all, others_of_members all⟩

theorem struct_wellFormed : Gives (struct room header) StructDef.WellFormed :=
  .bind fun _ => .bind fun _ => .bind fun _ => .bindOf (members_give field_wellFormed)
    fun _ all => .bind fun _ => .pure ⟨attachments, all⟩

theorem annotationDef_wellFormed : Gives (annotationDef room header) AnnotationDef.WellFormed :=
  .bind fun _ => .bind fun _ => .bind fun _ => .bind fun _ =>
    .bindOf (members_give field_wellFormed) fun _ all => .bind fun _ => .pure ⟨attachments, all⟩

theorem typeMapper_wellFormed : Gives (typeMapper room header) TypeMapperDef.WellFormed :=
  .bind fun _ => .bind fun _ => .bind fun _ => .bind fun _ =>
    .bindOf param_wellFormed fun _ param => .bind fun _ => .bind fun _ => .bind fun _ =>
      .bind fun _ => .bindOf (callableEnd_gives block_of_room) fun _ body => .bind fun _ =>
        .pure ⟨attachments, param, body.1, body.2⟩

omit attachments in
theorem constantType_isValue : Gives (constantType room) fun type => type.isValue = true := by
  intro parser later type ran
  rw [constantType, look_bind (peek_eq parser)] at ran
  split at ran
  · rename_i word
    exact isValue_of_baseType word ran
  · exact absurd ran fail_ne_ok

theorem constant_wellFormed : Gives (constant room header) ConstantDef.WellFormed :=
  .bind fun _ => constantType_isValue.bindOf fun _ type => .bind fun _ => .bind fun _ =>
    (expr_plain room 0).bindOf fun _ value => .bind fun _ => .bind fun _ =>
      .pure ⟨attachments, type, value⟩

theorem globalVar_wellFormed : Gives (globalVar room header) GlobalVarDef.WellFormed :=
  .bind fun _ => .bind fun _ => .bindOf (.ifBehind (expr_plain room 0)) fun _ init =>
    .bind fun _ => .bind fun _ => .pure ⟨attachments, init⟩

theorem headedDefinition_wellFormed :
    Gives (headedDefinition room header) Definition.WellFormed := by
  have functions : Gives (do return Definition.function (← function room header))
      Definition.WellFormed := (function_wellFormed attachments).bindOf fun _ here => .pure here
  have typeMappers : Gives (do return Definition.typeMapper (← typeMapper room header))
      Definition.WellFormed := (typeMapper_wellFormed attachments).bindOf fun _ here => .pure here
  have natives : Gives (nativeDefinition room header) Definition.WellFormed := by
    refine .bind fun kind => ?_
    split
    · exact functions
    · exact typeMappers
    · exact .bind fun _ => .fail _
  refine .bind fun kind => ?_
  split
  · exact (service_wellFormed attachments).bindOf fun _ here => .pure here
  · exact functions
  · exact natives
  · exact (connector_wellFormed attachments).bindOf fun _ here => .pure here
  · exact (struct_wellFormed attachments).bindOf fun _ here => .pure here
  · exact typeMappers
  · exact (constant_wellFormed attachments).bindOf fun _ here => .pure here
  · exact (annotationDef_wellFormed attachments).bindOf fun _ here => .pure here
  · exact .bind fun _ => .fail _
  · exact .bind fun _ => .fail _
  · exact .bind fun _ => .fail _
  · exact .bind fun _ => .ite
      ((globalVar_wellFormed attachments).bindOf fun _ here => .pure here) (.failAt _)

omit attachments in
theorem definition_wellFormed : Gives (definition room) Definition.WellFormed :=
  .bind fun _ => attachments_wellFormed.bindOf fun _ here => headedDefinition_wellFormed here

end Room

/-! ### Sources -/

theorem packageName_wellFormed : Gives packageName PackageName.WellFormed := by
  have segments (first : Identifier) :
      Gives (loop nextSegment [first]) fun segments => segments ≠ [] := by
    refine .loop (fun segments start => ?_) (List.cons_ne_nil first [])
    exact .bind fun _ => .bind fun _ =>
      .ite (.bind fun _ => .bind fun _ => .pure (by simp)) (.pure start)
  exact .bind fun first => (segments first).bindOf fun _ some => .bind fun _ => .pure some

theorem packageHeader_wellFormed :
    Gives packageHeader fun package => ∀ declaration ∈ package, declaration.name.WellFormed := by
  have declared : Gives packageDecl fun declaration => declaration.name.WellFormed :=
    .bind fun _ => packageName_wellFormed.bindOf fun _ name => .bind fun _ => .bind fun _ =>
      .pure name
  refine .bind fun _ => .ite (.orSkip (declared.bindOf fun _ here => .pure ?_) (by simp))
    (.pure (by simp))
  simpa using here

theorem directives_wellFormed :
    Gives directives fun found => ∀ directive ∈ found, directive.WellFormed := by
  have imports : Gives importDecl fun declaration => declaration.package.WellFormed :=
    .bind fun _ => packageName_wellFormed.bindOf fun _ package => .bind fun _ => .bind fun _ =>
      .bind fun _ => .pure package
  have one : Gives directive Directive.WellFormed :=
    .bind fun _ => .ite (imports.bindOf fun _ here => .pure here) (.bind fun _ => .pure trivial)
  refine .loop (fun found start => .bind fun _ => .ite ?_ (.pure start)) (by simp)
  refine .bindOf (.orSkip (one.bindOf fun _ here => .pure ?_) fun _ => start) fun _ all => .pure all
  exact Gives.append start here

theorem definitions_wellFormed (room : Nat) :
    Gives (definitions room) fun found => ∀ item ∈ found, item.WellFormed := by
  refine .loop (fun found start => .bind fun _ => .ite (.pure start) ?_) (by simp)
  refine .bindOf (.orSkip definition_wellFormed fun _ => trivial) fun item here => .pure ?_
  exact Gives.append start here

theorem sourceUnit_wellFormed (room : Nat) : Gives (sourceUnit room) SourceUnit.WellFormed :=
  .bind fun _ => packageHeader_wellFormed.bindOf fun _ package =>
    directives_wellFormed.bindOf fun _ directives => (definitions_wellFormed room).bindOf
      fun _ items => .bind fun _ => .pure ⟨package, directives, items⟩

end Grammar

theorem Parser.wellFormed_readUnit (parser : Parser) : parser.readUnit.1.WellFormed := by
  rw [readUnit, (Grammar.sourceUnit_isCounted parser).does]
  split
  · rename_i unit later ran
    exact Grammar.sourceUnit_wellFormed _ ran
  · exact ⟨by simp, by simp, by simp⟩

/-- The tree of every source is well formed. -/
theorem parseWith_wellFormed (source : String) (options : Options) :
    (parseWith source options).1.WellFormed :=
  Parser.wellFormed_readUnit _

end ServiceLang
