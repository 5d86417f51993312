import ServiceLang.Proofs.HarvestStmt
import ServiceLang.Proofs.OrderlyDefinition

set_option autoImplicit false

/-! What definitions and whole sources bring in: the bodies of their callables. -/

namespace ServiceLang.Grammar

open Step

variable {brings : Parser → List CallableBody → Parser → List CallableBody → Prop}
  [Harvest brings]

theorem callableEnd_adds {α : Type} {native : Bool} {part : Step α} {bodies : α → List CallableBody}
    (adds : Adds brings part bodies) :
    Adds brings (callableEnd native part) (bodiesIfAny bodies) := by
  intro found
  cases native with
  | true => exact .behind .endStatement fun _ => .whole (List.append_nil found)
  | false => exact (adds found).bind fun _ => .whole rfl

theorem members_adds {α : Type} {member : Step α} {bodies : α → List CallableBody}
    (eager : Eager (fun _ => True) member) (adds : Adds brings member bodies) :
    Adds brings (members member) (List.flatMap bodies) := by
  intro found
  have all : Harvests brings _ (Step.loop (nextMember member) []) _ :=
    .loop (fun members => found ++ members.flatMap bodies) ?_ []
  · rw [List.flatMap_nil, List.append_nil] at all
    exact all.bind fun _ => .behind .closeBrace fun _ => .whole rfl
  · intro members
    refine .behind .current fun _ => .behind (.kindNth _) fun _ => .ite (.whole rfl)
      (.bind (.orRecover ?_ ?_ ?_) fun _ => .whole rfl)
    · exact .bind eager.orderly fun _ => .pure _
    · exact (adds _).bind fun member => .whole (by simp)
    · exact fun _ => .refl _

def memberBodies {α : Type} (bodies : α → List CallableBody) : VarDef ⊕ α → List CallableBody
  | .inl _ => []
  | .inr definition => bodies definition

theorem flatMap_memberBodies {α : Type} (bodies : α → List CallableBody)
    (found : List (VarDef ⊕ α)) :
    (found.filterMap Sum.getRight?).flatMap bodies = found.flatMap (memberBodies bodies) := by
  induction found with
  | nil => rfl
  | cons member rest ih =>
      cases member with
      | inl definition => exact ih
      | inr definition => exact congrArg (bodies definition ++ ·) ih

section Room

variable {room : Nat} (harvested : (StmtParts.within room).AreHarvested brings)

include harvested

theorem resource_adds : Adds brings (resource room) ResourceDef.bodies :=
  fun found => .behind .peek fun _ => .behind (attachments_orderly room) fun _ =>
    .behind (fun _ => Run.expect fun _ => trivial) fun _ => .behind .expectIdentifier fun _ =>
      .behind (params_orderly room) fun _ => (harvested.body .callable found).bind fun _ =>
        .whole rfl

theorem serviceMember_adds :
    Adds brings (serviceMember room) (memberBodies ResourceDef.bodies) := by
  refine fun found => .behind .current fun _ => .ite ?_ (.behind .isVarDef fun _ => .ite ?_
    (.never failAt_ne_ok))
  · exact (resource_adds harvested found).bind fun _ => .whole rfl
  · exact .behind (varDef_eager (StmtParts.within_areEager room)).orderly fun _ =>
      .whole (List.append_nil found)

theorem action_adds : Adds brings (action room) CallableDef.bodies :=
  fun found => .behind .peek fun _ => .behind (attachments_orderly room) fun _ =>
    .behind (fun _ => Run.eat fun _ => trivial) fun _ =>
      .behind (fun _ => Run.expect fun _ => trivial) fun _ =>
        .behind (signature_orderly room) fun _ =>
          (callableEnd_adds (harvested.body .callable) found).bind fun _ =>
            .behind (.spanFrom _) fun _ => .whole rfl

theorem connectorMember_adds :
    Adds brings (connectorMember room) (memberBodies CallableDef.bodies) := by
  refine fun found => .behind .current fun _ => .ite ?_ (.behind .isVarDef fun _ => .ite ?_
    (.never failAt_ne_ok))
  · exact (action_adds harvested found).bind fun _ => .whole rfl
  · exact .behind (varDef_eager (StmtParts.within_areEager room)).orderly fun _ =>
      .whole (List.append_nil found)

variable {header : Header}

theorem service_adds :
    Adds brings (service room header) fun definition => (Definition.service definition).allBodies :=
  fun found => .behind (fun _ => Run.expect fun _ => trivial) fun _ => .behind (.symbol _) fun _ =>
    .behind .expectIdentifier fun _ => .behind (.symbol _) fun _ =>
      .behind .expectIdentifier fun _ => .behind (.symbol _) fun _ =>
        (members_adds (serviceMember_eager room) (serviceMember_adds harvested) found).bind
          fun members => .behind (.spanFrom _) fun _ =>
            .whole (congrArg (found ++ ·) (flatMap_memberBodies ResourceDef.bodies members))

theorem function_adds : Adds brings (function room header) CallableDef.bodies :=
  fun found => .behind (fun _ => Run.eat fun _ => trivial) fun _ =>
    .behind (fun _ => Run.expect fun _ => trivial) fun _ =>
      .behind (signature_orderly room) fun _ =>
        (callableEnd_adds (harvested.body .callable) found).bind fun _ =>
          .behind (.spanFrom _) fun _ => .whole rfl

theorem connector_adds :
    Adds brings (connector room header) fun definition =>
      (Definition.connector definition).allBodies :=
  fun found => .behind (fun _ => Run.expect fun _ => trivial) fun _ =>
    .behind .expectIdentifier fun _ => .behind (params_orderly room) fun _ =>
      .behind (.symbol _) fun _ =>
        (members_adds (connectorMember_eager room) (connectorMember_adds harvested) found).bind
          fun members => .behind (.spanFrom _) fun _ =>
            .whole (congrArg (found ++ ·) (flatMap_memberBodies CallableDef.bodies members))

theorem typeMapper_adds :
    Adds brings (typeMapper room header) TypeMapperDef.bodies :=
  fun found => .behind (fun _ => Run.eat fun _ => trivial) fun _ =>
    .behind (fun _ => Run.expect fun _ => trivial) fun _ => .behind .expectIdentifier fun _ =>
      .behind (.symbol _) fun _ => .behind (param_orderly room) fun _ => .behind (.symbol _)
        fun _ => .behind (.symbol _) fun _ => .behind (typeName_eager room).orderly fun _ =>
          .behind (.symbol _) fun _ => (callableEnd_adds (block_adds harvested) found).bind
            fun _ => .behind (.spanFrom _) fun _ => .whole rfl

theorem headedDefinition_adds :
    Adds brings (headedDefinition room header) Definition.allBodies := by
  intro found
  have functions : Harvests brings found (do return Definition.function (← function room header))
      fun definition => found ++ definition.allBodies :=
    (function_adds harvested found).bind fun _ => .whole rfl
  have typeMappers : Harvests brings found
      (do return Definition.typeMapper (← typeMapper room header))
      fun definition => found ++ definition.allBodies :=
    (typeMapper_adds harvested found).bind fun _ => .whole rfl
  have natives : Harvests brings found (nativeDefinition room header)
      fun definition => found ++ definition.allBodies := by
    refine .behind (.kindNth _) fun kind => ?_
    split
    · exact functions
    · exact typeMappers
    · exact .behind .cursor fun _ => .never fail_ne_ok
  have misplaced : Harvests brings found misplacedDirective
      fun definition => found ++ definition.allBodies :=
    .behind .peek fun _ => .never fail_ne_ok
  have bare {definition : Definition} (none : definition.allBodies = []) :
      found ++ definition.allBodies = found := by rw [none, List.append_nil]
  refine .behind .current fun kind => ?_
  split
  · exact (service_adds harvested found).bind fun _ => .whole rfl
  · exact functions
  · exact natives
  · exact (connector_adds harvested found).bind fun _ => .whole rfl
  · exact .behind (fun _ => (struct_eagerAt room header trivial).run) fun _ => .whole (bare rfl)
  · exact typeMappers
  · exact .behind (fun _ => (constant_eagerAt room header trivial).run) fun _ => .whole (bare rfl)
  · exact .behind (fun _ => (annotationDef_eagerAt room header trivial).run) fun _ =>
      .whole (bare rfl)
  · exact misplaced
  · exact misplaced
  · exact misplaced
  · exact .behind .isVarDef fun _ => .ite
      (.behind (globalVar_eager room header).orderly fun _ => .whole (bare rfl))
      (.never failAt_ne_ok)

end Room

omit [Harvest brings] in
/-- If the rule for bodies adds a body to those of its parts, the rules at any level do. -/
theorem StmtParts.within_areHarvested
    (bodies : ∀ room kind, (StmtParts.within room).AreHarvested brings →
      Adds brings (bodyWith (StmtParts.within room) kind) CallableBody.bodies) (room : Nat) :
    (StmtParts.within room).AreHarvested brings := by
  induction room with
  | zero =>
      exact ⟨StmtParts.within_areEager 0, fun _ _ => .never tooDeep_ne_ok,
        fun _ _ _ _ _ ran => absurd ran tooDeep_ne_ok⟩
  | succ room ih =>
      exact ⟨StmtParts.within_areEager _, fun kind => bodies room kind ih,
        fun _ other => workers_of_bodyWith other⟩

/-- If the rule for bodies adds a body to those of its parts, a source brings in all of its
bodies. -/
theorem sourceUnit_adds
    (bodies : ∀ room kind, (StmtParts.within room).AreHarvested brings →
      Adds brings (bodyWith (StmtParts.within room) kind) CallableBody.bodies) (room : Nat) :
    Adds brings (sourceUnit room) SourceUnit.bodies := by
  intro found
  have one : Adds brings (definition room) Definition.allBodies := fun found =>
    .behind .peek fun _ => .behind (attachments_orderly room) fun _ =>
      headedDefinition_adds (StmtParts.within_areHarvested bodies room) found
  have all : Harvests brings _ (Step.loop (nextDefinition room) []) _ :=
    .loop (fun items => found ++ items.flatMap Definition.allBodies) ?_ []
  · rw [List.flatMap_nil, List.append_nil] at all
    exact .behind .peek fun _ => .behind packageHeader_orderly fun _ =>
      .behind directives_orderly fun _ => all.bind fun _ => .behind .peek fun _ => .whole rfl
  · intro items
    refine .behind (.check _) fun _ => .ite (.whole rfl) (.bind
      (.orSkip (definition_eager room).orderly (one _) fun span => ?_) fun item => .whole ?_)
    · rw [Definition.allBodies, List.append_nil]
    · simp [ForInStep.value]

end ServiceLang.Grammar
