import ServiceLang.Grammar.Definition
import ServiceLang.Proofs.AbreastExpr

set_option autoImplicit false

/-! Nodes made of parts that agree. Two statements, bodies or definitions agree if they are
of one form and their parts do; comments among the statements of a body count only where they
are kept. -/

namespace ServiceLang.Grammar

instance : Matchable BodyItems where
  agree view left right :=
    Stmt.allSifted view.sieve (left.statements.map (Stmt.placedBy view.shown)) =
        Stmt.allSifted view.sieve (right.statements.map (Stmt.placedBy view.shown)) ∧
      view.Agree left.workers right.workers
  agree_self view spans _ := ⟨rfl, Matchable.agree_self view spans _⟩

instance : Matchable Handlers where
  agree view left right :=
    view.Agree left.aborted right.aborted ∧ view.Agree left.committed right.committed
  agree_self view spans _ := ⟨Matchable.agree_self view spans _, Matchable.agree_self view spans _⟩

instance : Matchable Header where
  agree view left right :=
    view.Agree left.attachments right.attachments ∧ view.Spans left.start right.start
  agree_self view spans _ := ⟨Matchable.agree_self view spans _, spans _⟩

variable {view : View}

section Nodes

variable {span otherSpan : Span} (spans : view.Spans span otherSpan)
variable {name otherName : Identifier} (names : view.Agree name otherName)
variable {type otherType : TypeName} (types : view.Agree type otherType)
variable {first second : Expr} (exprs : view.Agree first second)
variable {list others : List Expr} (lists : view.Agree list others)
variable {block otherBlock : Block} (blocks : view.Agree block otherBlock)
variable {body otherBody : CallableBody} (bodies : view.Agree body otherBody)

include spans

/-! ### Statements -/

include names types in
theorem varDef_agree {init other : Option Expr} (inits : view.Agree init other) :
    view.Agree (VarDef.mk type name init span) (VarDef.mk otherType otherName other otherSpan) :=
  ⟨by simp only [VarDef.placedBy, types.same, names.same, View.map_eq_of_rel inits,
    view.shown_eq spans], spans⟩

include exprs in
theorem assign_agree {targets others : List Reference} (declares : Bool)
    (references : view.Agree targets others) :
    view.Agree (Stmt.assign declares targets first span)
      (Stmt.assign declares others second otherSpan) :=
  ⟨by simp only [Stmt.placedBy, View.map_eq_of_forall₂ references, exprs.same,
    view.shown_eq spans], spans⟩

include lists in
theorem send_agree {target other : SendTarget} (targets : view.Agree target other) :
    view.Agree (Stmt.send list target span) (Stmt.send others other otherSpan) := by
  change SendTarget.placedBy _ _ = SendTarget.placedBy _ _ at targets
  exact ⟨by simp only [Stmt.placedBy, View.map_eq_of_forall₂ lists, targets,
    view.shown_eq spans], spans⟩

include lists names in
theorem receive_agree :
    view.Agree (Stmt.receive list name span) (Stmt.receive others otherName otherSpan) :=
  ⟨by simp only [Stmt.placedBy, View.map_eq_of_forall₂ lists, names.same,
    view.shown_eq spans], spans⟩

include exprs blocks in
theorem elseIf_agree :
    view.Agree (ElseIf.mk first block span) (ElseIf.mk second otherBlock otherSpan) :=
  ⟨by simp only [ElseIf.placedBy, ElseIf.sifted, exprs.same, blocks.same,
    view.shown_eq spans], spans⟩

include exprs blocks in
theorem ifElse_agree {branches otherBranches : List ElseIf} {last otherLast : Option Block}
    (more : view.Agree branches otherBranches) (lasts : view.Agree last otherLast) :
    view.Agree (Stmt.ifElse first block branches last span)
      (Stmt.ifElse second otherBlock otherBranches otherLast otherSpan) := by
  have sameBranches := View.map_eq_of_forall₂ more
  have sameLast := View.map_eq_of_rel lasts
  exact ⟨by simp only [Stmt.placedBy, Stmt.sifted, exprs.same, blocks.same,
    ElseIf.allPlacedBy_eq_map, ElseIf.allSifted_eq_map, Block.placedByIfAny_eq_map,
    Block.siftedIfAny_eq_map, List.map_map, Option.map_map, Function.comp_def, sameBranches,
    sameLast, view.shown_eq spans], spans⟩

include types names exprs blocks in
theorem iterate_agree :
    view.Agree (Stmt.iterate type name first block span)
      (Stmt.iterate otherType otherName second otherBlock otherSpan) :=
  ⟨by simp only [Stmt.placedBy, Stmt.sifted, types.same, names.same, exprs.same, blocks.same,
    view.shown_eq spans], spans⟩

include exprs blocks in
theorem whileLoop_agree :
    view.Agree (Stmt.whileLoop first block span)
      (Stmt.whileLoop second otherBlock otherSpan) :=
  ⟨by simp only [Stmt.placedBy, Stmt.sifted, exprs.same, blocks.same, view.shown_eq spans],
    spans⟩

include lists in
theorem returns_agree :
    view.Agree (Stmt.returns list span) (Stmt.returns others otherSpan) :=
  ⟨by simp only [Stmt.placedBy, View.map_eq_of_forall₂ lists, view.shown_eq spans], spans⟩

include exprs in
theorem throw_agree : view.Agree (Stmt.throw first span) (Stmt.throw second otherSpan) :=
  ⟨by simp only [Stmt.placedBy, exprs.same, view.shown_eq spans], spans⟩

include exprs in
theorem reply_agree : view.Agree (Stmt.reply first span) (Stmt.reply second otherSpan) :=
  ⟨by simp only [Stmt.placedBy, exprs.same, view.shown_eq spans], spans⟩

theorem continueLoop_agree :
    view.Agree (Stmt.continueLoop span) (Stmt.continueLoop otherSpan) :=
  ⟨congrArg Stmt.continueLoop (view.shown_eq spans), spans⟩

theorem breakLoop_agree : view.Agree (Stmt.breakLoop span) (Stmt.breakLoop otherSpan) :=
  ⟨congrArg Stmt.breakLoop (view.shown_eq spans), spans⟩

theorem abort_agree : view.Agree (Stmt.abort span) (Stmt.abort otherSpan) :=
  ⟨congrArg Stmt.abort (view.shown_eq spans), spans⟩

theorem broken_agree : view.Agree (Stmt.broken span) (Stmt.broken otherSpan) :=
  ⟨congrArg Stmt.broken (view.shown_eq spans), spans⟩

include lists names in
theorem invoke_agree {connector other : NameReference}
    (connectors : view.Agree connector other) :
    view.Agree (Stmt.invoke connector name list span)
      (Stmt.invoke other otherName others otherSpan) :=
  ⟨by simp only [Stmt.placedBy, connectors.same, names.same, View.map_eq_of_forall₂ lists,
    view.shown_eq spans], spans⟩

/-! ### Workers, forks and clauses -/

include names bodies in
theorem worker_agree :
    view.Agree (Worker.mk name body span) (Worker.mk otherName otherBody otherSpan) :=
  ⟨by simp only [Worker.placedBy, Worker.sifted, names.same, bodies.same,
    view.shown_eq spans], spans⟩

include types names blocks in
theorem join_agree {condition other : Option JoinCondition}
    (conditions : view.Agree condition other) :
    view.Agree (Join.mk condition type name block span)
      (Join.mk other otherType otherName otherBlock otherSpan) :=
  ⟨by simp only [Join.placedBy, Join.sifted, View.map_eq_of_rel conditions, types.same,
    names.same, blocks.same, view.shown_eq spans], spans⟩

include exprs types names blocks in
theorem timeout_agree :
    view.Agree (Timeout.mk first type name block span)
      (Timeout.mk second otherType otherName otherBlock otherSpan) :=
  ⟨by simp only [Timeout.placedBy, Timeout.sifted, exprs.same, types.same, names.same,
    blocks.same, view.shown_eq spans], spans⟩

theorem forkJoin_agree {workers others : List Worker} {join otherJoin : Option Join}
    {timeout otherTimeout : Option Timeout} (found : view.Agree workers others)
    (joins : view.Agree join otherJoin) (timeouts : view.Agree timeout otherTimeout) :
    view.Agree (Stmt.forkJoin workers join timeout span)
      (Stmt.forkJoin others otherJoin otherTimeout otherSpan) := by
  have sameWorkers := View.map_eq_of_forall₂ found
  have sameJoin := View.map_eq_of_rel joins
  have sameTimeout := View.map_eq_of_rel timeouts
  exact ⟨by simp only [Stmt.placedBy, Stmt.sifted, Worker.allPlacedBy_eq_map,
    Worker.allSifted_eq_map, Join.placedByIfAny_eq_map, Join.siftedIfAny_eq_map,
    Timeout.placedByIfAny_eq_map, Timeout.siftedIfAny_eq_map, List.map_map, Option.map_map,
    Function.comp_def, sameWorkers, sameJoin, sameTimeout, view.shown_eq spans], spans⟩

include types names blocks in
theorem catch_agree :
    view.Agree (Catch.mk type name block span)
      (Catch.mk otherType otherName otherBlock otherSpan) :=
  ⟨by simp only [Catch.placedBy, Catch.sifted, types.same, names.same, blocks.same,
    view.shown_eq spans], spans⟩

include blocks in
theorem tryCatch_agree {catches others : List Catch} {last otherLast : Option Block}
    (clauses : view.Agree catches others) (lasts : view.Agree last otherLast) :
    view.Agree (Stmt.tryCatch block catches last span)
      (Stmt.tryCatch otherBlock others otherLast otherSpan) := by
  have sameClauses := View.map_eq_of_forall₂ clauses
  have sameLast := View.map_eq_of_rel lasts
  exact ⟨by simp only [Stmt.placedBy, Stmt.sifted, blocks.same, Catch.allPlacedBy_eq_map,
    Catch.allSifted_eq_map, Block.placedByIfAny_eq_map, Block.siftedIfAny_eq_map, List.map_map,
    Option.map_map, Function.comp_def, sameClauses, sameLast, view.shown_eq spans], spans⟩

include blocks in
theorem transaction_agree {found other : Handlers} (handlers : view.Agree found other) :
    view.Agree (Stmt.transaction block found.aborted found.committed span)
      (Stmt.transaction otherBlock other.aborted other.committed otherSpan) := by
  have sameAborted := View.map_eq_of_rel handlers.1
  have sameCommitted := View.map_eq_of_rel handlers.2
  exact ⟨by simp only [Stmt.placedBy, Stmt.sifted, blocks.same, Block.placedByIfAny_eq_map,
    Block.siftedIfAny_eq_map, Option.map_map, Function.comp_def, sameAborted, sameCommitted,
    view.shown_eq spans], spans⟩

include blocks in
theorem transform_agree :
    view.Agree (Stmt.transform block span) (Stmt.transform otherBlock otherSpan) :=
  ⟨by simp only [Stmt.placedBy, Stmt.sifted, blocks.same, view.shown_eq spans], spans⟩

include spans in
theorem namespaceDecl_agree {uri : String} {localName other : Option Identifier}
    (localNames : view.Agree localName other) :
    view.Agree (NamespaceDecl.mk uri localName span) (NamespaceDecl.mk uri other otherSpan) :=
  ⟨by simp only [NamespaceDecl.placedBy, View.map_eq_of_rel localNames,
    view.shown_eq spans], spans⟩

end Nodes

theorem varDefStmt_agree {left right : VarDef} (definitions : view.Agree left right) :
    view.Agree (Stmt.varDef left) (Stmt.varDef right) :=
  ⟨by simp only [Stmt.placedBy, definitions.same], definitions.spans⟩

theorem namespaceStmt_agree {left right : NamespaceDecl}
    (declarations : view.Agree left right) :
    view.Agree (Stmt.namespaceDecl left) (Stmt.namespaceDecl right) :=
  ⟨by simp only [Stmt.placedBy, declarations.same], declarations.spans⟩

/-! ### Bodies -/

theorem toBlock_agree {left right : CallableBody} (bodies : view.Agree left right) :
    view.Agree left.toBlock right.toBlock := by
  obtain ⟨statements, workers, close, span⟩ := left
  obtain ⟨others, otherWorkers, otherClose, otherSpan⟩ := right
  obtain ⟨same, spans⟩ := bodies
  simp only [CallableBody.placedBy, CallableBody.sifted, CallableBody.mk.injEq] at same
  refine ⟨?_, spans⟩
  simp only [CallableBody.toBlock, Block.placedBy, Block.sifted, same.1, same.2.2.1, same.2.2.2]

theorem body_agree {items others : BodyItems} (agree : view.Agree items others)
    {close otherClose : TokenMarker} (marks : view.Agree close otherClose)
    {span otherSpan : Span} (spans : view.Spans span otherSpan) :
    view.Agree (CallableBody.mk items.statements items.workers close span)
      (CallableBody.mk others.statements others.workers otherClose otherSpan) := by
  have sameWorkers := View.map_eq_of_forall₂ agree.2
  change TokenMarker.sifted _ _ = TokenMarker.sifted _ _ at marks
  exact ⟨by simp only [CallableBody.placedBy, CallableBody.sifted, Stmt.allPlacedBy_eq_map,
    agree.1, Worker.allPlacedBy_eq_map, Worker.allSifted_eq_map, List.map_map, Function.comp_def,
    sameWorkers, marks, view.shown_eq spans], spans⟩

section Items

variable {items others : BodyItems} (agree : view.Agree items others)

include agree

theorem addStatement_agree {left right : Stmt} (statements : view.Agree left right) :
    view.Agree (items.addStatement left) (others.addStatement right) := by
  refine ⟨?_, agree.2⟩
  simp only [BodyItems.addStatement, List.map_append, List.map_singleton, Stmt.allSifted_append,
    agree.1, Stmt.allSifted_singleton _ statements.same]

theorem addWorker_agree {left right : Worker} (workers : view.Agree left right) :
    view.Agree (items.addWorker left) (others.addWorker right) :=
  ⟨agree.1, List.rel_append agree.2 (.cons workers .nil)⟩

theorem addComments_agree {left right : List Token} (comments : view.Comments left right) :
    view.Agree (items.addComments left) (others.addComments right) := by
  refine ⟨?_, agree.2⟩
  simp only [BodyItems.addComments, List.map_append, Stmt.allSifted_append, agree.1,
    List.map_map]
  congr 1
  by_cases kept : view.sieve.comments = true
  · congr 1
    have same := comments kept
    induction same with
    | nil => rfl
    | cons token _ ih =>
        simp only [List.map_cons, ih fun _ => ‹_›, Function.comp_apply, Stmt.placedBy,
          token.lexeme, view.shown_eq token.spans]
  · have nothing (comments : List Token) : Stmt.allSifted view.sieve (comments.map
        (Stmt.placedBy view.shown ∘ fun token => .comment token.lexeme token.span)) = [] := by
      refine Stmt.allSifted_comments (Bool.eq_false_iff.mpr kept) fun statement member => ?_
      obtain ⟨token, -, rfl⟩ := List.mem_map.mp member
      exact ⟨_, _, rfl⟩
    rw [nothing, nothing]

end Items

theorem handlers_get_agree {found other : Handlers} (agree : view.Agree found other)
    (isAborted : Bool) : view.Agree (found.get isAborted) (other.get isAborted) := by
  cases isAborted
  · exact agree.2
  · exact agree.1

theorem handlers_set_agree {found other : Handlers} (agree : view.Agree found other)
    (isAborted : Bool) {block second : Block} (blocks : view.Agree block second) :
    view.Agree (found.set isAborted block) (other.set isAborted second) := by
  cases isAborted
  · exact ⟨agree.1, .some blocks⟩
  · exact ⟨.some blocks, agree.2⟩

/-! ### Definitions -/

section Definitions

variable {span otherSpan : Span} (spans : view.Spans span otherSpan)
variable {name otherName : Identifier} (names : view.Agree name otherName)
variable {type otherType : TypeName} (types : view.Agree type otherType)
variable {attachments otherAttachments : List Attachment}
  (attached : view.Agree attachments otherAttachments)
variable {params otherParams : List Param} (listed : view.Agree params otherParams)
variable {fields otherFields : List FieldDef} (found : view.Agree fields otherFields)

include spans

include types names in
theorem field_agree {default other : Option Literal} (defaults : view.Agree default other) :
    view.Agree (FieldDef.mk type name default span)
      (FieldDef.mk otherType otherName other otherSpan) :=
  ⟨by simp only [FieldDef.placedBy, types.same, names.same, View.map_eq_of_rel defaults,
    view.shown_eq spans], spans⟩

include attached

include names listed in
theorem resource_agree {body other : CallableBody} (bodies : view.Agree body other) :
    view.Agree (ResourceDef.mk attachments name params body span)
      (ResourceDef.mk otherAttachments otherName otherParams other otherSpan) :=
  ⟨by simp only [ResourceDef.placedBy, ResourceDef.sifted, View.map_eq_of_forall₂ attached,
    names.same, View.map_eq_of_forall₂ listed, bodies.same, view.shown_eq spans], spans⟩

theorem callable_agree {signature other : Signature} {body otherBody : Option CallableBody}
    (native : Bool) (signatures : view.Agree signature other)
    (bodies : view.Agree body otherBody) :
    view.Agree (CallableDef.mk attachments native signature body span)
      (CallableDef.mk otherAttachments native other otherBody otherSpan) := by
  have sameBody := View.map_eq_of_rel bodies
  exact ⟨by simp only [CallableDef.placedBy, CallableDef.sifted,
    View.map_eq_of_forall₂ attached, signatures.same, Option.map_map, Function.comp_def,
    sameBody, view.shown_eq spans], spans⟩

include names in
theorem service_agree {protocol other : Identifier} {members otherMembers : List VarDef}
    {resources otherResources : List ResourceDef} (protocols : view.Agree protocol other)
    (definitions : view.Agree members otherMembers)
    (callables : view.Agree resources otherResources) :
    view.Agree (ServiceDef.mk attachments protocol name members resources span)
      (ServiceDef.mk otherAttachments other otherName otherMembers otherResources otherSpan) := by
  have sameResources := View.map_eq_of_forall₂ callables
  exact ⟨by simp only [ServiceDef.placedBy, ServiceDef.sifted,
    View.map_eq_of_forall₂ attached, protocols.same, names.same,
    View.map_eq_of_forall₂ definitions, List.map_map, Function.comp_def, sameResources,
    view.shown_eq spans], spans⟩

include names listed in
theorem connector_agree {members otherMembers : List VarDef}
    {actions otherActions : List CallableDef}
    (definitions : view.Agree members otherMembers)
    (callables : view.Agree actions otherActions) :
    view.Agree (ConnectorDef.mk attachments name params members actions span)
      (ConnectorDef.mk otherAttachments otherName otherParams otherMembers otherActions
        otherSpan) := by
  have sameActions := View.map_eq_of_forall₂ callables
  exact ⟨by simp only [ConnectorDef.placedBy, ConnectorDef.sifted,
    View.map_eq_of_forall₂ attached, names.same, View.map_eq_of_forall₂ listed,
    View.map_eq_of_forall₂ definitions, List.map_map, Function.comp_def, sameActions,
    view.shown_eq spans], spans⟩

include names found in
theorem struct_agree :
    view.Agree (StructDef.mk attachments name fields span)
      (StructDef.mk otherAttachments otherName otherFields otherSpan) :=
  ⟨by simp only [StructDef.placedBy, View.map_eq_of_forall₂ attached, names.same,
    View.map_eq_of_forall₂ found, view.shown_eq spans], spans⟩

include names found in
theorem annotationDef_agree {points others : List AttachPoint}
    (places : view.Agree points others) :
    view.Agree (AnnotationDef.mk attachments name points fields span)
      (AnnotationDef.mk otherAttachments otherName others otherFields otherSpan) :=
  ⟨by simp only [AnnotationDef.placedBy, View.map_eq_of_forall₂ attached, names.same,
    View.map_eq_of_forall₂ places, View.map_eq_of_forall₂ found,
    view.shown_eq spans], spans⟩

include names types in
theorem typeMapper_agree {param other : Param} {body otherBody : Option Block} (native : Bool)
    (sources : view.Agree param other) (bodies : view.Agree body otherBody) :
    view.Agree (TypeMapperDef.mk attachments native name param type body span)
      (TypeMapperDef.mk otherAttachments native otherName other otherType otherBody otherSpan) := by
  have sameBody := View.map_eq_of_rel bodies
  exact ⟨by simp only [TypeMapperDef.placedBy, TypeMapperDef.sifted,
    View.map_eq_of_forall₂ attached, names.same, sources.same, types.same, Option.map_map,
    Function.comp_def, sameBody, view.shown_eq spans], spans⟩

include names types in
theorem constant_agree {value other : Expr} (values : view.Agree value other) :
    view.Agree (ConstantDef.mk attachments type name value span)
      (ConstantDef.mk otherAttachments otherType otherName other otherSpan) :=
  ⟨by simp only [ConstantDef.placedBy, View.map_eq_of_forall₂ attached, types.same,
    names.same, values.same, view.shown_eq spans], spans⟩

include names types in
theorem globalVar_agree {init other : Option Expr} (inits : view.Agree init other) :
    view.Agree (GlobalVarDef.mk attachments type name init span)
      (GlobalVarDef.mk otherAttachments otherType otherName other otherSpan) :=
  ⟨by simp only [GlobalVarDef.placedBy, View.map_eq_of_forall₂ attached, types.same,
    names.same, View.map_eq_of_rel inits, view.shown_eq spans], spans⟩

end Definitions

/-! ### Definitions of one sort -/

theorem serviceDefinition_agree {left right : ServiceDef} (definitions : view.Agree left right) :
    view.Agree (Definition.service left) (.service right) :=
  ⟨congrArg Definition.service definitions.same, definitions.spans⟩

theorem functionDefinition_agree {left right : CallableDef}
    (definitions : view.Agree left right) :
    view.Agree (Definition.function left) (.function right) :=
  ⟨congrArg Definition.function definitions.same, definitions.spans⟩

theorem connectorDefinition_agree {left right : ConnectorDef}
    (definitions : view.Agree left right) :
    view.Agree (Definition.connector left) (.connector right) :=
  ⟨congrArg Definition.connector definitions.same, definitions.spans⟩

theorem structDefinition_agree {left right : StructDef} (definitions : view.Agree left right) :
    view.Agree (Definition.struct left) (.struct right) :=
  ⟨congrArg Definition.struct definitions.same, definitions.spans⟩

theorem typeMapperDefinition_agree {left right : TypeMapperDef}
    (definitions : view.Agree left right) :
    view.Agree (Definition.typeMapper left) (.typeMapper right) :=
  ⟨congrArg Definition.typeMapper definitions.same, definitions.spans⟩

theorem constantDefinition_agree {left right : ConstantDef}
    (definitions : view.Agree left right) :
    view.Agree (Definition.constant left) (.constant right) :=
  ⟨congrArg Definition.constant definitions.same, definitions.spans⟩

theorem annotationDefinition_agree {left right : AnnotationDef}
    (definitions : view.Agree left right) :
    view.Agree (Definition.annotationDef left) (.annotationDef right) :=
  ⟨congrArg Definition.annotationDef definitions.same, definitions.spans⟩

theorem globalVarDefinition_agree {left right : GlobalVarDef}
    (definitions : view.Agree left right) :
    view.Agree (Definition.globalVar left) (.globalVar right) :=
  ⟨congrArg Definition.globalVar definitions.same, definitions.spans⟩

section Units

variable {span otherSpan : Span} (spans : view.Spans span otherSpan)

include spans

theorem brokenDefinition_agree :
    view.Agree (Definition.broken span) (Definition.broken otherSpan) :=
  ⟨congrArg Definition.broken (view.shown_eq spans), spans⟩

theorem unit_agree {package other : Option PackageDecl} {directives others : List Directive}
    {items definitions : List Definition} (packages : view.Agree package other)
    (declared : view.Agree directives others) (found : view.Agree items definitions) :
    view.Agree (SourceUnit.mk package directives items span)
      (SourceUnit.mk other others definitions otherSpan) := by
  have sameItems := View.map_eq_of_forall₂ found
  exact ⟨by simp only [SourceUnit.placedBy, SourceUnit.sifted, View.map_eq_of_rel packages,
    View.map_eq_of_forall₂ declared, List.map_map, Function.comp_def, sameItems,
    view.shown_eq spans], spans⟩

end Units

end ServiceLang.Grammar
