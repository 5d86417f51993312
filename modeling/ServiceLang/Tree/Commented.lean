import ServiceLang.Tree.Bodies
import ServiceLang.Tree.Nesting

set_option autoImplicit false

/-! Comments are nodes of a tree only as statements of its bodies: the comments that are found
among all of its nodes are those of the bodies, each as often. -/

namespace ServiceLang

namespace Outline

def remark? : Outline → Option Remark
  | .node _ kind span [.text text] _ => if kind = "Comment" then some (text, span) else none
  | _ => none

def remarks (outline : Outline) : List Remark :=
  outline.nodes.filterMap remark?

def remarksIn (outlines : List Outline) : List Remark :=
  outlines.flatMap remarks

@[simp]
theorem remarksIn_nil : remarksIn [] = [] :=
  rfl

@[simp]
theorem remarksIn_cons (outline : Outline) (rest : List Outline) :
    remarksIn (outline :: rest) = outline.remarks ++ remarksIn rest :=
  List.flatMap_cons

@[simp]
theorem remarksIn_append (front behind : List Outline) :
    remarksIn (front ++ behind) = remarksIn front ++ remarksIn behind :=
  List.flatMap_append

theorem filterMap_nodesIn (outlines : List Outline) :
    (nodesIn outlines).filterMap remark? = remarksIn outlines := by
  induction outlines with
  | nil => rfl
  | cons outline rest ih => rw [nodesIn, List.filterMap_append, ih, remarksIn_cons, remarks]

variable {role kind : String} {span : Span} {data : List Datum} {below : List Outline}

@[simp]
theorem remarks_node (other : kind ≠ "Comment") :
    (Outline.node role kind span data below).remarks = remarksIn below := by
  have none : (Outline.node role kind span data below).remark? = none := by
    rw [remark?.eq_def]
    split
    · rename_i same
      cases same
      exact if_neg other
    · rfl
  rw [remarks, nodes, List.filterMap_cons_none none, filterMap_nodesIn]

@[simp]
theorem remarks_leaf (other : kind ≠ "Comment") : (leaf role kind span data).remarks = [] :=
  remarks_node other

section Lists

variable {α : Type} {outline : String → α → Outline}
  (silent : ∀ part, (outline role part).remarks = [])

include silent

@[simp]
theorem remarksIn_each (parts : List α) : remarksIn (each outline role parts) = [] := by
  rw [remarksIn, each, List.flatMap_map]
  exact List.flatMap_eq_nil_iff.mpr fun part _ => silent part

@[simp]
theorem remarksIn_optional (part : Option α) : remarksIn (optional outline role part) = [] := by
  cases part with
  | none => rfl
  | some part => simp [optional, silent part]

end Lists

end Outline

variable (role : String)

/-! ### Names, types and expressions -/

@[simp]
theorem Identifier.remarks_outline (identifier : Identifier) :
    (identifier.outline role).remarks = [] := by
  simp [outline]

@[simp]
theorem NameReference.remarks_outline (reference : NameReference) :
    (reference.outline role).remarks = [] := by
  simp [outline]

@[simp]
theorem PackageName.remarks_outline (package : PackageName) :
    (package.outline role).remarks = [] := by
  simp [outline]

@[simp]
theorem TokenMarker.remarks_outline (marker : TokenMarker) :
    (marker.outline role).remarks = [] := by
  simp [outline]

@[simp]
theorem XmlConstraint.remarks_outline (constraint : XmlConstraint) :
    (constraint.outline role).remarks = [] := by
  simp [outline]

@[simp]
theorem SchemaReference.remarks_outline (schema : SchemaReference) :
    (schema.outline role).remarks = [] := by
  simp [outline]

@[simp]
theorem TypeName.remarks_outline (type : TypeName) : (type.outline role).remarks = [] := by
  induction type generalizing role with
  | mapOf constraint span ih => simp [outline, ih]
  | array element span ih => simp [outline, ih]
  | _ => simp [outline]

@[simp]
theorem Literal.remarks_outline (literal : Literal) : (literal.outline role).remarks = [] := by
  obtain ⟨value, negative, span⟩ := literal
  cases value <;> simp [outline]

mutual

@[simp]
theorem Expr.remarks_outline (role : String) : (expr : Expr) → (expr.outline role).remarks = []
  | .literal _ | .template _ _ | .typeMember _ _ _ => by simp [Expr.outline]
  | .array elements _ => by simp [Expr.outline, Expr.remarks_outlines "element" elements]
  | .mapping entries _ => by simp [Expr.outline, MapEntry.remarks_outlines "entry" entries]
  | .reference target => by rw [Expr.outline, Reference.remarks_outline role target]
  | .call _ arguments _ | .invoke _ _ arguments _ | .create _ arguments _ => by
      simp [Expr.outline, Expr.remarks_outlines "arg" arguments]
  | .cast _ operand _ | .convert _ operand _ | .unary _ operand _ => by
      simp [Expr.outline, Expr.remarks_outline "operand" operand]
  | .paren inner _ => by simp [Expr.outline, Expr.remarks_outline "expr" inner]
  | .binary _ left right _ => by
      simp [Expr.outline, Expr.remarks_outline "left" left, Expr.remarks_outline "right" right]

theorem Expr.remarks_outlines (role : String) : (exprs : List Expr) →
    Outline.remarksIn (Expr.outlines role exprs) = []
  | [] => rfl
  | expr :: rest => by
      rw [Expr.outlines, Outline.remarksIn_cons, Expr.remarks_outline role expr,
        Expr.remarks_outlines role rest, List.append_nil]

theorem MapEntry.remarks_outline (role : String) : (entry : MapEntry) →
    (entry.outline role).remarks = []
  | ⟨key, value, _⟩ => by
      simp [MapEntry.outline, Expr.remarks_outline "key" key, Expr.remarks_outline "value" value]

theorem MapEntry.remarks_outlines (role : String) : (entries : List MapEntry) →
    Outline.remarksIn (MapEntry.outlines role entries) = []
  | [] => rfl
  | entry :: rest => by
      rw [MapEntry.outlines, Outline.remarksIn_cons, MapEntry.remarks_outline role entry,
        MapEntry.remarks_outlines role rest, List.append_nil]

@[simp]
theorem Reference.remarks_outline (role : String) : (target : Reference) →
    (target.outline role).remarks = []
  | .name _ => by simp [Reference.outline]
  | .index base position _ => by
      simp [Reference.outline, Reference.remarks_outline "base" base,
        Expr.remarks_outline "index" position]
  | .field base _ _ | .attributes base _ | .attributeNamed base _ _ => by
      simp [Reference.outline, Reference.remarks_outline "base" base]
  | .attributeAt base selector _ => by
      simp [Reference.outline, Reference.remarks_outline "base" base,
        Expr.remarks_outline "selector" selector]

end

@[simp]
theorem VarDef.remarks_outline (definition : VarDef) : (definition.outline role).remarks = [] := by
  simp [outline]

@[simp]
theorem NamespaceDecl.remarks_outline (declaration : NamespaceDecl) :
    (declaration.outline role).remarks = [] := by
  simp [outline]

@[simp]
theorem JoinCondition.remarks_outline (condition : JoinCondition) :
    (condition.outline role).remarks = [] := by
  cases condition <;> simp [outline]

@[simp]
theorem SendTarget.remarks_outline (target : SendTarget) : (target.outline role).remarks = [] := by
  cases target <;> simp [outline]

/-! ### Statements and bodies -/

section Bodies

variable (remark : Remark)

/-- A statement that is no comment and holds no bodies holds no comments. -/
theorem Stmt.count_remarks_of_silent {statement : Stmt} {role : String}
    (silent : (statement.outline role).remarks = []) (bare : statement.bodies = [])
    (unremarked : statement.remark? = none) :
    (statement.outline role).remarks.count remark =
      statement.remark?.toList.count remark + (remarksOf statement.bodies).count remark := by
  rw [silent, bare, unremarked]
  rfl

mutual

theorem Stmt.count_remarks (role : String) : (statement : Stmt) →
    (statement.outline role).remarks.count remark =
      statement.remark?.toList.count remark + (remarksOf statement.bodies).count remark
  | .varDef _ | .assign .. | .continueLoop _ | .breakLoop _ | .throw .. | .returns .. | .reply ..
  | .send .. | .receive .. | .invoke .. | .call .. | .abort _ | .namespaceDecl _ | .broken _ =>
      Stmt.count_remarks_of_silent remark (by simp [Stmt.outline]) rfl rfl
  | .comment text span => rfl
  | .ifElse _ thenBlock elseIfs elseBlock _ => by
      simp [Stmt.outline, Stmt.remark?, Block.count_remarks "then" thenBlock,
        ElseIf.count_remarksIn "else_if" elseIfs, Block.count_remarksIn "else" elseBlock]
  | .iterate _ _ _ body _ | .whileLoop _ body _ | .transform body _ => by
      simp [Stmt.outline, Stmt.remark?, Block.count_remarks "body" body]
  | .forkJoin workers join timeout _ => by
      simp [Stmt.outline, Stmt.remark?, Worker.count_remarksIn "worker" workers,
        Join.count_remarksIn "join" join, Timeout.count_remarksIn "timeout" timeout]
  | .tryCatch body catches finallyBlock _ => by
      simp [Stmt.outline, Stmt.remark?, Block.count_remarks "body" body,
        Catch.count_remarksIn "catch" catches, Block.count_remarksIn "finally" finallyBlock]
  | .transaction body aborted committed _ => by
      simp [Stmt.outline, Stmt.remark?, Block.count_remarks "body" body,
        Block.count_remarksIn "aborted" aborted, Block.count_remarksIn "committed" committed]

theorem Stmt.count_remarksIn (role : String) : (statements : List Stmt) →
    (Outline.remarksIn (Stmt.outlines role statements)).count remark =
      (statements.filterMap Stmt.remark?).count remark +
        (remarksOf (statements.flatMap Stmt.bodies)).count remark
  | [] => rfl
  | statement :: rest => by
      rw [Stmt.outlines, Outline.remarksIn_cons, List.count_append,
        Stmt.count_remarks role statement, Stmt.count_remarksIn role rest, List.flatMap_cons,
        remarksOf_append, List.count_append]
      cases said : statement.remark? with
      | none => simp [said, Nat.add_left_comm]
      | some found => simp [said, List.count_cons]; omega

theorem Block.count_remarks (role : String) : (block : Block) →
    (block.outline role).remarks.count remark = (remarksOf block.bodies).count remark
  | ⟨statements, close, span⟩ => by
      simp [Block.outline, Block.bodies_eq, Block.toBody, CallableBody.remarks,
        Stmt.count_remarksIn "stmt" statements]

theorem Block.count_remarksIn (role : String) : (block : Option Block) →
    (Outline.remarksIn (Block.outlines role block)).count remark =
      (remarksOf (bodiesIfAny Block.bodies block)).count remark
  | some block => by
      rw [Block.outlines, Outline.remarksIn_cons, Outline.remarksIn_nil, List.append_nil,
        Block.count_remarks role block]
      rfl
  | none => rfl

theorem CallableBody.count_remarks (role : String) : (body : CallableBody) →
    (body.outline role).remarks.count remark = (remarksOf body.bodies).count remark
  | ⟨statements, workers, close, span⟩ => by
      simp [CallableBody.outline, CallableBody.bodies_eq, CallableBody.remarks,
        Stmt.count_remarksIn "stmt" statements, Worker.count_remarksIn "worker" workers, remarksOf,
        Nat.add_assoc]

theorem Worker.count_remarksIn (role : String) : (workers : List Worker) →
    (Outline.remarksIn (Worker.outlines role workers)).count remark =
      (remarksOf (workers.flatMap Worker.bodies)).count remark
  | [] => rfl
  | ⟨name, body, span⟩ :: rest => by
      simp [Worker.outlines, Worker.outline, Worker.bodies, CallableBody.count_remarks "body" body,
        Worker.count_remarksIn role rest]

theorem ElseIf.count_remarksIn (role : String) : (branches : List ElseIf) →
    (Outline.remarksIn (ElseIf.outlines role branches)).count remark =
      (remarksOf (branches.flatMap ElseIf.bodies)).count remark
  | [] => rfl
  | ⟨condition, block, span⟩ :: rest => by
      simp [ElseIf.outlines, ElseIf.outline, ElseIf.bodies, Block.count_remarks "block" block,
        ElseIf.count_remarksIn role rest]

theorem Join.count_remarksIn (role : String) : (join : Option Join) →
    (Outline.remarksIn (Join.outlines role join)).count remark =
      (remarksOf (bodiesIfAny Join.bodies join)).count remark
  | some ⟨condition, type, name, body, span⟩ => by
      simp [Join.outlines, bodiesIfAny, Join.bodies, Block.count_remarks "body" body]
  | none => rfl

theorem Timeout.count_remarksIn (role : String) : (timeout : Option Timeout) →
    (Outline.remarksIn (Timeout.outlines role timeout)).count remark =
      (remarksOf (bodiesIfAny Timeout.bodies timeout)).count remark
  | some ⟨condition, type, name, body, span⟩ => by
      simp [Timeout.outlines, bodiesIfAny, Timeout.bodies, Block.count_remarks "body" body]
  | none => rfl

theorem Catch.count_remarksIn (role : String) : (clauses : List Catch) →
    (Outline.remarksIn (Catch.outlines role clauses)).count remark =
      (remarksOf (clauses.flatMap Catch.bodies)).count remark
  | [] => rfl
  | ⟨type, name, body, span⟩ :: rest => by
      simp [Catch.outlines, Catch.outline, Catch.bodies, Block.count_remarks "body" body,
        Catch.count_remarksIn role rest]

end

end Bodies

/-! ### Definitions -/

mutual

@[simp]
theorem Attachment.remarks_outline (role : String) : (attachment : Attachment) →
    (attachment.outline role).remarks = []
  | ⟨_, attributes, _⟩ => by
      simp [Attachment.outline, Attribute.remarks_outlines "attribute" attributes]

theorem Attribute.remarks_outlines (role : String) : (entries : List Attribute) →
    Outline.remarksIn (Attribute.outlines role entries) = []
  | [] => rfl
  | ⟨_, value, _⟩ :: rest => by
      simp [Attribute.outlines, Attribute.outline, AnnotationValue.remarks_outline "value" value,
        Attribute.remarks_outlines role rest]

theorem AnnotationValue.remarks_outline (role : String) : (value : AnnotationValue) →
    (value.outline role).remarks = []
  | .literal _ => by simp [AnnotationValue.outline]
  | .attachment nested => by
      rw [AnnotationValue.outline, Attachment.remarks_outline role nested]
  | .array elements _ => by
      simp [AnnotationValue.outline, AnnotationValue.remarks_outlines "element" elements]

theorem AnnotationValue.remarks_outlines (role : String) : (values : List AnnotationValue) →
    Outline.remarksIn (AnnotationValue.outlines role values) = []
  | [] => rfl
  | value :: rest => by
      simp [AnnotationValue.outlines, AnnotationValue.remarks_outline role value,
        AnnotationValue.remarks_outlines role rest]

end

@[simp]
theorem Param.remarks_outline (param : Param) : (param.outline role).remarks = [] := by
  simp [outline]

@[simp]
theorem Returns.remarks_outlines (returns : Returns) :
    Outline.remarksIn returns.outlines = [] := by
  cases returns <;> simp [outlines]

@[simp]
theorem Signature.remarks_outline (signature : Signature) :
    (signature.outline role).remarks = [] := by
  cases found : signature.returns <;> simp [outline, found]

@[simp]
theorem FieldDef.remarks_outline (definition : FieldDef) :
    (definition.outline role).remarks = [] := by
  simp [outline]

@[simp]
theorem AttachPoint.remarks_outline (point : AttachPoint) : (point.outline role).remarks = [] := by
  simp [outline]

@[simp]
theorem Directive.remarks_outline (directive : Directive) :
    (directive.outline role).remarks = [] := by
  cases directive <;> simp [outline, ImportDecl.outline]

@[simp]
theorem PackageDecl.remarks_outline (declaration : PackageDecl) :
    (declaration.outline role).remarks = [] := by
  simp [outline]

section Callables

variable (remark : Remark)

/-- The comments of parts are those of the bodies of each. -/
theorem Outline.count_remarksIn_each {α : Type} {outline : String → α → Outline}
    {bodies : α → List CallableBody}
    (same : ∀ part, (outline role part).remarks.count remark =
      (remarksOf (bodies part)).count remark) (parts : List α) :
    (remarksIn (each outline role parts)).count remark =
      (remarksOf (parts.flatMap bodies)).count remark := by
  induction parts with
  | nil => rfl
  | cons part rest ih =>
      rw [each, List.map_cons, remarksIn_cons, List.count_append, same, List.flatMap_cons,
        remarksOf_append, List.count_append, ← ih]
      rfl

theorem Outline.count_remarksIn_optional {α : Type} {outline : String → α → Outline}
    {bodies : α → List CallableBody}
    (same : ∀ part, (outline role part).remarks.count remark =
      (remarksOf (bodies part)).count remark) (part : Option α) :
    (remarksIn (optional outline role part)).count remark =
      (remarksOf (bodiesIfAny bodies part)).count remark := by
  cases part with
  | none => rfl
  | some part =>
      rw [optional, remarksIn_cons, remarksIn_nil, List.append_nil]
      exact same part

theorem ResourceDef.count_remarks (definition : ResourceDef) :
    (definition.outline role).remarks.count remark =
      (remarksOf definition.bodies).count remark := by
  simp [outline, bodies, CallableBody.count_remarks]

theorem CallableDef.count_remarks {kind : String} (other : kind ≠ "Comment")
    (definition : CallableDef) : (definition.outline kind role).remarks.count remark =
      (remarksOf definition.bodies).count remark := by
  simp [outline, other, bodies,
    Outline.count_remarksIn_optional _ _ (CallableBody.count_remarks remark "body")]

theorem TypeMapperDef.count_remarks (definition : TypeMapperDef) :
    (definition.outline role).remarks.count remark =
      (remarksOf definition.bodies).count remark := by
  simp [outline, bodies, Outline.count_remarksIn_optional _ _ (Block.count_remarks remark "body")]

theorem Definition.count_remarks (definition : Definition) :
    (definition.outline role).remarks.count remark =
      (remarksOf definition.allBodies).count remark := by
  cases definition with
  | service definition =>
      simp [outline, ServiceDef.outline, allBodies,
        Outline.count_remarksIn_each _ _ (ResourceDef.count_remarks "resource" remark)]
  | function definition => exact definition.count_remarks role remark (by decide)
  | connector definition =>
      have actions := Outline.count_remarksIn_each "action" remark
        (fun action => action.count_remarks "action" remark (by decide : "Action" ≠ "Comment"))
        definition.actions
      simp [outline, ConnectorDef.outline, allBodies, actions]
  | typeMapper definition => exact definition.count_remarks role remark
  | struct definition => simp [outline, StructDef.outline, allBodies]
  | constant definition => simp [outline, ConstantDef.outline, allBodies]
  | annotationDef definition => simp [outline, AnnotationDef.outline, allBodies]
  | globalVar definition => simp [outline, GlobalVarDef.outline, allBodies]
  | broken span => simp [outline, allBodies]

end Callables

/-- The comments of a source are those of its bodies. -/
theorem SourceUnit.remarks_perm (unit : SourceUnit) :
    (unit.outline role).remarks.Perm (remarksOf unit.bodies) := by
  refine List.perm_iff_count.mpr fun remark => ?_
  simp [outline, bodies, Outline.count_remarksIn_each _ _ (Definition.count_remarks "item" remark)]

end ServiceLang
