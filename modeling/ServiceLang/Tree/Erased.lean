import ServiceLang.Tree.Definition

set_option autoImplicit false

/-! Trees without their places: every span is set to nowhere, and the comments
among statements are left out. Two trees say the same if nothing else tells them
apart. -/

namespace ServiceLang

/-! ### Names and types -/

def Identifier.erased (identifier : Identifier) : Identifier :=
  ⟨identifier.name, .nowhere⟩

def NameReference.erased (reference : NameReference) : NameReference :=
  ⟨reference.package.map Identifier.erased, reference.name.erased⟩

def PackageName.erased (package : PackageName) : PackageName :=
  ⟨package.segments.map Identifier.erased, .nowhere⟩

def TokenMarker.erased (marker : TokenMarker) : TokenMarker :=
  ⟨.nowhere, marker.synthetic⟩

def XmlConstraint.erased (constraint : XmlConstraint) : XmlConstraint :=
  ⟨constraint.uri, constraint.element.erased, .nowhere⟩

def SchemaReference.erased (schema : SchemaReference) : SchemaReference :=
  ⟨schema.location, .nowhere⟩

@[simp]
def TypeName.erased : TypeName → TypeName
  | .any _ => .any .nowhere
  | .value type _ => .value type .nowhere
  | .message _ => .message .nowhere
  | .datatable _ => .datatable .nowhere
  | .map _ => .map .nowhere
  | .mapOf constraint _ => .mapOf constraint.erased .nowhere
  | .xml constraint _ => .xml (constraint.map XmlConstraint.erased) .nowhere
  | .xmlDocument constraint _ => .xmlDocument (constraint.map XmlConstraint.erased) .nowhere
  | .json schema _ => .json (schema.map SchemaReference.erased) .nowhere
  | .named reference _ => .named reference.erased .nowhere
  | .array element _ => .array element.erased .nowhere

/-! ### Expressions -/

def Literal.erased (literal : Literal) : Literal :=
  ⟨literal.value, literal.negative, .nowhere⟩

mutual

@[simp]
def Expr.erased : Expr → Expr
  | .literal value => .literal value.erased
  | .template text _ => .template text .nowhere
  | .array elements _ => .array (Expr.allErased elements) .nowhere
  | .mapping entries _ => .mapping (MapEntry.allErased entries) .nowhere
  | .reference target => .reference target.erased
  | .call name arguments _ => .call name.erased (Expr.allErased arguments) .nowhere
  | .invoke connector action arguments _ =>
      .invoke connector.erased action.erased (Expr.allErased arguments) .nowhere
  | .create connector arguments _ => .create connector.erased (Expr.allErased arguments) .nowhere
  | .typeMember type member _ => .typeMember type.erased member.erased .nowhere
  | .cast target operand _ => .cast target.erased operand.erased .nowhere
  | .convert target operand _ => .convert target.erased operand.erased .nowhere
  | .unary operator operand _ => .unary operator operand.erased .nowhere
  | .binary operator left right _ => .binary operator left.erased right.erased .nowhere
  | .paren inner _ => .paren inner.erased .nowhere

@[simp]
def Expr.allErased : List Expr → List Expr
  | [] => []
  | expr :: rest => expr.erased :: Expr.allErased rest

@[simp]
def MapEntry.erased : MapEntry → MapEntry
  | ⟨key, value, _⟩ => ⟨key.erased, value.erased, .nowhere⟩

@[simp]
def MapEntry.allErased : List MapEntry → List MapEntry
  | [] => []
  | entry :: rest => entry.erased :: MapEntry.allErased rest

@[simp]
def Reference.erased : Reference → Reference
  | .name reference => .name reference.erased
  | .index base position _ => .index base.erased position.erased .nowhere
  | .field base member _ => .field base.erased member.erased .nowhere
  | .attributes base _ => .attributes base.erased .nowhere
  | .attributeNamed base name _ => .attributeNamed base.erased name.erased .nowhere
  | .attributeAt base selector _ => .attributeAt base.erased selector.erased .nowhere

end

theorem Expr.allErased_eq_map (exprs : List Expr) : Expr.allErased exprs = exprs.map erased := by
  induction exprs with
  | nil => rfl
  | cons expr rest ih => rw [allErased, ih, List.map_cons]

theorem MapEntry.allErased_eq_map (entries : List MapEntry) :
    MapEntry.allErased entries = entries.map erased := by
  induction entries with
  | nil => rfl
  | cons entry rest ih => rw [allErased, ih, List.map_cons]

/-! ### Statements -/

def VarDef.erased (definition : VarDef) : VarDef :=
  ⟨definition.type.erased, definition.name.erased, definition.init.map Expr.erased, .nowhere⟩

def NamespaceDecl.erased (declaration : NamespaceDecl) : NamespaceDecl :=
  ⟨declaration.uri, declaration.localName.map Identifier.erased, .nowhere⟩

def JoinCondition.erased : JoinCondition → JoinCondition
  | .first count workers _ => .first count (workers.map Identifier.erased) .nowhere
  | .every workers _ => .every (workers.map Identifier.erased) .nowhere

def SendTarget.erased : SendTarget → SendTarget
  | .worker receiver => .worker receiver.erased
  | .fork _ => .fork .nowhere

mutual

@[simp]
def Stmt.erased : Stmt → Stmt
  | .varDef definition => .varDef definition.erased
  | .assign declares targets value _ =>
      .assign declares (targets.map Reference.erased) value.erased .nowhere
  | .ifElse condition thenBlock elseIfs elseBlock _ =>
      .ifElse condition.erased thenBlock.erased (ElseIf.allErased elseIfs)
        (Block.erasedIfAny elseBlock) .nowhere
  | .iterate type name collection body _ =>
      .iterate type.erased name.erased collection.erased body.erased .nowhere
  | .whileLoop condition body _ => .whileLoop condition.erased body.erased .nowhere
  | .continueLoop _ => .continueLoop .nowhere
  | .breakLoop _ => .breakLoop .nowhere
  | .forkJoin workers join timeout _ =>
      .forkJoin (Worker.allErased workers) (Join.erasedIfAny join) (Timeout.erasedIfAny timeout)
        .nowhere
  | .tryCatch body catches finallyBlock _ =>
      .tryCatch body.erased (Catch.allErased catches) (Block.erasedIfAny finallyBlock) .nowhere
  | .throw value _ => .throw value.erased .nowhere
  | .returns values _ => .returns (values.map Expr.erased) .nowhere
  | .reply value _ => .reply value.erased .nowhere
  | .send values target _ => .send (values.map Expr.erased) target.erased .nowhere
  | .receive targets worker _ => .receive (targets.map Expr.erased) worker.erased .nowhere
  | .comment text _ => .comment text .nowhere
  | .invoke connector action arguments _ =>
      .invoke connector.erased action.erased (arguments.map Expr.erased) .nowhere
  | .call name arguments _ => .call name.erased (arguments.map Expr.erased) .nowhere
  | .transform body _ => .transform body.erased .nowhere
  | .transaction body aborted committed _ =>
      .transaction body.erased (Block.erasedIfAny aborted) (Block.erasedIfAny committed) .nowhere
  | .abort _ => .abort .nowhere
  | .namespaceDecl declaration => .namespaceDecl declaration.erased
  | .broken _ => .broken .nowhere

@[simp]
def Stmt.allErased : List Stmt → List Stmt
  | [] => []
  | .comment _ _ :: rest => Stmt.allErased rest
  | statement :: rest => statement.erased :: Stmt.allErased rest

@[simp]
def Block.erased : Block → Block
  | ⟨statements, close, _⟩ => ⟨Stmt.allErased statements, close.erased, .nowhere⟩

@[simp]
def Block.erasedIfAny : Option Block → Option Block
  | some block => some block.erased
  | none => none

@[simp]
def CallableBody.erased : CallableBody → CallableBody
  | ⟨statements, workers, close, _⟩ =>
      ⟨Stmt.allErased statements, Worker.allErased workers, close.erased, .nowhere⟩

@[simp]
def Worker.erased : Worker → Worker
  | ⟨name, body, _⟩ => ⟨name.erased, body.erased, .nowhere⟩

@[simp]
def Worker.allErased : List Worker → List Worker
  | [] => []
  | worker :: rest => worker.erased :: Worker.allErased rest

@[simp]
def ElseIf.allErased : List ElseIf → List ElseIf
  | [] => []
  | ⟨condition, block, _⟩ :: rest =>
      ⟨condition.erased, block.erased, .nowhere⟩ :: ElseIf.allErased rest

@[simp]
def Join.erasedIfAny : Option Join → Option Join
  | some ⟨condition, type, name, body, _⟩ =>
      some ⟨condition.map JoinCondition.erased, type.erased, name.erased, body.erased, .nowhere⟩
  | none => none

@[simp]
def Timeout.erasedIfAny : Option Timeout → Option Timeout
  | some ⟨timeout, type, name, body, _⟩ =>
      some ⟨timeout.erased, type.erased, name.erased, body.erased, .nowhere⟩
  | none => none

@[simp]
def Catch.allErased : List Catch → List Catch
  | [] => []
  | ⟨type, name, body, _⟩ :: rest =>
      ⟨type.erased, name.erased, body.erased, .nowhere⟩ :: Catch.allErased rest

end

theorem Stmt.allErased_cons (statement : Stmt) (rest : List Stmt) :
    Stmt.allErased (statement :: rest) =
      Stmt.allErased [statement] ++ Stmt.allErased rest := by
  cases statement <;> rfl

theorem Stmt.allErased_append (first second : List Stmt) :
    Stmt.allErased (first ++ second) = Stmt.allErased first ++ Stmt.allErased second := by
  induction first with
  | nil => rfl
  | cons statement rest ih =>
      rw [List.cons_append, allErased_cons, ih, allErased_cons statement rest, List.append_assoc]

/-- Whether a statement is kept does not depend on places. -/
theorem Stmt.allErased_singleton {left right : Stmt} (same : left.erased = right.erased) :
    Stmt.allErased [left] = Stmt.allErased [right] := by
  cases left <;> cases right <;> first | exact congrArg (fun kept => [kept]) same | rfl | cases same

theorem Worker.allErased_eq_map (workers : List Worker) :
    Worker.allErased workers = workers.map erased := by
  induction workers with
  | nil => rfl
  | cons worker rest ih => rw [allErased, ih, List.map_cons]

def ElseIf.erased (branch : ElseIf) : ElseIf :=
  ⟨branch.condition.erased, branch.block.erased, .nowhere⟩

theorem ElseIf.allErased_eq_map (branches : List ElseIf) :
    ElseIf.allErased branches = branches.map erased := by
  induction branches with
  | nil => rfl
  | cons branch rest ih =>
      obtain ⟨_, _, _⟩ := branch
      rw [allErased, ih, List.map_cons, erased]

def Catch.erased (clause : Catch) : Catch :=
  ⟨clause.type.erased, clause.name.erased, clause.body.erased, .nowhere⟩

theorem Catch.allErased_eq_map (clauses : List Catch) :
    Catch.allErased clauses = clauses.map erased := by
  induction clauses with
  | nil => rfl
  | cons clause rest ih =>
      obtain ⟨_, _, _, _⟩ := clause
      rw [allErased, ih, List.map_cons, erased]

def Join.erased (clause : Join) : Join :=
  ⟨clause.condition.map JoinCondition.erased, clause.type.erased, clause.name.erased,
    clause.body.erased, .nowhere⟩

theorem Join.erasedIfAny_eq (clause : Option Join) :
    Join.erasedIfAny clause = clause.map erased := by
  rcases clause with _ | ⟨_, _, _, _, _⟩ <;> rfl

def Timeout.erased (clause : Timeout) : Timeout :=
  ⟨clause.timeout.erased, clause.type.erased, clause.name.erased, clause.body.erased, .nowhere⟩

theorem Timeout.erasedIfAny_eq (clause : Option Timeout) :
    Timeout.erasedIfAny clause = clause.map erased := by
  rcases clause with _ | ⟨_, _, _, _, _⟩ <;> rfl

theorem Block.erasedIfAny_eq (block : Option Block) :
    Block.erasedIfAny block = block.map erased := by
  cases block <;> rfl

/-! ### Annotations -/

mutual

@[simp]
def Attachment.erased : Attachment → Attachment
  | ⟨name, attributes, _⟩ => ⟨name.erased, Attribute.allErased attributes, .nowhere⟩

@[simp]
def Attribute.allErased : List Attribute → List Attribute
  | [] => []
  | ⟨key, value, _⟩ :: rest => ⟨key.erased, value.erased, .nowhere⟩ :: Attribute.allErased rest

@[simp]
def AnnotationValue.erased : AnnotationValue → AnnotationValue
  | .literal value => .literal value.erased
  | .attachment nested => .attachment nested.erased
  | .array elements _ => .array (AnnotationValue.allErased elements) .nowhere

@[simp]
def AnnotationValue.allErased : List AnnotationValue → List AnnotationValue
  | [] => []
  | value :: rest => value.erased :: AnnotationValue.allErased rest

end

def Attribute.erased (entry : Attribute) : Attribute :=
  ⟨entry.key.erased, entry.value.erased, .nowhere⟩

theorem Attribute.allErased_eq_map (entries : List Attribute) :
    Attribute.allErased entries = entries.map erased := by
  induction entries with
  | nil => rfl
  | cons entry rest ih =>
      obtain ⟨_, _, _⟩ := entry
      rw [allErased, ih, List.map_cons, erased]

theorem AnnotationValue.allErased_eq_map (elements : List AnnotationValue) :
    AnnotationValue.allErased elements = elements.map erased := by
  induction elements with
  | nil => rfl
  | cons element rest ih => rw [allErased, ih, List.map_cons]

/-! ### Definitions -/

def Param.erased (param : Param) : Param :=
  ⟨param.attachments.map Attachment.erased, param.type.erased, param.name.erased, .nowhere⟩

def Returns.erased : Returns → Returns
  | .named results => .named (results.map Param.erased)
  | .types results => .types (results.map TypeName.erased)

def Signature.erased (signature : Signature) : Signature :=
  ⟨signature.name.erased, signature.params.map Param.erased,
    signature.returns.map Returns.erased, .nowhere⟩

def ResourceDef.erased (definition : ResourceDef) : ResourceDef :=
  ⟨definition.attachments.map Attachment.erased, definition.name.erased,
    definition.params.map Param.erased, definition.body.erased, .nowhere⟩

def CallableDef.erased (definition : CallableDef) : CallableDef :=
  ⟨definition.attachments.map Attachment.erased, definition.native, definition.signature.erased,
    definition.body.map CallableBody.erased, .nowhere⟩

def FieldDef.erased (definition : FieldDef) : FieldDef :=
  ⟨definition.type.erased, definition.name.erased, definition.default.map Literal.erased,
    .nowhere⟩

def ServiceDef.erased (definition : ServiceDef) : ServiceDef :=
  ⟨definition.attachments.map Attachment.erased, definition.protocol.erased,
    definition.name.erased, definition.varDefs.map VarDef.erased,
    definition.resources.map ResourceDef.erased, .nowhere⟩

def ConnectorDef.erased (definition : ConnectorDef) : ConnectorDef :=
  ⟨definition.attachments.map Attachment.erased, definition.name.erased,
    definition.params.map Param.erased, definition.varDefs.map VarDef.erased,
    definition.actions.map CallableDef.erased, .nowhere⟩

def StructDef.erased (definition : StructDef) : StructDef :=
  ⟨definition.attachments.map Attachment.erased, definition.name.erased,
    definition.fields.map FieldDef.erased, .nowhere⟩

def AttachPoint.erased (point : AttachPoint) : AttachPoint :=
  ⟨point.target, .nowhere⟩

def AnnotationDef.erased (definition : AnnotationDef) : AnnotationDef :=
  ⟨definition.attachments.map Attachment.erased, definition.name.erased,
    definition.attachPoints.map AttachPoint.erased, definition.fields.map FieldDef.erased,
    .nowhere⟩

def TypeMapperDef.erased (definition : TypeMapperDef) : TypeMapperDef :=
  ⟨definition.attachments.map Attachment.erased, definition.native, definition.name.erased,
    definition.param.erased, definition.returnType.erased, definition.body.map Block.erased,
    .nowhere⟩

def ConstantDef.erased (definition : ConstantDef) : ConstantDef :=
  ⟨definition.attachments.map Attachment.erased, definition.type.erased, definition.name.erased,
    definition.value.erased, .nowhere⟩

def GlobalVarDef.erased (definition : GlobalVarDef) : GlobalVarDef :=
  ⟨definition.attachments.map Attachment.erased, definition.type.erased, definition.name.erased,
    definition.init.map Expr.erased, .nowhere⟩

def Definition.erased : Definition → Definition
  | .service definition => .service definition.erased
  | .function definition => .function definition.erased
  | .connector definition => .connector definition.erased
  | .struct definition => .struct definition.erased
  | .typeMapper definition => .typeMapper definition.erased
  | .constant definition => .constant definition.erased
  | .annotationDef definition => .annotationDef definition.erased
  | .globalVar definition => .globalVar definition.erased
  | .broken _ => .broken .nowhere

/-! ### Sources -/

def PackageDecl.erased (declaration : PackageDecl) : PackageDecl :=
  ⟨declaration.name.erased, .nowhere⟩

def ImportDecl.erased (declaration : ImportDecl) : ImportDecl :=
  ⟨declaration.package.erased, declaration.localName.map Identifier.erased, .nowhere⟩

def Directive.erased : Directive → Directive
  | .importDecl declaration => .importDecl declaration.erased
  | .namespaceDecl declaration => .namespaceDecl declaration.erased

def SourceUnit.erased (unit : SourceUnit) : SourceUnit :=
  ⟨unit.package.map PackageDecl.erased, unit.directives.map Directive.erased,
    unit.items.map Definition.erased, .nowhere⟩

end ServiceLang
