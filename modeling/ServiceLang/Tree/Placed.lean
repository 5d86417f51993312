import ServiceLang.Diagnostic
import ServiceLang.Tree.Definition

set_option autoImplicit false

/-! Trees with other places: a change of places goes to every span of a tree and to nothing
else. Where all spans become nowhere, what is left is the tree without its places, with the
comments that are among its statements. -/

namespace ServiceLang

variable (move : Span → Span)

/-! ### Names and types -/

def Identifier.placedBy (identifier : Identifier) : Identifier :=
  ⟨identifier.name, move identifier.span⟩

def NameReference.placedBy (reference : NameReference) : NameReference :=
  ⟨reference.package.map (Identifier.placedBy move), reference.name.placedBy move⟩

def PackageName.placedBy (package : PackageName) : PackageName :=
  ⟨package.segments.map (Identifier.placedBy move), move package.span⟩

def TokenMarker.placedBy (marker : TokenMarker) : TokenMarker :=
  ⟨move marker.span, marker.synthetic⟩

def XmlConstraint.placedBy (constraint : XmlConstraint) : XmlConstraint :=
  ⟨constraint.uri, constraint.element.placedBy move, move constraint.span⟩

def SchemaReference.placedBy (schema : SchemaReference) : SchemaReference :=
  ⟨schema.location, move schema.span⟩

def TypeName.placedBy : TypeName → TypeName
  | .any span => .any (move span)
  | .value type span => .value type (move span)
  | .message span => .message (move span)
  | .datatable span => .datatable (move span)
  | .map span => .map (move span)
  | .mapOf constraint span => .mapOf constraint.placedBy (move span)
  | .xml constraint span => .xml (constraint.map (XmlConstraint.placedBy move)) (move span)
  | .xmlDocument constraint span =>
      .xmlDocument (constraint.map (XmlConstraint.placedBy move)) (move span)
  | .json schema span => .json (schema.map (SchemaReference.placedBy move)) (move span)
  | .named reference span => .named (reference.placedBy move) (move span)
  | .array element span => .array element.placedBy (move span)

/-! ### Expressions -/

def Literal.placedBy (literal : Literal) : Literal :=
  ⟨literal.value, literal.negative, move literal.span⟩

mutual

def Expr.placedBy : Expr → Expr
  | .literal value => .literal (value.placedBy move)
  | .template text span => .template text (move span)
  | .array elements span => .array (Expr.allPlacedBy elements) (move span)
  | .mapping entries span => .mapping (MapEntry.allPlacedBy entries) (move span)
  | .reference target => .reference target.placedBy
  | .call name arguments span =>
      .call (name.placedBy move) (Expr.allPlacedBy arguments) (move span)
  | .invoke connector action arguments span =>
      .invoke (connector.placedBy move) (action.placedBy move) (Expr.allPlacedBy arguments)
        (move span)
  | .create connector arguments span =>
      .create (connector.placedBy move) (Expr.allPlacedBy arguments) (move span)
  | .typeMember type member span =>
      .typeMember (type.placedBy move) (member.placedBy move) (move span)
  | .cast target operand span => .cast (target.placedBy move) operand.placedBy (move span)
  | .convert target operand span => .convert (target.placedBy move) operand.placedBy (move span)
  | .unary operator operand span => .unary operator operand.placedBy (move span)
  | .binary operator left right span =>
      .binary operator left.placedBy right.placedBy (move span)
  | .paren inner span => .paren inner.placedBy (move span)

def Expr.allPlacedBy : List Expr → List Expr
  | [] => []
  | expr :: rest => expr.placedBy :: Expr.allPlacedBy rest

def MapEntry.placedBy : MapEntry → MapEntry
  | ⟨key, value, span⟩ => ⟨key.placedBy, value.placedBy, move span⟩

def MapEntry.allPlacedBy : List MapEntry → List MapEntry
  | [] => []
  | entry :: rest => entry.placedBy :: MapEntry.allPlacedBy rest

def Reference.placedBy : Reference → Reference
  | .name reference => .name (reference.placedBy move)
  | .index base position span => .index base.placedBy position.placedBy (move span)
  | .field base member span => .field base.placedBy (member.placedBy move) (move span)
  | .attributes base span => .attributes base.placedBy (move span)
  | .attributeNamed base name span =>
      .attributeNamed base.placedBy (name.placedBy move) (move span)
  | .attributeAt base selector span =>
      .attributeAt base.placedBy selector.placedBy (move span)

end

theorem Expr.allPlacedBy_eq_map (exprs : List Expr) :
    Expr.allPlacedBy move exprs = exprs.map (placedBy move) := by
  induction exprs with
  | nil => rfl
  | cons expr rest ih => rw [allPlacedBy, ih, List.map_cons]

theorem MapEntry.allPlacedBy_eq_map (entries : List MapEntry) :
    MapEntry.allPlacedBy move entries = entries.map (placedBy move) := by
  induction entries with
  | nil => rfl
  | cons entry rest ih => rw [allPlacedBy, ih, List.map_cons]

/-! ### Statements -/

def VarDef.placedBy (definition : VarDef) : VarDef :=
  ⟨definition.type.placedBy move, definition.name.placedBy move,
    definition.init.map (Expr.placedBy move), move definition.span⟩

def NamespaceDecl.placedBy (declaration : NamespaceDecl) : NamespaceDecl :=
  ⟨declaration.uri, declaration.localName.map (Identifier.placedBy move), move declaration.span⟩

def JoinCondition.placedBy : JoinCondition → JoinCondition
  | .first count workers span =>
      .first count (workers.map (Identifier.placedBy move)) (move span)
  | .every workers span => .every (workers.map (Identifier.placedBy move)) (move span)

def SendTarget.placedBy : SendTarget → SendTarget
  | .worker receiver => .worker (receiver.placedBy move)
  | .fork span => .fork (move span)

mutual

def Stmt.placedBy : Stmt → Stmt
  | .varDef definition => .varDef (definition.placedBy move)
  | .assign declares targets value span =>
      .assign declares (targets.map (Reference.placedBy move)) (value.placedBy move) (move span)
  | .ifElse condition thenBlock elseIfs elseBlock span =>
      .ifElse (condition.placedBy move) thenBlock.placedBy (ElseIf.allPlacedBy elseIfs)
        (Block.placedByIfAny elseBlock) (move span)
  | .iterate type name collection body span =>
      .iterate (type.placedBy move) (name.placedBy move) (collection.placedBy move) body.placedBy
        (move span)
  | .whileLoop condition body span =>
      .whileLoop (condition.placedBy move) body.placedBy (move span)
  | .continueLoop span => .continueLoop (move span)
  | .breakLoop span => .breakLoop (move span)
  | .forkJoin workers join timeout span =>
      .forkJoin (Worker.allPlacedBy workers) (Join.placedByIfAny join)
        (Timeout.placedByIfAny timeout) (move span)
  | .tryCatch body catches finallyBlock span =>
      .tryCatch body.placedBy (Catch.allPlacedBy catches) (Block.placedByIfAny finallyBlock)
        (move span)
  | .throw value span => .throw (value.placedBy move) (move span)
  | .returns values span => .returns (values.map (Expr.placedBy move)) (move span)
  | .reply value span => .reply (value.placedBy move) (move span)
  | .send values target span =>
      .send (values.map (Expr.placedBy move)) (target.placedBy move) (move span)
  | .receive targets worker span =>
      .receive (targets.map (Expr.placedBy move)) (worker.placedBy move) (move span)
  | .comment text span => .comment text (move span)
  | .invoke connector action arguments span =>
      .invoke (connector.placedBy move) (action.placedBy move)
        (arguments.map (Expr.placedBy move)) (move span)
  | .call name arguments span =>
      .call (name.placedBy move) (arguments.map (Expr.placedBy move)) (move span)
  | .transform body span => .transform body.placedBy (move span)
  | .transaction body aborted committed span =>
      .transaction body.placedBy (Block.placedByIfAny aborted) (Block.placedByIfAny committed)
        (move span)
  | .abort span => .abort (move span)
  | .namespaceDecl declaration => .namespaceDecl (declaration.placedBy move)
  | .broken span => .broken (move span)

def Stmt.allPlacedBy : List Stmt → List Stmt
  | [] => []
  | statement :: rest => statement.placedBy :: Stmt.allPlacedBy rest

def Block.placedBy : Block → Block
  | ⟨statements, close, span⟩ =>
      ⟨Stmt.allPlacedBy statements, close.placedBy move, move span⟩

def Block.placedByIfAny : Option Block → Option Block
  | some block => some block.placedBy
  | none => none

def CallableBody.placedBy : CallableBody → CallableBody
  | ⟨statements, workers, close, span⟩ =>
      ⟨Stmt.allPlacedBy statements, Worker.allPlacedBy workers, close.placedBy move, move span⟩

def Worker.placedBy : Worker → Worker
  | ⟨name, body, span⟩ => ⟨name.placedBy move, body.placedBy, move span⟩

def Worker.allPlacedBy : List Worker → List Worker
  | [] => []
  | worker :: rest => worker.placedBy :: Worker.allPlacedBy rest

def ElseIf.placedBy : ElseIf → ElseIf
  | ⟨condition, block, span⟩ => ⟨condition.placedBy move, block.placedBy, move span⟩

def ElseIf.allPlacedBy : List ElseIf → List ElseIf
  | [] => []
  | branch :: rest => branch.placedBy :: ElseIf.allPlacedBy rest

def Join.placedBy : Join → Join
  | ⟨condition, type, name, body, span⟩ =>
      ⟨condition.map (JoinCondition.placedBy move), type.placedBy move, name.placedBy move,
        body.placedBy, move span⟩

def Join.placedByIfAny : Option Join → Option Join
  | some join => some join.placedBy
  | none => none

def Timeout.placedBy : Timeout → Timeout
  | ⟨timeout, type, name, body, span⟩ =>
      ⟨timeout.placedBy move, type.placedBy move, name.placedBy move, body.placedBy, move span⟩

def Timeout.placedByIfAny : Option Timeout → Option Timeout
  | some timeout => some timeout.placedBy
  | none => none

def Catch.placedBy : Catch → Catch
  | ⟨type, name, body, span⟩ =>
      ⟨type.placedBy move, name.placedBy move, body.placedBy, move span⟩

def Catch.allPlacedBy : List Catch → List Catch
  | [] => []
  | clause :: rest => clause.placedBy :: Catch.allPlacedBy rest

end

theorem Stmt.allPlacedBy_eq_map (statements : List Stmt) :
    Stmt.allPlacedBy move statements = statements.map (placedBy move) := by
  induction statements with
  | nil => rfl
  | cons statement rest ih => rw [allPlacedBy, ih, List.map_cons]

theorem Worker.allPlacedBy_eq_map (workers : List Worker) :
    Worker.allPlacedBy move workers = workers.map (placedBy move) := by
  induction workers with
  | nil => rfl
  | cons worker rest ih => rw [allPlacedBy, ih, List.map_cons]

theorem ElseIf.allPlacedBy_eq_map (branches : List ElseIf) :
    ElseIf.allPlacedBy move branches = branches.map (placedBy move) := by
  induction branches with
  | nil => rfl
  | cons branch rest ih => rw [allPlacedBy, ih, List.map_cons]

theorem Catch.allPlacedBy_eq_map (clauses : List Catch) :
    Catch.allPlacedBy move clauses = clauses.map (placedBy move) := by
  induction clauses with
  | nil => rfl
  | cons clause rest ih => rw [allPlacedBy, ih, List.map_cons]

theorem Block.placedByIfAny_eq_map (block : Option Block) :
    Block.placedByIfAny move block = block.map (placedBy move) := by
  cases block <;> rfl

theorem Join.placedByIfAny_eq_map (join : Option Join) :
    Join.placedByIfAny move join = join.map (placedBy move) := by
  cases join <;> rfl

theorem Timeout.placedByIfAny_eq_map (timeout : Option Timeout) :
    Timeout.placedByIfAny move timeout = timeout.map (placedBy move) := by
  cases timeout <;> rfl

/-! ### Annotations -/

mutual

def Attachment.placedBy : Attachment → Attachment
  | ⟨name, attributes, span⟩ =>
      ⟨name.placedBy move, Attribute.allPlacedBy attributes, move span⟩

def Attribute.placedBy : Attribute → Attribute
  | ⟨key, value, span⟩ => ⟨key.placedBy move, value.placedBy, move span⟩

def Attribute.allPlacedBy : List Attribute → List Attribute
  | [] => []
  | entry :: rest => entry.placedBy :: Attribute.allPlacedBy rest

def AnnotationValue.placedBy : AnnotationValue → AnnotationValue
  | .literal value => .literal (value.placedBy move)
  | .attachment nested => .attachment nested.placedBy
  | .array elements span => .array (AnnotationValue.allPlacedBy elements) (move span)

def AnnotationValue.allPlacedBy : List AnnotationValue → List AnnotationValue
  | [] => []
  | value :: rest => value.placedBy :: AnnotationValue.allPlacedBy rest

end

theorem Attribute.allPlacedBy_eq_map (entries : List Attribute) :
    Attribute.allPlacedBy move entries = entries.map (placedBy move) := by
  induction entries with
  | nil => rfl
  | cons entry rest ih => rw [allPlacedBy, ih, List.map_cons]

theorem AnnotationValue.allPlacedBy_eq_map (values : List AnnotationValue) :
    AnnotationValue.allPlacedBy move values = values.map (placedBy move) := by
  induction values with
  | nil => rfl
  | cons value rest ih => rw [allPlacedBy, ih, List.map_cons]

/-! ### Definitions -/

def Param.placedBy (param : Param) : Param :=
  ⟨param.attachments.map (Attachment.placedBy move), param.type.placedBy move,
    param.name.placedBy move, move param.span⟩

def Returns.placedBy : Returns → Returns
  | .named results => .named (results.map (Param.placedBy move))
  | .types results => .types (results.map (TypeName.placedBy move))

def Signature.placedBy (signature : Signature) : Signature :=
  ⟨signature.name.placedBy move, signature.params.map (Param.placedBy move),
    signature.returns.map (Returns.placedBy move), move signature.span⟩

def ResourceDef.placedBy (definition : ResourceDef) : ResourceDef :=
  ⟨definition.attachments.map (Attachment.placedBy move), definition.name.placedBy move,
    definition.params.map (Param.placedBy move), definition.body.placedBy move,
    move definition.span⟩

def CallableDef.placedBy (definition : CallableDef) : CallableDef :=
  ⟨definition.attachments.map (Attachment.placedBy move), definition.native,
    definition.signature.placedBy move, definition.body.map (CallableBody.placedBy move),
    move definition.span⟩

def FieldDef.placedBy (definition : FieldDef) : FieldDef :=
  ⟨definition.type.placedBy move, definition.name.placedBy move,
    definition.default.map (Literal.placedBy move), move definition.span⟩

def ServiceDef.placedBy (definition : ServiceDef) : ServiceDef :=
  ⟨definition.attachments.map (Attachment.placedBy move), definition.protocol.placedBy move,
    definition.name.placedBy move, definition.varDefs.map (VarDef.placedBy move),
    definition.resources.map (ResourceDef.placedBy move), move definition.span⟩

def ConnectorDef.placedBy (definition : ConnectorDef) : ConnectorDef :=
  ⟨definition.attachments.map (Attachment.placedBy move), definition.name.placedBy move,
    definition.params.map (Param.placedBy move), definition.varDefs.map (VarDef.placedBy move),
    definition.actions.map (CallableDef.placedBy move), move definition.span⟩

def StructDef.placedBy (definition : StructDef) : StructDef :=
  ⟨definition.attachments.map (Attachment.placedBy move), definition.name.placedBy move,
    definition.fields.map (FieldDef.placedBy move), move definition.span⟩

def AttachPoint.placedBy (point : AttachPoint) : AttachPoint :=
  ⟨point.target, move point.span⟩

def AnnotationDef.placedBy (definition : AnnotationDef) : AnnotationDef :=
  ⟨definition.attachments.map (Attachment.placedBy move), definition.name.placedBy move,
    definition.attachPoints.map (AttachPoint.placedBy move),
    definition.fields.map (FieldDef.placedBy move), move definition.span⟩

def TypeMapperDef.placedBy (definition : TypeMapperDef) : TypeMapperDef :=
  ⟨definition.attachments.map (Attachment.placedBy move), definition.native,
    definition.name.placedBy move, definition.param.placedBy move,
    definition.returnType.placedBy move, definition.body.map (Block.placedBy move),
    move definition.span⟩

def ConstantDef.placedBy (definition : ConstantDef) : ConstantDef :=
  ⟨definition.attachments.map (Attachment.placedBy move), definition.type.placedBy move,
    definition.name.placedBy move, definition.value.placedBy move, move definition.span⟩

def GlobalVarDef.placedBy (definition : GlobalVarDef) : GlobalVarDef :=
  ⟨definition.attachments.map (Attachment.placedBy move), definition.type.placedBy move,
    definition.name.placedBy move, definition.init.map (Expr.placedBy move),
    move definition.span⟩

def Definition.placedBy : Definition → Definition
  | .service definition => .service (definition.placedBy move)
  | .function definition => .function (definition.placedBy move)
  | .connector definition => .connector (definition.placedBy move)
  | .struct definition => .struct (definition.placedBy move)
  | .typeMapper definition => .typeMapper (definition.placedBy move)
  | .constant definition => .constant (definition.placedBy move)
  | .annotationDef definition => .annotationDef (definition.placedBy move)
  | .globalVar definition => .globalVar (definition.placedBy move)
  | .broken span => .broken (move span)

/-! ### Sources -/

def PackageDecl.placedBy (declaration : PackageDecl) : PackageDecl :=
  ⟨declaration.name.placedBy move, move declaration.span⟩

def ImportDecl.placedBy (declaration : ImportDecl) : ImportDecl :=
  ⟨declaration.package.placedBy move, declaration.localName.map (Identifier.placedBy move),
    move declaration.span⟩

def Directive.placedBy : Directive → Directive
  | .importDecl declaration => .importDecl (declaration.placedBy move)
  | .namespaceDecl declaration => .namespaceDecl (declaration.placedBy move)

def SourceUnit.placedBy (unit : SourceUnit) : SourceUnit :=
  ⟨unit.package.map (PackageDecl.placedBy move), unit.directives.map (Directive.placedBy move),
    unit.items.map (Definition.placedBy move), move unit.span⟩

def SourceUnit.unplaced (unit : SourceUnit) : SourceUnit :=
  unit.placedBy fun _ => .nowhere

def Definition.unplaced (definition : Definition) : Definition :=
  definition.placedBy fun _ => .nowhere

def Diagnostic.unplaced (diagnostic : Diagnostic) : Diagnostic :=
  { diagnostic with span := .nowhere }

theorem Diagnostic.eq_of_unplaced {diagnostic other : Diagnostic}
    (same : diagnostic.unplaced = other.unplaced) (spans : diagnostic.span = other.span) :
    diagnostic = other := by
  obtain ⟨problem, severity, span, message, recovery⟩ := diagnostic
  obtain ⟨otherProblem, otherSeverity, otherSpan, otherMessage, otherRecovery⟩ := other
  cases same
  cases spans
  rfl

/-! ### A tree in its own place -/

@[simp]
theorem Identifier.placedBy_id : Identifier.placedBy id = id :=
  rfl

@[simp]
theorem NameReference.placedBy_id : NameReference.placedBy id = id := by
  funext reference
  simp [placedBy]

@[simp]
theorem PackageName.placedBy_id : PackageName.placedBy id = id := by
  funext package
  simp [placedBy]

@[simp]
theorem XmlConstraint.placedBy_id : XmlConstraint.placedBy id = id :=
  rfl

@[simp]
theorem SchemaReference.placedBy_id : SchemaReference.placedBy id = id :=
  rfl

@[simp]
theorem TypeName.placedBy_id : TypeName.placedBy id = id := by
  funext type
  induction type with
  | mapOf constraint span ih => simp [placedBy, ih]
  | array element span ih => simp [placedBy, ih]
  | _ => simp [placedBy]

@[simp]
theorem Literal.placedBy_id : Literal.placedBy id = id :=
  rfl

mutual

theorem Expr.placedBy_id_apply : (expr : Expr) → expr.placedBy id = expr
  | .literal _ | .template _ _ | .typeMember _ _ _ => by simp [Expr.placedBy]
  | .array elements _ => by simp [Expr.placedBy, Expr.allPlacedBy_id elements]
  | .mapping entries _ => by simp [Expr.placedBy, MapEntry.allPlacedBy_id entries]
  | .reference target => by simp [Expr.placedBy, target.placedBy_id_apply]
  | .call _ arguments _ | .invoke _ _ arguments _ | .create _ arguments _ => by
      simp [Expr.placedBy, Expr.allPlacedBy_id arguments]
  | .cast _ operand _ | .convert _ operand _ | .unary _ operand _ | .paren operand _ => by
      simp [Expr.placedBy, operand.placedBy_id_apply]
  | .binary _ left right _ => by
      simp [Expr.placedBy, left.placedBy_id_apply, right.placedBy_id_apply]

theorem Expr.allPlacedBy_id : (exprs : List Expr) → Expr.allPlacedBy id exprs = exprs
  | [] => rfl
  | expr :: rest => by
      rw [Expr.allPlacedBy, expr.placedBy_id_apply, Expr.allPlacedBy_id rest]

theorem MapEntry.placedBy_id_apply : (entry : MapEntry) → entry.placedBy id = entry
  | ⟨key, value, _⟩ => by
      simp [MapEntry.placedBy, key.placedBy_id_apply, value.placedBy_id_apply]

theorem MapEntry.allPlacedBy_id : (entries : List MapEntry) →
    MapEntry.allPlacedBy id entries = entries
  | [] => rfl
  | entry :: rest => by
      rw [MapEntry.allPlacedBy, entry.placedBy_id_apply, MapEntry.allPlacedBy_id rest]

theorem Reference.placedBy_id_apply : (target : Reference) → target.placedBy id = target
  | .name _ => by simp [Reference.placedBy]
  | .index base position _ => by
      simp [Reference.placedBy, base.placedBy_id_apply, position.placedBy_id_apply]
  | .field base _ _ | .attributes base _ | .attributeNamed base _ _ => by
      simp [Reference.placedBy, base.placedBy_id_apply]
  | .attributeAt base selector _ => by
      simp [Reference.placedBy, base.placedBy_id_apply, selector.placedBy_id_apply]

end

@[simp]
theorem Expr.placedBy_id : Expr.placedBy id = id :=
  funext placedBy_id_apply

@[simp]
theorem Reference.placedBy_id : Reference.placedBy id = id :=
  funext placedBy_id_apply

@[simp]
theorem VarDef.placedBy_id : VarDef.placedBy id = id := by
  funext definition
  simp [placedBy]

@[simp]
theorem NamespaceDecl.placedBy_id : NamespaceDecl.placedBy id = id := by
  funext declaration
  simp [placedBy]

@[simp]
theorem JoinCondition.placedBy_id : JoinCondition.placedBy id = id := by
  funext condition
  cases condition <;> simp [placedBy]

@[simp]
theorem SendTarget.placedBy_id : SendTarget.placedBy id = id := by
  funext target
  cases target <;> rfl

mutual

theorem Stmt.placedBy_id_apply : (statement : Stmt) → statement.placedBy id = statement
  | .varDef _ | .assign .. | .continueLoop _ | .breakLoop _ | .throw .. | .returns .. | .reply ..
  | .send .. | .receive .. | .comment .. | .invoke .. | .call .. | .abort _ | .namespaceDecl _
  | .broken _ => by simp [Stmt.placedBy]
  | .ifElse _ thenBlock elseIfs elseBlock _ => by
      simp [Stmt.placedBy, thenBlock.placedBy_id_apply, ElseIf.allPlacedBy_id elseIfs,
        Block.placedByIfAny_id elseBlock]
  | .iterate _ _ _ body _ | .whileLoop _ body _ | .transform body _ => by
      simp [Stmt.placedBy, body.placedBy_id_apply]
  | .forkJoin workers join timeout _ => by
      simp [Stmt.placedBy, Worker.allPlacedBy_id workers, Join.placedByIfAny_id join,
        Timeout.placedByIfAny_id timeout]
  | .tryCatch body catches finallyBlock _ => by
      simp [Stmt.placedBy, body.placedBy_id_apply, Catch.allPlacedBy_id catches,
        Block.placedByIfAny_id finallyBlock]
  | .transaction body aborted committed _ => by
      simp [Stmt.placedBy, body.placedBy_id_apply, Block.placedByIfAny_id aborted,
        Block.placedByIfAny_id committed]

theorem Stmt.allPlacedBy_id : (statements : List Stmt) →
    Stmt.allPlacedBy id statements = statements
  | [] => rfl
  | statement :: rest => by
      rw [Stmt.allPlacedBy, statement.placedBy_id_apply, Stmt.allPlacedBy_id rest]

theorem Block.placedBy_id_apply : (block : Block) → block.placedBy id = block
  | ⟨statements, _, _⟩ => by
      simp [Block.placedBy, Stmt.allPlacedBy_id statements, TokenMarker.placedBy]

theorem Block.placedByIfAny_id : (block : Option Block) → Block.placedByIfAny id block = block
  | some block => by rw [Block.placedByIfAny, block.placedBy_id_apply]
  | none => rfl

theorem CallableBody.placedBy_id_apply : (body : CallableBody) → body.placedBy id = body
  | ⟨statements, workers, _, _⟩ => by
      simp [CallableBody.placedBy, Stmt.allPlacedBy_id statements,
        Worker.allPlacedBy_id workers, TokenMarker.placedBy]

theorem Worker.placedBy_id_apply : (worker : Worker) → worker.placedBy id = worker
  | ⟨_, body, _⟩ => by simp [Worker.placedBy, body.placedBy_id_apply]

theorem Worker.allPlacedBy_id : (workers : List Worker) → Worker.allPlacedBy id workers = workers
  | [] => rfl
  | worker :: rest => by
      rw [Worker.allPlacedBy, worker.placedBy_id_apply, Worker.allPlacedBy_id rest]

theorem ElseIf.placedBy_id_apply : (branch : ElseIf) → branch.placedBy id = branch
  | ⟨_, block, _⟩ => by simp [ElseIf.placedBy, block.placedBy_id_apply]

theorem ElseIf.allPlacedBy_id : (branches : List ElseIf) →
    ElseIf.allPlacedBy id branches = branches
  | [] => rfl
  | branch :: rest => by
      rw [ElseIf.allPlacedBy, branch.placedBy_id_apply, ElseIf.allPlacedBy_id rest]

theorem Join.placedBy_id_apply : (join : Join) → join.placedBy id = join
  | ⟨_, _, _, body, _⟩ => by simp [Join.placedBy, body.placedBy_id_apply]

theorem Join.placedByIfAny_id : (join : Option Join) → Join.placedByIfAny id join = join
  | some join => by rw [Join.placedByIfAny, join.placedBy_id_apply]
  | none => rfl

theorem Timeout.placedBy_id_apply : (timeout : Timeout) → timeout.placedBy id = timeout
  | ⟨_, _, _, body, _⟩ => by simp [Timeout.placedBy, body.placedBy_id_apply]

theorem Timeout.placedByIfAny_id : (timeout : Option Timeout) →
    Timeout.placedByIfAny id timeout = timeout
  | some timeout => by rw [Timeout.placedByIfAny, timeout.placedBy_id_apply]
  | none => rfl

theorem Catch.placedBy_id_apply : (clause : Catch) → clause.placedBy id = clause
  | ⟨_, _, body, _⟩ => by simp [Catch.placedBy, body.placedBy_id_apply]

theorem Catch.allPlacedBy_id : (clauses : List Catch) → Catch.allPlacedBy id clauses = clauses
  | [] => rfl
  | clause :: rest => by
      rw [Catch.allPlacedBy, clause.placedBy_id_apply, Catch.allPlacedBy_id rest]

end

mutual

theorem Attachment.placedBy_id_apply : (attachment : Attachment) →
    attachment.placedBy id = attachment
  | ⟨_, attributes, _⟩ => by simp [Attachment.placedBy, Attribute.allPlacedBy_id attributes]

theorem Attribute.placedBy_id_apply : (entry : Attribute) → entry.placedBy id = entry
  | ⟨_, value, _⟩ => by simp [Attribute.placedBy, value.placedBy_id_apply]

theorem Attribute.allPlacedBy_id : (entries : List Attribute) →
    Attribute.allPlacedBy id entries = entries
  | [] => rfl
  | entry :: rest => by
      rw [Attribute.allPlacedBy, entry.placedBy_id_apply, Attribute.allPlacedBy_id rest]

theorem AnnotationValue.placedBy_id_apply : (value : AnnotationValue) → value.placedBy id = value
  | .literal _ => by simp [AnnotationValue.placedBy]
  | .attachment nested => by simp [AnnotationValue.placedBy, nested.placedBy_id_apply]
  | .array elements _ => by
      simp [AnnotationValue.placedBy, AnnotationValue.allPlacedBy_id elements]

theorem AnnotationValue.allPlacedBy_id : (values : List AnnotationValue) →
    AnnotationValue.allPlacedBy id values = values
  | [] => rfl
  | value :: rest => by
      rw [AnnotationValue.allPlacedBy, value.placedBy_id_apply, AnnotationValue.allPlacedBy_id rest]

end

@[simp]
theorem Block.placedBy_id : Block.placedBy id = id :=
  funext placedBy_id_apply

@[simp]
theorem CallableBody.placedBy_id : CallableBody.placedBy id = id :=
  funext placedBy_id_apply

@[simp]
theorem Attachment.placedBy_id : Attachment.placedBy id = id :=
  funext placedBy_id_apply

@[simp]
theorem Param.placedBy_id : Param.placedBy id = id := by
  funext param
  simp [placedBy]

@[simp]
theorem Returns.placedBy_id : Returns.placedBy id = id := by
  funext returns
  cases returns <;> simp [placedBy]

@[simp]
theorem Signature.placedBy_id : Signature.placedBy id = id := by
  funext signature
  simp [placedBy]

@[simp]
theorem ResourceDef.placedBy_id : ResourceDef.placedBy id = id := by
  funext definition
  simp [placedBy]

@[simp]
theorem CallableDef.placedBy_id : CallableDef.placedBy id = id := by
  funext definition
  simp [placedBy]

@[simp]
theorem FieldDef.placedBy_id : FieldDef.placedBy id = id := by
  funext definition
  simp [placedBy]

@[simp]
theorem AttachPoint.placedBy_id : AttachPoint.placedBy id = id :=
  rfl

@[simp]
theorem Definition.placedBy_id : Definition.placedBy id = id := by
  funext definition
  cases definition <;>
    simp [placedBy, ServiceDef.placedBy, ConnectorDef.placedBy, StructDef.placedBy,
      TypeMapperDef.placedBy, ConstantDef.placedBy, AnnotationDef.placedBy, GlobalVarDef.placedBy]

@[simp]
theorem PackageDecl.placedBy_id : PackageDecl.placedBy id = id := by
  funext declaration
  simp [placedBy]

@[simp]
theorem Directive.placedBy_id : Directive.placedBy id = id := by
  funext directive
  cases directive <;> simp [placedBy, ImportDecl.placedBy]

theorem SourceUnit.placedBy_id (unit : SourceUnit) : unit.placedBy id = unit := by
  simp [placedBy]

end ServiceLang
