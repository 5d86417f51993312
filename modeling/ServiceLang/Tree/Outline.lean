import ServiceLang.Tree.Definition

set_option autoImplicit false

/-! Trees seen alike: every node with the role it plays in its parent, its kind,
its span and its own data, and the nodes below it in a fixed order. -/

namespace ServiceLang

inductive Datum where
  | text (value : String)
  | flag (value : Bool)
  | number (value : Nat)
  | absent
deriving DecidableEq, Repr

inductive Outline where
  | node (role kind : String) (span : Span) (data : List Datum) (below : List Outline)

namespace Outline

/-- The outlines of an optional part and of a list of parts in one role. -/
def optional {α : Type} (outline : String → α → Outline) (role : String) : Option α → List Outline
  | some part => [outline role part]
  | none => []

def each {α : Type} (outline : String → α → Outline) (role : String) (parts : List α) :
    List Outline :=
  parts.map (outline role)

def leaf (role kind : String) (span : Span) (data : List Datum) : Outline :=
  .node role kind span data []

end Outline

open Outline

/-! ### Names and types -/

def Identifier.outline (role : String) (identifier : Identifier) : Outline :=
  leaf role "Ident" identifier.span [.text identifier.name]

def NameReference.outline (role : String) (reference : NameReference) : Outline :=
  .node role "NameReference" reference.span [.text reference.text]
    (optional Identifier.outline "package" reference.package ++
      [reference.name.outline "name"])

def PackageName.outline (role : String) (package : PackageName) : Outline :=
  .node role "PackageName" package.span [.text package.text]
    (each Identifier.outline "segment" package.segments)

def TokenMarker.outline (role : String) (marker : TokenMarker) : Outline :=
  leaf role "TokenMarker" marker.span [.flag marker.synthetic, .flag marker.isPresent]

def XmlConstraint.outline (role : String) (constraint : XmlConstraint) : Outline :=
  .node role "XmlConstraint" constraint.span [(constraint.uri.map .text).getD .absent]
    [constraint.element.outline "local"]

def SchemaReference.outline (role : String) (schema : SchemaReference) : Outline :=
  leaf role "SchemaRef" schema.span [.text schema.location]

def TypeName.outline (role : String) : TypeName → Outline
  | .any span => leaf role "TypeAny" span [.text (TypeName.any span).text]
  | .value type span => leaf role "TypeValue" span [.text type.text]
  | .message span => leaf role "TypeBuiltIn" span [.text (TypeName.message span).text]
  | .datatable span => leaf role "TypeBuiltIn" span [.text (TypeName.datatable span).text]
  | .map span => leaf role "TypeBuiltIn" span [.text (TypeName.map span).text]
  | .mapOf constraint span =>
      .node role "TypeBuiltIn" span [.text (TypeName.mapOf constraint span).text]
        [constraint.outline "constraint"]
  | .xml constraint span =>
      .node role "TypeBuiltIn" span [.text (TypeName.xml constraint span).text]
        (optional XmlConstraint.outline "constraint" constraint)
  | .xmlDocument constraint span =>
      .node role "TypeBuiltIn" span [.text (TypeName.xmlDocument constraint span).text]
        (optional XmlConstraint.outline "constraint" constraint)
  | .json schema span =>
      .node role "TypeBuiltIn" span [.text (TypeName.json schema span).text]
        (optional SchemaReference.outline "constraint" schema)
  | .named reference span =>
      .node role "TypeNamed" span [.text reference.text] [reference.outline "name"]
  | .array element span =>
      .node role "TypeArray" span [.text (TypeName.array element span).text]
        [element.outline "element"]

/-! ### Expressions -/

def Literal.outline (role : String) (literal : Literal) : Outline :=
  let leaf (kind : String) (datum : Datum) : Outline :=
    leaf role kind literal.span [datum, .flag literal.negative]
  match literal.value with
  | .integer text => leaf "Integer" (.text text)
  | .floating text => leaf "Float" (.text text)
  | .string text => leaf "String" (.text text)
  | .boolean value => leaf "Boolean" (.flag value)
  | .null => leaf "Null" .absent

mutual

def Expr.outline (role : String) : Expr → Outline
  | .literal value => value.outline role
  | .template text span => leaf role "Template" span [.text text]
  | .array elements span => .node role "ArrayLiteral" span [] (Expr.outlines "element" elements)
  | .mapping entries span =>
      .node role "MapStructLiteral" span [] (MapEntry.outlines "entry" entries)
  | .reference target => target.outline role
  | .call name arguments span =>
      .node role "FunctionCall" span [] (name.outline "name" :: Expr.outlines "arg" arguments)
  | .invoke connector action arguments span =>
      .node role "ActionInvocation" span []
        (connector.outline "connector" :: action.outline "action" :: Expr.outlines "arg" arguments)
  | .create connector arguments span =>
      .node role "ConnectorInit" span []
        (connector.outline "connector" :: Expr.outlines "arg" arguments)
  | .typeMember type member span =>
      .node role "TypeAccess" span [] [type.outline "type", member.outline "member"]
  | .cast target operand span =>
      .node role "Cast" span [] [target.outline "type", operand.outline "operand"]
  | .convert target operand span =>
      .node role "Conversion" span [] [target.outline "type", operand.outline "operand"]
  | .unary operator operand span =>
      .node role "Unary" span [.text operator.text] [operand.outline "operand"]
  | .binary operator left right span =>
      .node role "Binary" span [.text operator.text] [left.outline "left", right.outline "right"]
  | .paren inner span => .node role "Paren" span [] [inner.outline "expr"]

def Expr.outlines (role : String) : List Expr → List Outline
  | [] => []
  | expr :: rest => expr.outline role :: Expr.outlines role rest

def MapEntry.outline (role : String) : MapEntry → Outline
  | ⟨key, value, span⟩ =>
      .node role "KeyValue" span [] [key.outline "key", value.outline "value"]

def MapEntry.outlines (role : String) : List MapEntry → List Outline
  | [] => []
  | entry :: rest => entry.outline role :: MapEntry.outlines role rest

def Reference.outline (role : String) : Reference → Outline
  | .name reference =>
      .node role "VarSimple" reference.span [] [reference.outline "name"]
  | .index base position span =>
      .node role "VarIndex" span [] [base.outline "base", position.outline "index"]
  | .field base member span =>
      .node role "VarField" span [] [base.outline "base", member.outline "field"]
  | .attributes base span => .node role "VarXmlAttribute" span [] [base.outline "base"]
  | .attributeNamed base name span =>
      .node role "VarXmlAttribute" span [] [base.outline "base", name.outline "selector"]
  | .attributeAt base selector span =>
      .node role "VarXmlAttribute" span [] [base.outline "base", selector.outline "selector"]

end

/-! ### Statements -/

def VarDef.outline (role : String) (definition : VarDef) : Outline :=
  .node role "VarDef" definition.span []
    (definition.type.outline "type" :: definition.name.outline "name" ::
      optional Expr.outline "init" definition.init)

def NamespaceDecl.outline (role : String) (declaration : NamespaceDecl) : Outline :=
  .node role "Namespace" declaration.span [.text declaration.uri]
    (optional Identifier.outline "prefix" declaration.localName)

def JoinCondition.outline (role : String) : JoinCondition → Outline
  | .first count workers span =>
      .node role "JoinAny" span [.number count] (each Identifier.outline "worker" workers)
  | .every workers span =>
      .node role "JoinAll" span [] (each Identifier.outline "worker" workers)

def SendTarget.outline (role : String) : SendTarget → Outline
  | .worker name => name.outline role
  | .fork span => leaf role "Fork" span []

mutual

def Stmt.outline (role : String) : Stmt → Outline
  | .varDef definition => definition.outline role
  | .assign declares targets value span =>
      .node role "Assign" span [.flag declares]
        (each Reference.outline "target" targets ++ [value.outline "value"])
  | .ifElse condition thenBlock elseIfs elseBlock span =>
      .node role "If" span []
        (condition.outline "condition" :: thenBlock.outline "then" ::
          ElseIf.outlines "else_if" elseIfs ++ Block.outlines "else" elseBlock)
  | .iterate type name collection body span =>
      .node role "Iterate" span []
        [type.outline "type", name.outline "name", collection.outline "collection",
         body.outline "body"]
  | .whileLoop condition body span =>
      .node role "While" span [] [condition.outline "condition", body.outline "body"]
  | .continueLoop span => leaf role "Continue" span []
  | .breakLoop span => leaf role "Break" span []
  | .abort span => leaf role "Abort" span []
  | .forkJoin workers join timeout span =>
      .node role "ForkJoin" span []
        (Worker.outlines "worker" workers ++ Join.outlines "join" join ++
          Timeout.outlines "timeout" timeout)
  | .tryCatch body catches finallyBlock span =>
      .node role "TryCatch" span []
        (body.outline "body" :: Catch.outlines "catch" catches ++
          Block.outlines "finally" finallyBlock)
  | .throw value span => .node role "Throw" span [] [value.outline "value"]
  | .reply value span => .node role "Reply" span [] [value.outline "value"]
  | .returns values span => .node role "Return" span [] (each Expr.outline "value" values)
  | .send values target span =>
      .node role "WorkerSend" span []
        (each Expr.outline "value" values ++ [target.outline "target"])
  | .receive targets worker span =>
      .node role "WorkerReceive" span []
        (each Expr.outline "target" targets ++ [worker.outline "worker"])
  | .comment text span => leaf role "Comment" span [.text text]
  | .invoke connector action arguments span =>
      (Expr.invoke connector action arguments span).outline role
  | .call name arguments span => (Expr.call name arguments span).outline role
  | .transform body span => .node role "Transform" span [] [body.outline "body"]
  | .transaction body aborted committed span =>
      .node role "Transaction" span []
        (body.outline "body" :: Block.outlines "aborted" aborted ++
          Block.outlines "committed" committed)
  | .namespaceDecl declaration => declaration.outline role
  | .broken span => leaf role "Error" span []

def Stmt.outlines (role : String) : List Stmt → List Outline
  | [] => []
  | statement :: rest => statement.outline role :: Stmt.outlines role rest

def Block.outline (role : String) : Block → Outline
  | ⟨statements, close, span⟩ =>
      .node role "Block" span [] (Stmt.outlines "stmt" statements ++ [close.outline "close"])

def Block.outlines (role : String) : Option Block → List Outline
  | some block => [block.outline role]
  | none => []

def CallableBody.outline (role : String) : CallableBody → Outline
  | ⟨statements, workers, close, span⟩ =>
      .node role "CallableBody" span []
        (Stmt.outlines "stmt" statements ++ Worker.outlines "worker" workers ++
          [close.outline "close"])

def Worker.outline (role : String) : Worker → Outline
  | ⟨name, body, span⟩ =>
      .node role "Worker" span [] [name.outline "name", body.outline "body"]

def Worker.outlines (role : String) : List Worker → List Outline
  | [] => []
  | worker :: rest => worker.outline role :: Worker.outlines role rest

def ElseIf.outline (role : String) : ElseIf → Outline
  | ⟨condition, block, span⟩ =>
      .node role "ElseIf" span [] [condition.outline "condition", block.outline "block"]

def ElseIf.outlines (role : String) : List ElseIf → List Outline
  | [] => []
  | branch :: rest => branch.outline role :: ElseIf.outlines role rest

def Join.outlines (role : String) : Option Join → List Outline
  | some ⟨condition, type, name, body, span⟩ =>
      [.node role "Join" span []
        (optional JoinCondition.outline "condition" condition ++
          [type.outline "type", name.outline "name", body.outline "body"])]
  | none => []

def Timeout.outlines (role : String) : Option Timeout → List Outline
  | some ⟨timeout, type, name, body, span⟩ =>
      [.node role "Timeout" span []
        [timeout.outline "timeout", type.outline "type", name.outline "name",
         body.outline "body"]]
  | none => []

def Catch.outline (role : String) : Catch → Outline
  | ⟨type, name, body, span⟩ =>
      .node role "Catch" span [] [type.outline "type", name.outline "name", body.outline "body"]

def Catch.outlines (role : String) : List Catch → List Outline
  | [] => []
  | clause :: rest => clause.outline role :: Catch.outlines role rest

end

/-! ### Definitions -/

mutual

def Attachment.outline (role : String) : Attachment → Outline
  | ⟨name, attributes, span⟩ =>
      .node role "Attachment" span []
        (name.outline "name" :: Attribute.outlines "attribute" attributes)

def Attribute.outline (role : String) : Attribute → Outline
  | ⟨key, value, span⟩ =>
      .node role "Attribute" span [] [key.outline "key", value.outline "value"]

def Attribute.outlines (role : String) : List Attribute → List Outline
  | [] => []
  | entry :: rest => entry.outline role :: Attribute.outlines role rest

def AnnotationValue.outline (role : String) : AnnotationValue → Outline
  | .literal value => value.outline role
  | .attachment nested => nested.outline role
  | .array elements span =>
      .node role "AnnotationArray" span [] (AnnotationValue.outlines "element" elements)

def AnnotationValue.outlines (role : String) : List AnnotationValue → List Outline
  | [] => []
  | value :: rest => value.outline role :: AnnotationValue.outlines role rest

end

def Param.outline (role : String) (param : Param) : Outline :=
  .node role "Param" param.span []
    (each Attachment.outline "annotation" param.attachments ++
      [param.type.outline "type", param.name.outline "name"])

def Returns.outlines : Returns → List Outline
  | .named results => each Param.outline "return_param" results
  | .types results => each TypeName.outline "return_type" results

def Signature.outline (role : String) (signature : Signature) : Outline :=
  .node role "Signature" signature.span []
    (signature.name.outline "name" :: each Param.outline "param" signature.params ++
      (signature.returns.map Returns.outlines).getD [])

def ResourceDef.outline (role : String) (definition : ResourceDef) : Outline :=
  .node role "Resource" definition.span []
    (each Attachment.outline "annotation" definition.attachments ++
      definition.name.outline "name" :: each Param.outline "param" definition.params ++
      [definition.body.outline "body"])

def ServiceDef.outline (role : String) (definition : ServiceDef) : Outline :=
  .node role "Service" definition.span []
    (each Attachment.outline "annotation" definition.attachments ++
      [definition.protocol.outline "protocol", definition.name.outline "name"] ++
      each VarDef.outline "variable" definition.varDefs ++
      each ResourceDef.outline "resource" definition.resources)

def CallableDef.outline (kind role : String) (definition : CallableDef) : Outline :=
  .node role kind definition.span [.flag definition.native]
    (each Attachment.outline "annotation" definition.attachments ++
      definition.signature.outline "signature" ::
        optional CallableBody.outline "body" definition.body)

def ConnectorDef.outline (role : String) (definition : ConnectorDef) : Outline :=
  .node role "Connector" definition.span []
    (each Attachment.outline "annotation" definition.attachments ++
      definition.name.outline "name" :: each Param.outline "param" definition.params ++
      each VarDef.outline "variable" definition.varDefs ++
      each (CallableDef.outline "Action") "action" definition.actions)

def FieldDef.outline (role : String) (definition : FieldDef) : Outline :=
  .node role "Field" definition.span []
    (definition.type.outline "type" :: definition.name.outline "name" ::
      optional Literal.outline "default" definition.default)

def StructDef.outline (role : String) (definition : StructDef) : Outline :=
  .node role "Struct" definition.span []
    (each Attachment.outline "annotation" definition.attachments ++
      definition.name.outline "name" :: each FieldDef.outline "field" definition.fields)

def AttachPoint.outline (role : String) (point : AttachPoint) : Outline :=
  leaf role "AttachPoint" point.span [.text point.target.text]

def AnnotationDef.outline (role : String) (definition : AnnotationDef) : Outline :=
  .node role "AnnotationDef" definition.span []
    (each Attachment.outline "annotation" definition.attachments ++
      definition.name.outline "name" ::
        each AttachPoint.outline "attach" definition.attachPoints ++
      each FieldDef.outline "field" definition.fields)

def TypeMapperDef.outline (role : String) (definition : TypeMapperDef) : Outline :=
  .node role "TypeMapper" definition.span [.flag definition.native]
    (each Attachment.outline "annotation" definition.attachments ++
      [definition.name.outline "name", definition.param.outline "param",
       definition.returnType.outline "return_type"] ++
      optional Block.outline "body" definition.body)

def ConstantDef.outline (role : String) (definition : ConstantDef) : Outline :=
  .node role "Constant" definition.span []
    (each Attachment.outline "annotation" definition.attachments ++
      [definition.type.outline "type", definition.name.outline "name",
       definition.value.outline "value"])

def GlobalVarDef.outline (role : String) (definition : GlobalVarDef) : Outline :=
  .node role "GlobalVar" definition.span []
    (each Attachment.outline "annotation" definition.attachments ++
      [definition.type.outline "type", definition.name.outline "name"] ++
      optional Expr.outline "init" definition.init)

def Definition.outline (role : String) : Definition → Outline
  | .service definition => definition.outline role
  | .function definition => definition.outline "Function" role
  | .connector definition => definition.outline role
  | .struct definition => definition.outline role
  | .typeMapper definition => definition.outline role
  | .constant definition => definition.outline role
  | .annotationDef definition => definition.outline role
  | .globalVar definition => definition.outline role
  | .broken span => leaf role "Error" span []

/-! ### Sources -/

def PackageDecl.outline (role : String) (declaration : PackageDecl) : Outline :=
  .node role "Package" declaration.span [] [declaration.name.outline "name"]

def ImportDecl.outline (role : String) (declaration : ImportDecl) : Outline :=
  .node role "Import" declaration.span []
    (declaration.package.outline "package" ::
      optional Identifier.outline "alias" declaration.localName)

def Directive.outline (role : String) : Directive → Outline
  | .importDecl declaration => declaration.outline role
  | .namespaceDecl declaration => declaration.outline role

def SourceUnit.outline (role : String) (unit : SourceUnit) : Outline :=
  .node role "CompilationUnit" unit.span []
    (optional PackageDecl.outline "package" unit.package ++
      each Directive.outline "directive" unit.directives ++
      each Definition.outline "item" unit.items)

end ServiceLang
