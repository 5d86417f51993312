import ServiceLang.Tree.Stmt

set_option autoImplicit false

/-! Definitions, their annotations, and whole sources. -/

namespace ServiceLang

mutual

/-- An annotation put to a definition, parameter or member: a name, and
attributes in braces. -/
structure Attachment where
  name : NameReference
  attributes : List Attribute
  span : Span

structure Attribute where
  key : Identifier
  value : AnnotationValue
  span : Span

inductive AnnotationValue where
  | literal (value : Literal)
  | attachment (nested : Attachment)
  | array (elements : List AnnotationValue) (span : Span)

end

def AnnotationValue.span : AnnotationValue → Span
  | literal value => value.span
  | attachment nested => nested.span
  | array _ span => span

/-- The value of the first attribute with this key. -/
def Attachment.attribute? (attachment : Attachment) (key : String) : Option AnnotationValue :=
  (attachment.attributes.find? (fun entry => entry.key.name == key)).map Attribute.value

structure Param where
  attachments : List Attachment
  type : TypeName
  name : Identifier
  span : Span

inductive Returns where
  | named (results : List Param)
  | types (results : List TypeName)

namespace Returns

def length : Returns → Nat
  | named results => results.length
  | types results => results.length

def isEmpty (returns : Returns) : Bool :=
  returns.length == 0

end Returns

structure Signature where
  name : Identifier
  params : List Param
  returns : Option Returns
  span : Span

structure ResourceDef where
  attachments : List Attachment
  name : Identifier
  params : List Param
  body : CallableBody
  span : Span

structure ServiceDef where
  attachments : List Attachment
  protocol : Identifier
  name : Identifier
  varDefs : List VarDef
  resources : List ResourceDef
  span : Span

/-- A function or an action. A native one has no body. -/
structure CallableDef where
  attachments : List Attachment
  native : Bool
  signature : Signature
  body : Option CallableBody
  span : Span

structure ConnectorDef where
  attachments : List Attachment
  name : Identifier
  params : List Param
  varDefs : List VarDef
  actions : List CallableDef
  span : Span

structure FieldDef where
  type : TypeName
  name : Identifier
  default : Option Literal
  span : Span

structure StructDef where
  attachments : List Attachment
  name : Identifier
  fields : List FieldDef
  span : Span

inductive AttachTarget where
  | service | resource | function | connector | action | typeMapper | struct | constant
  | parameter | annotationDef
deriving DecidableEq, Repr

namespace AttachTarget

def keyword : AttachTarget → Keyword
  | service => .serviceKw
  | resource => .resourceKw
  | function => .functionKw
  | connector => .connectorKw
  | action => .actionKw
  | typeMapper => .typemapperKw
  | struct => .structKw
  | constant => .constKw
  | parameter => .parameterKw
  | annotationDef => .annotationKw

def all : List AttachTarget :=
  [service, resource, function, connector, action, typeMapper, struct, constant, parameter,
   annotationDef]

def text (target : AttachTarget) : String :=
  target.keyword.text

def ofKind? (kind : Kind) : Option AttachTarget :=
  all.find? (fun target => .keyword target.keyword == kind)

end AttachTarget

structure AttachPoint where
  target : AttachTarget
  span : Span
deriving DecidableEq, Repr

structure AnnotationDef where
  attachments : List Attachment
  name : Identifier
  attachPoints : List AttachPoint
  fields : List FieldDef
  span : Span

structure TypeMapperDef where
  attachments : List Attachment
  native : Bool
  name : Identifier
  param : Param
  returnType : TypeName
  body : Option Block
  span : Span

structure ConstantDef where
  attachments : List Attachment
  type : TypeName
  name : Identifier
  value : Expr
  span : Span

structure GlobalVarDef where
  attachments : List Attachment
  type : TypeName
  name : Identifier
  init : Option Expr
  span : Span

inductive Definition where
  | service (definition : ServiceDef)
  | function (definition : CallableDef)
  | connector (definition : ConnectorDef)
  | struct (definition : StructDef)
  | typeMapper (definition : TypeMapperDef)
  | constant (definition : ConstantDef)
  | annotationDef (definition : AnnotationDef)
  | globalVar (definition : GlobalVarDef)
  /-- The tokens that were skipped to get past an error. -/
  | broken (span : Span)

namespace Definition

def span : Definition → Span
  | service definition => definition.span
  | function definition => definition.span
  | connector definition => definition.span
  | struct definition => definition.span
  | typeMapper definition => definition.span
  | constant definition => definition.span
  | annotationDef definition => definition.span
  | globalVar definition => definition.span
  | broken span => span

def name? : Definition → Option Identifier
  | service definition => some definition.name
  | function definition => some definition.signature.name
  | connector definition => some definition.name
  | struct definition => some definition.name
  | typeMapper definition => some definition.name
  | constant definition => some definition.name
  | annotationDef definition => some definition.name
  | globalVar definition => some definition.name
  | broken _ => none

def attachments : Definition → List Attachment
  | service definition => definition.attachments
  | function definition => definition.attachments
  | connector definition => definition.attachments
  | struct definition => definition.attachments
  | typeMapper definition => definition.attachments
  | constant definition => definition.attachments
  | annotationDef definition => definition.attachments
  | globalVar definition => definition.attachments
  | broken _ => []

end Definition

structure PackageDecl where
  name : PackageName
  span : Span
deriving DecidableEq, Repr

structure ImportDecl where
  package : PackageName
  localName : Option Identifier
  span : Span
deriving DecidableEq, Repr

/-- The name by which the package is used: its alias, or else its last
segment. -/
def ImportDecl.effectiveAlias? (declaration : ImportDecl) : Option String :=
  (declaration.localName <|> declaration.package.last?).map Identifier.name

inductive Directive where
  | importDecl (declaration : ImportDecl)
  | namespaceDecl (declaration : NamespaceDecl)
deriving DecidableEq, Repr

def Directive.span : Directive → Span
  | importDecl declaration => declaration.span
  | namespaceDecl declaration => declaration.span

structure SourceUnit where
  package : Option PackageDecl
  directives : List Directive
  items : List Definition
  span : Span

def SourceUnit.imports (unit : SourceUnit) : List ImportDecl :=
  unit.directives.filterMap fun
    | .importDecl declaration => some declaration
    | .namespaceDecl _ => none

end ServiceLang
