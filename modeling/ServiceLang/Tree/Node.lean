import ServiceLang.Tree.Definition

set_option autoImplicit false

/-! The nodes of a tree that are visited, and the names under which that is told. Names,
markers, attribute keys and the bindings of clauses are not visited. -/

namespace ServiceLang

/-- The statements that are visited once more as what they are. -/
inductive StmtForm where
  | assign | ifElse | iterate | whileLoop | forkJoin | tryCatch | returns | send | receive
  | transform | transaction
deriving DecidableEq, Repr

namespace StmtForm

def visitName : StmtForm → String
  | assign => "assign_stmt"
  | ifElse => "if_stmt"
  | iterate => "iterate_stmt"
  | whileLoop => "while_stmt"
  | forkJoin => "fork_join_stmt"
  | tryCatch => "try_catch_stmt"
  | returns => "return_stmt"
  | send => "worker_send_stmt"
  | receive => "worker_receive_stmt"
  | transform => "transform_stmt"
  | transaction => "transaction_stmt"

end StmtForm

/-- The expressions that are visited once more as what they are. A call or an
invocation is also visited so where it is a statement. -/
inductive ExprForm where
  | call | invoke | create | cast | convert | unary | binary
deriving DecidableEq, Repr

namespace ExprForm

def visitName : ExprForm → String
  | call => "function_call"
  | invoke => "action_invocation"
  | create => "connector_init"
  | cast => "cast"
  | convert => "conversion"
  | unary => "unary"
  | binary => "binary"

end ExprForm

/-- A visited node. A statement or expression is visited as such first, and most
are then visited once more as what they are. -/
inductive Node where
  | unit (unit : SourceUnit)
  | package (declaration : PackageDecl)
  | importDecl (declaration : ImportDecl)
  | namespaceDecl (declaration : NamespaceDecl)
  | item (definition : Definition)
  | service (definition : ServiceDef)
  | resource (definition : ResourceDef)
  | function (definition : CallableDef)
  | connector (definition : ConnectorDef)
  | action (definition : CallableDef)
  | struct (definition : StructDef)
  | annotationDef (definition : AnnotationDef)
  | typeMapper (definition : TypeMapperDef)
  | constant (definition : ConstantDef)
  | globalVar (definition : GlobalVarDef)
  | brokenItem (span : Span)
  | signature (signature : Signature)
  | param (param : Param)
  | field (definition : FieldDef)
  | attachment (attachment : Attachment)
  | annotationValue (value : AnnotationValue)
  | callableBody (body : CallableBody)
  | worker (worker : Worker)
  | block (block : Block)
  | statement (statement : Stmt)
  | varDef (definition : VarDef)
  | statementForm (form : StmtForm) (statement : Stmt)
  | comment (text : String) (span : Span)
  | brokenStatement (span : Span)
  | expr (expr : Expr)
  | literal (literal : Literal)
  | reference (reference : Reference)
  | exprForm (form : ExprForm) (expr : Expr)
  | typeName (type : TypeName)

namespace Node

def span : Node → Span
  | unit here => here.span
  | package here => here.span
  | importDecl here => here.span
  | namespaceDecl here => here.span
  | item here => here.span
  | service here => here.span
  | resource here => here.span
  | function here => here.span
  | connector here => here.span
  | action here => here.span
  | struct here => here.span
  | annotationDef here => here.span
  | typeMapper here => here.span
  | constant here => here.span
  | globalVar here => here.span
  | brokenItem span => span
  | signature here => here.span
  | param here => here.span
  | field here => here.span
  | attachment here => here.span
  | annotationValue here => here.span
  | callableBody here => here.span
  | worker here => here.span
  | block here => here.span
  | statement here => here.span
  | varDef here => here.span
  | statementForm _ here => here.span
  | comment _ span => span
  | brokenStatement span => span
  | expr here => here.span
  | literal here => here.span
  | reference here => here.span
  | exprForm _ here => here.span
  | typeName here => here.span

def visitName : Node → String
  | unit _ => "compilation_unit"
  | package _ => "package_decl"
  | importDecl _ => "import_decl"
  | namespaceDecl _ => "namespace_decl"
  | item _ => "item"
  | service _ => "service_def"
  | resource _ => "resource_def"
  | function _ => "function_def"
  | connector _ => "connector_def"
  | action _ => "action_def"
  | struct _ => "struct_def"
  | annotationDef _ => "annotation_def"
  | typeMapper _ => "type_mapper_def"
  | constant _ => "constant_def"
  | globalVar _ => "global_var_def"
  | brokenItem _ => "error_item"
  | signature _ => "signature"
  | param _ => "param"
  | field _ => "field_def"
  | attachment _ => "annotation_attachment"
  | annotationValue _ => "annotation_value"
  | callableBody _ => "callable_body"
  | worker _ => "worker_decl"
  | block _ => "block"
  | statement _ => "stmt"
  | varDef _ => "var_def_stmt"
  | statementForm form _ => form.visitName
  | comment _ _ => "comment_stmt"
  | brokenStatement _ => "error_stmt"
  | expr _ => "expr"
  | literal _ => "literal"
  | reference _ => "var_ref"
  | exprForm form _ => form.visitName
  | typeName _ => "type_name"

end Node

end ServiceLang
