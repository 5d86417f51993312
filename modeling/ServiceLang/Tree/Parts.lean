import ServiceLang.Tree.Node

set_option autoImplicit false

/-! The nodes of a tree and where they stand. Each node has its parts, the nodes that its own
fields hold, field by field in the order of the fields. A place in a tree is a path from the
root: which part to take, then which part of that, and so on. -/

namespace ServiceLang

/-! ### Parts -/

/-- The parts of an expression. What is visited once more as what it is has that as its only
part. -/
def Expr.parts (expr : Expr) : List Node :=
  match expr with
  | .literal value => [.literal value]
  | .template _ _ => []
  | .array elements _ => elements.map .expr
  | .mapping entries _ => entries.flatMap fun entry => [.expr entry.key, .expr entry.value]
  | .reference target => [.reference target]
  | .call _ _ _ => [.exprForm .call expr]
  | .invoke _ _ _ _ => [.exprForm .invoke expr]
  | .create _ _ _ => [.exprForm .create expr]
  | .typeMember type _ _ => [.typeName type]
  | .cast _ _ _ => [.exprForm .cast expr]
  | .convert _ _ _ => [.exprForm .convert expr]
  | .unary _ _ _ => [.exprForm .unary expr]
  | .binary _ _ _ _ => [.exprForm .binary expr]
  | .paren inner _ => [.expr inner]

def Expr.formParts : Expr → List Node
  | .call _ arguments _ | .invoke _ _ arguments _ | .create _ arguments _ => arguments.map .expr
  | .cast target operand _ | .convert target operand _ => [.typeName target, .expr operand]
  | .unary _ operand _ => [.expr operand]
  | .binary _ left right _ => [.expr left, .expr right]
  | _ => []

def Reference.parts : Reference → List Node
  | .name _ => []
  | .index base position _ => [.reference base, .expr position]
  | .field base _ _ | .attributes base _ | .attributeNamed base _ _ => [.reference base]
  | .attributeAt base selector _ => [.reference base, .expr selector]

def TypeName.parts : TypeName → List Node
  | .mapOf constraint _ => [.typeName constraint]
  | .array element _ => [.typeName element]
  | _ => []

/-- The parts of a statement. What is visited once more as what it is has that as its only part;
a call or an invocation is then the expression that it would be elsewhere. -/
def Stmt.parts (statement : Stmt) : List Node :=
  match statement with
  | .varDef definition => [.varDef definition]
  | .assign _ _ _ _ => [.statementForm .assign statement]
  | .ifElse _ _ _ _ _ => [.statementForm .ifElse statement]
  | .iterate _ _ _ _ _ => [.statementForm .iterate statement]
  | .whileLoop _ _ _ => [.statementForm .whileLoop statement]
  | .continueLoop _ | .breakLoop _ | .abort _ => []
  | .forkJoin _ _ _ _ => [.statementForm .forkJoin statement]
  | .tryCatch _ _ _ _ => [.statementForm .tryCatch statement]
  | .throw value _ | .reply value _ => [.expr value]
  | .returns _ _ => [.statementForm .returns statement]
  | .send _ _ _ => [.statementForm .send statement]
  | .receive _ _ _ => [.statementForm .receive statement]
  | .comment text span => [.comment text span]
  | .invoke connector action arguments span =>
      [.exprForm .invoke (.invoke connector action arguments span)]
  | .call name arguments span => [.exprForm .call (.call name arguments span)]
  | .transform _ _ => [.statementForm .transform statement]
  | .transaction _ _ _ _ => [.statementForm .transaction statement]
  | .namespaceDecl declaration => [.namespaceDecl declaration]
  | .broken span => [.brokenStatement span]

def ElseIf.parts (branch : ElseIf) : List Node :=
  [.expr branch.condition, .block branch.block]

def Catch.parts (clause : Catch) : List Node :=
  [.typeName clause.type, .block clause.body]

def Join.parts (join : Join) : List Node :=
  [.typeName join.type, .block join.body]

def Timeout.parts (timeout : Timeout) : List Node :=
  [.expr timeout.timeout, .typeName timeout.type, .block timeout.body]

def Stmt.formParts : Stmt → List Node
  | .assign _ targets value _ => targets.map .reference ++ [.expr value]
  | .ifElse condition thenBlock elseIfs elseBlock _ =>
      .expr condition :: .block thenBlock :: elseIfs.flatMap ElseIf.parts ++
        elseBlock.toList.map .block
  | .iterate type _ collection body _ => [.typeName type, .expr collection, .block body]
  | .whileLoop condition body _ => [.expr condition, .block body]
  | .forkJoin workers join timeout _ =>
      workers.map .worker ++ join.toList.flatMap Join.parts ++ timeout.toList.flatMap Timeout.parts
  | .tryCatch body catches finallyBlock _ =>
      .block body :: catches.flatMap Catch.parts ++ finallyBlock.toList.map .block
  | .returns values _ | .send values _ _ | .receive values _ _ => values.map .expr
  | .transform body _ => [.block body]
  | .transaction body aborted committed _ =>
      .block body :: aborted.toList.map .block ++ committed.toList.map .block
  | _ => []

def AnnotationValue.parts : AnnotationValue → List Node
  | .literal value => [.literal value]
  | .attachment nested => [.attachment nested]
  | .array elements _ => elements.map .annotationValue

def Returns.parts : Returns → List Node
  | .named results => results.map .param
  | .types results => results.map .typeName

def CallableDef.parts (definition : CallableDef) : List Node :=
  definition.attachments.map .attachment ++ .signature definition.signature ::
    definition.body.toList.map .callableBody

def Definition.parts : Definition → List Node
  | .service definition => [.service definition]
  | .function definition => [.function definition]
  | .connector definition => [.connector definition]
  | .struct definition => [.struct definition]
  | .typeMapper definition => [.typeMapper definition]
  | .constant definition => [.constant definition]
  | .annotationDef definition => [.annotationDef definition]
  | .globalVar definition => [.globalVar definition]
  | .broken span => [.brokenItem span]

def Directive.parts : Directive → List Node
  | .importDecl declaration => [.importDecl declaration]
  | .namespaceDecl declaration => [.namespaceDecl declaration]

namespace Node

/-- The nodes that the fields of a node hold. -/
def parts : Node → List Node
  | unit here =>
      here.package.toList.map .package ++ here.directives.flatMap Directive.parts ++
        here.items.map .item
  | package _ | importDecl _ | namespaceDecl _ | brokenItem _ | comment _ _ | brokenStatement _
  | literal _ => []
  | item here => here.parts
  | service here =>
      here.attachments.map .attachment ++ here.varDefs.map .varDef ++ here.resources.map .resource
  | resource here =>
      here.attachments.map .attachment ++ here.params.map .param ++ [.callableBody here.body]
  | function here | action here => here.parts
  | connector here =>
      here.attachments.map .attachment ++ here.params.map .param ++ here.varDefs.map .varDef ++
        here.actions.map .action
  | struct here => here.attachments.map .attachment ++ here.fields.map .field
  | annotationDef here => here.attachments.map .attachment ++ here.fields.map .field
  | typeMapper here =>
      here.attachments.map .attachment ++ [.param here.param, .typeName here.returnType] ++
        here.body.toList.map .block
  | constant here => here.attachments.map .attachment ++ [.typeName here.type, .expr here.value]
  | globalVar here =>
      here.attachments.map .attachment ++ .typeName here.type :: here.init.toList.map .expr
  | signature here => here.params.map .param ++ (here.returns.map Returns.parts).getD []
  | param here => here.attachments.map .attachment ++ [.typeName here.type]
  | field here => .typeName here.type :: here.default.toList.map .literal
  | attachment here => here.attributes.map fun entry => .annotationValue entry.value
  | annotationValue here => here.parts
  | callableBody here => here.statements.map .statement ++ here.workers.map .worker
  | worker here => [.callableBody here.body]
  | block here => here.statements.map .statement
  | statement here => here.parts
  | varDef here => .typeName here.type :: here.init.toList.map .expr
  | statementForm _ here => here.formParts
  | expr here => here.parts
  | reference here => here.parts
  | exprForm _ here => here.formParts
  | typeName here => here.parts

/-- The node at a place of the tree below a node, if there is one. -/
def at? : Node → List Nat → Option Node
  | here, [] => some here
  | here, index :: path => here.parts[index]?.bind (·.at? path)

end Node

end ServiceLang
