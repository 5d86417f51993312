import ServiceLang.Tree.Node

set_option autoImplicit false

/-! The walk over a tree: which nodes are visited, in which order, and which
lie below which. A chain of references is visited from its last suffix inwards. A visitor has a
method for every kind of node, which walks on or ends the walk there. A listener has two calls for
each of fewer kinds, and one visitor makes these calls. -/

namespace ServiceLang

/-- A visited node with the walks over what lies below it. -/
inductive Walk where
  | node (here : Node) (below : List Walk)

def Walk.ofExpr (form : ExprForm) (here : Expr) (below : List Walk) : Walk :=
  .node (.expr here) [.node (.exprForm form here) below]

def Walk.ofStmt (form : StmtForm) (here : Stmt) (below : List Walk) : Walk :=
  .node (.statement here) [.node (.statementForm form here) below]

/-! ### Types and expressions -/

def TypeName.walk : TypeName → Walk
  | .array element span => .node (.typeName (.array element span)) [element.walk]
  | .mapOf constraint span => .node (.typeName (.mapOf constraint span)) [constraint.walk]
  | type => .node (.typeName type) []

def Literal.walk (literal : Literal) : Walk :=
  .node (.literal literal) []

mutual

def Expr.walk : Expr → Walk
  | .literal value => .node (.expr (.literal value)) [value.walk]
  | .template text span => .node (.expr (.template text span)) []
  | .array elements span => .node (.expr (.array elements span)) (Expr.walks elements)
  | .mapping entries span => .node (.expr (.mapping entries span)) (MapEntry.walks entries)
  | .reference target => .node (.expr (.reference target)) [target.walk]
  | .call name arguments span =>
      .ofExpr .call (.call name arguments span) (Expr.walks arguments)
  | .invoke connector action arguments span =>
      .ofExpr .invoke (.invoke connector action arguments span) (Expr.walks arguments)
  | .create connector arguments span =>
      .ofExpr .create (.create connector arguments span) (Expr.walks arguments)
  | .typeMember type member span => .node (.expr (.typeMember type member span)) [type.walk]
  | .cast target operand span =>
      .ofExpr .cast (.cast target operand span) [target.walk, operand.walk]
  | .convert target operand span =>
      .ofExpr .convert (.convert target operand span) [target.walk, operand.walk]
  | .unary operator operand span =>
      .ofExpr .unary (.unary operator operand span) [operand.walk]
  | .binary operator left right span =>
      .ofExpr .binary (.binary operator left right span) [left.walk, right.walk]
  | .paren inner span => .node (.expr (.paren inner span)) [inner.walk]

def Expr.walks : List Expr → List Walk
  | [] => []
  | expr :: rest => expr.walk :: Expr.walks rest

def MapEntry.walks : List MapEntry → List Walk
  | [] => []
  | ⟨key, value, _⟩ :: rest => key.walk :: value.walk :: MapEntry.walks rest

def Reference.walk : Reference → Walk
  | .name name => .node (.reference (.name name)) []
  | .index base position span =>
      .node (.reference (.index base position span)) [base.walk, position.walk]
  | .field base member span => .node (.reference (.field base member span)) [base.walk]
  | .attributes base span => .node (.reference (.attributes base span)) [base.walk]
  | .attributeNamed base name span =>
      .node (.reference (.attributeNamed base name span)) [base.walk]
  | .attributeAt base selector span =>
      .node (.reference (.attributeAt base selector span)) [base.walk, selector.walk]

end

/-! ### Statements -/

def VarDef.walk (definition : VarDef) : Walk :=
  .node (.varDef definition)
    (definition.type.walk :: definition.init.toList.map Expr.walk)

def NamespaceDecl.walk (declaration : NamespaceDecl) : Walk :=
  .node (.namespaceDecl declaration) []

mutual

def Stmt.walk : Stmt → Walk
  | .varDef definition => .node (.statement (.varDef definition)) [definition.walk]
  | .assign declares targets value span =>
      .ofStmt .assign (.assign declares targets value span)
        (targets.map Reference.walk ++ [value.walk])
  | .ifElse condition thenBlock elseIfs elseBlock span =>
      .ofStmt .ifElse (.ifElse condition thenBlock elseIfs elseBlock span)
        (condition.walk :: thenBlock.walk :: ElseIf.walks elseIfs ++
          Block.optionalWalks elseBlock)
  | .iterate type name collection body span =>
      .ofStmt .iterate (.iterate type name collection body span)
        [type.walk, collection.walk, body.walk]
  | .whileLoop condition body span =>
      .ofStmt .whileLoop (.whileLoop condition body span) [condition.walk, body.walk]
  | .continueLoop span => .node (.statement (.continueLoop span)) []
  | .breakLoop span => .node (.statement (.breakLoop span)) []
  | .abort span => .node (.statement (.abort span)) []
  | .forkJoin workers join timeout span =>
      .ofStmt .forkJoin (.forkJoin workers join timeout span)
        (Worker.walks workers ++ Join.optionalWalks join ++ Timeout.optionalWalks timeout)
  | .tryCatch body catches finallyBlock span =>
      .ofStmt .tryCatch (.tryCatch body catches finallyBlock span)
        (body.walk :: Catch.walks catches ++ Block.optionalWalks finallyBlock)
  | .throw value span => .node (.statement (.throw value span)) [value.walk]
  | .reply value span => .node (.statement (.reply value span)) [value.walk]
  | .returns values span => .ofStmt .returns (.returns values span) (values.map Expr.walk)
  | .send values target span =>
      .ofStmt .send (.send values target span) (values.map Expr.walk)
  | .receive targets worker span =>
      .ofStmt .receive (.receive targets worker span) (targets.map Expr.walk)
  | .comment text span => .node (.statement (.comment text span)) [.node (.comment text span) []]
  | .invoke connector action arguments span =>
      .node (.statement (.invoke connector action arguments span))
        [.node (.exprForm .invoke (.invoke connector action arguments span))
          (arguments.map Expr.walk)]
  | .call name arguments span =>
      .node (.statement (.call name arguments span))
        [.node (.exprForm .call (.call name arguments span)) (arguments.map Expr.walk)]
  | .transform body span => .ofStmt .transform (.transform body span) [body.walk]
  | .transaction body aborted committed span =>
      .ofStmt .transaction (.transaction body aborted committed span)
        (body.walk :: Block.optionalWalks aborted ++ Block.optionalWalks committed)
  | .namespaceDecl declaration =>
      .node (.statement (.namespaceDecl declaration)) [declaration.walk]
  | .broken span => .node (.statement (.broken span)) [.node (.brokenStatement span) []]

def Stmt.walks : List Stmt → List Walk
  | [] => []
  | statement :: rest => statement.walk :: Stmt.walks rest

def Block.walk : Block → Walk
  | ⟨statements, close, span⟩ =>
      .node (.block ⟨statements, close, span⟩) (Stmt.walks statements)

def Block.optionalWalks : Option Block → List Walk
  | some block => [block.walk]
  | none => []

def CallableBody.walk : CallableBody → Walk
  | ⟨statements, workers, close, span⟩ =>
      .node (.callableBody ⟨statements, workers, close, span⟩)
        (Stmt.walks statements ++ Worker.walks workers)

def Worker.walk : Worker → Walk
  | ⟨name, body, span⟩ => .node (.worker ⟨name, body, span⟩) [body.walk]

def Worker.walks : List Worker → List Walk
  | [] => []
  | worker :: rest => worker.walk :: Worker.walks rest

def ElseIf.walks : List ElseIf → List Walk
  | [] => []
  | ⟨condition, block, _⟩ :: rest => condition.walk :: block.walk :: ElseIf.walks rest

def Join.optionalWalks : Option Join → List Walk
  | some ⟨_, type, _, body, _⟩ => [type.walk, body.walk]
  | none => []

def Timeout.optionalWalks : Option Timeout → List Walk
  | some ⟨timeout, type, _, body, _⟩ => [timeout.walk, type.walk, body.walk]
  | none => []

def Catch.walks : List Catch → List Walk
  | [] => []
  | ⟨type, _, body, _⟩ :: rest => type.walk :: body.walk :: Catch.walks rest

end

/-! ### Definitions -/

mutual

def Attachment.walk : Attachment → Walk
  | ⟨name, attributes, span⟩ =>
      .node (.attachment ⟨name, attributes, span⟩) (Attribute.walks attributes)

def Attribute.walks : List Attribute → List Walk
  | [] => []
  | ⟨_, value, _⟩ :: rest => value.walk :: Attribute.walks rest

def AnnotationValue.walk : AnnotationValue → Walk
  | .literal value => .node (.annotationValue (.literal value)) [value.walk]
  | .attachment nested => .node (.annotationValue (.attachment nested)) [nested.walk]
  | .array elements span =>
      .node (.annotationValue (.array elements span)) (AnnotationValue.walks elements)

def AnnotationValue.walks : List AnnotationValue → List Walk
  | [] => []
  | value :: rest => value.walk :: AnnotationValue.walks rest

end

def Param.walk (param : Param) : Walk :=
  .node (.param param) (param.attachments.map Attachment.walk ++ [param.type.walk])

def Returns.walks : Returns → List Walk
  | .named results => results.map Param.walk
  | .types results => results.map TypeName.walk

def Signature.walk (signature : Signature) : Walk :=
  .node (.signature signature)
    (signature.params.map Param.walk ++ (signature.returns.map Returns.walks).getD [])

def ResourceDef.walk (definition : ResourceDef) : Walk :=
  .node (.resource definition)
    (definition.attachments.map Attachment.walk ++ definition.params.map Param.walk ++
      [definition.body.walk])

def ServiceDef.walk (definition : ServiceDef) : Walk :=
  .node (.service definition)
    (definition.attachments.map Attachment.walk ++ definition.varDefs.map VarDef.walk ++
      definition.resources.map ResourceDef.walk)

def CallableDef.below (definition : CallableDef) : List Walk :=
  definition.attachments.map Attachment.walk ++ definition.signature.walk ::
    definition.body.toList.map CallableBody.walk

def ConnectorDef.walk (definition : ConnectorDef) : Walk :=
  .node (.connector definition)
    (definition.attachments.map Attachment.walk ++ definition.params.map Param.walk ++
      definition.varDefs.map VarDef.walk ++
      definition.actions.map (fun action => .node (.action action) action.below))

def FieldDef.walk (definition : FieldDef) : Walk :=
  .node (.field definition)
    (definition.type.walk :: definition.default.toList.map Literal.walk)

def StructDef.walk (definition : StructDef) : Walk :=
  .node (.struct definition)
    (definition.attachments.map Attachment.walk ++ definition.fields.map FieldDef.walk)

def AnnotationDef.walk (definition : AnnotationDef) : Walk :=
  .node (.annotationDef definition)
    (definition.attachments.map Attachment.walk ++ definition.fields.map FieldDef.walk)

def TypeMapperDef.walk (definition : TypeMapperDef) : Walk :=
  .node (.typeMapper definition)
    (definition.attachments.map Attachment.walk ++
      [definition.param.walk, definition.returnType.walk] ++
      definition.body.toList.map Block.walk)

def ConstantDef.walk (definition : ConstantDef) : Walk :=
  .node (.constant definition)
    (definition.attachments.map Attachment.walk ++
      [definition.type.walk, definition.value.walk])

def GlobalVarDef.walk (definition : GlobalVarDef) : Walk :=
  .node (.globalVar definition)
    (definition.attachments.map Attachment.walk ++ definition.type.walk ::
      definition.init.toList.map Expr.walk)

def Definition.walk (definition : Definition) : Walk :=
  .node (.item definition)
    [match definition with
      | .service definition => definition.walk
      | .function definition => .node (.function definition) definition.below
      | .connector definition => definition.walk
      | .struct definition => definition.walk
      | .typeMapper definition => definition.walk
      | .constant definition => definition.walk
      | .annotationDef definition => definition.walk
      | .globalVar definition => definition.walk
      | .broken span => .node (.brokenItem span) []]

/-! ### Sources -/

def Directive.walk : Directive → Walk
  | .importDecl declaration => .node (.importDecl declaration) []
  | .namespaceDecl declaration => declaration.walk

def SourceUnit.walk (unit : SourceUnit) : Walk :=
  .node (.unit unit)
    (unit.package.toList.map (fun declaration => .node (.package declaration) []) ++
      unit.directives.map Directive.walk ++ unit.items.map Definition.walk)

/-! ### Following a walk -/

namespace Walk

mutual

/-- The nodes in the order in which they are visited. Below a node that is not
descended into, none is. -/
def visits (descends : Node → Bool) : Walk → List Node
  | node here below => here :: if descends here then visitsAll descends below else []

def visitsAll (descends : Node → Bool) : List Walk → List Node
  | [] => []
  | walk :: rest => walk.visits descends ++ visitsAll descends rest

end

end Walk

/-! ### Visitors -/

/-- A method of a visitor: from its subject and from what walking on below the subject gives it
makes what the visit gives. A method that does not use the second does not walk on. -/
abbrev Visit (subject result : Type) : Type :=
  subject → List result → List result

namespace Visit

variable {subject result : Type}

def walkOn : Visit subject result :=
  fun _ below => below

def stop : Visit subject result :=
  fun _ _ => []

end Visit

/-- The methods of a visitor. Each stands here with what it does where a visitor does not have
its own. -/
structure Visitor (result : Type) where
  unit : Visit SourceUnit result := .walkOn
  package : Visit PackageDecl result := .stop
  importDecl : Visit ImportDecl result := .stop
  namespaceDecl : Visit NamespaceDecl result := .stop
  item : Visit Definition result := .walkOn
  service : Visit ServiceDef result := .walkOn
  resource : Visit ResourceDef result := .walkOn
  function : Visit CallableDef result := .walkOn
  connector : Visit ConnectorDef result := .walkOn
  action : Visit CallableDef result := .walkOn
  struct : Visit StructDef result := .walkOn
  annotationDef : Visit AnnotationDef result := .walkOn
  typeMapper : Visit TypeMapperDef result := .walkOn
  constant : Visit ConstantDef result := .walkOn
  globalVar : Visit GlobalVarDef result := .walkOn
  brokenItem : Visit Span result := .stop
  signature : Visit Signature result := .walkOn
  param : Visit Param result := .walkOn
  field : Visit FieldDef result := .walkOn
  attachment : Visit Attachment result := .walkOn
  annotationValue : Visit AnnotationValue result := .walkOn
  callableBody : Visit CallableBody result := .walkOn
  worker : Visit Worker result := .walkOn
  block : Visit Block result := .walkOn
  statement : Visit Stmt result := .walkOn
  varDef : Visit VarDef result := .walkOn
  assign : Visit Stmt result := .walkOn
  ifElse : Visit Stmt result := .walkOn
  iterate : Visit Stmt result := .walkOn
  whileLoop : Visit Stmt result := .walkOn
  forkJoin : Visit Stmt result := .walkOn
  tryCatch : Visit Stmt result := .walkOn
  returns : Visit Stmt result := .walkOn
  send : Visit Stmt result := .walkOn
  receive : Visit Stmt result := .walkOn
  transform : Visit Stmt result := .walkOn
  transaction : Visit Stmt result := .walkOn
  /-- A comment with its text and span. -/
  comment : Visit (String × Span) result := .stop
  brokenStatement : Visit Span result := .stop
  expr : Visit Expr result := .walkOn
  literal : Visit Literal result := .stop
  reference : Visit Reference result := .walkOn
  call : Visit Expr result := .walkOn
  invoke : Visit Expr result := .walkOn
  create : Visit Expr result := .walkOn
  cast : Visit Expr result := .walkOn
  convert : Visit Expr result := .walkOn
  unary : Visit Expr result := .walkOn
  binary : Visit Expr result := .walkOn
  typeName : Visit TypeName result := .walkOn

namespace Visitor

variable {result : Type} (visitor : Visitor result)

def visitStmt : StmtForm → Visit Stmt result
  | .assign => visitor.assign
  | .ifElse => visitor.ifElse
  | .iterate => visitor.iterate
  | .whileLoop => visitor.whileLoop
  | .forkJoin => visitor.forkJoin
  | .tryCatch => visitor.tryCatch
  | .returns => visitor.returns
  | .send => visitor.send
  | .receive => visitor.receive
  | .transform => visitor.transform
  | .transaction => visitor.transaction

def visitExpr : ExprForm → Visit Expr result
  | .call => visitor.call
  | .invoke => visitor.invoke
  | .create => visitor.create
  | .cast => visitor.cast
  | .convert => visitor.convert
  | .unary => visitor.unary
  | .binary => visitor.binary

def visit : Visit Node result
  | .unit here => visitor.unit here
  | .package here => visitor.package here
  | .importDecl here => visitor.importDecl here
  | .namespaceDecl here => visitor.namespaceDecl here
  | .item here => visitor.item here
  | .service here => visitor.service here
  | .resource here => visitor.resource here
  | .function here => visitor.function here
  | .connector here => visitor.connector here
  | .action here => visitor.action here
  | .struct here => visitor.struct here
  | .annotationDef here => visitor.annotationDef here
  | .typeMapper here => visitor.typeMapper here
  | .constant here => visitor.constant here
  | .globalVar here => visitor.globalVar here
  | .brokenItem span => visitor.brokenItem span
  | .signature here => visitor.signature here
  | .param here => visitor.param here
  | .field here => visitor.field here
  | .attachment here => visitor.attachment here
  | .annotationValue here => visitor.annotationValue here
  | .callableBody here => visitor.callableBody here
  | .worker here => visitor.worker here
  | .block here => visitor.block here
  | .statement here => visitor.statement here
  | .varDef here => visitor.varDef here
  | .statementForm form here => visitor.visitStmt form here
  | .comment text span => visitor.comment (text, span)
  | .brokenStatement span => visitor.brokenStatement span
  | .expr here => visitor.expr here
  | .literal here => visitor.literal here
  | .reference here => visitor.reference here
  | .exprForm form here => visitor.visitExpr form here
  | .typeName here => visitor.typeName here

end Visitor

namespace Walk

variable {result : Type}

mutual

def run (visitor : Visitor result) : Walk → List result
  | node here below => visitor.visit here (runAll visitor below)

def runAll (visitor : Visitor result) : List Walk → List result
  | [] => []
  | walk :: rest => walk.run visitor ++ runAll visitor rest

end

mutual

/-- The nodes that a visitor is called with which has no methods of its own, in the order of the
calls. -/
def calls : Walk → List Node
  | node here below => here :: ({} : Visitor Node).visit here (callsAll below)

def callsAll : List Walk → List Node
  | [] => []
  | walk :: rest => walk.calls ++ callsAll rest

end

end Walk

/-! ### Listeners -/

inductive Passage where
  | enter (node : Node)
  | leave (node : Node)

/-- What a listener has a call for on the way in and one for on the way out. -/
inductive Callback where
  | unit | package | importDecl | namespaceDecl | service | resource | function | connector
  | action | struct | annotationDef | typeMapper | constant | globalVar | attachment | param
  | callableBody | worker | block | statement | comment | expr | reference | typeName
deriving DecidableEq, Repr

def Callback.name : Callback → String
  | unit => "compilation_unit"
  | package => "package"
  | importDecl => "import"
  | namespaceDecl => "namespace"
  | service => "service"
  | resource => "resource"
  | function => "function"
  | connector => "connector"
  | action => "action"
  | struct => "struct"
  | annotationDef => "annotation_def"
  | typeMapper => "type_mapper"
  | constant => "constant"
  | globalVar => "global_var"
  | attachment => "annotation_attachment"
  | param => "parameter"
  | callableBody => "callable_body"
  | worker => "worker"
  | block => "block"
  | statement => "statement"
  | comment => "comment"
  | expr => "expression"
  | reference => "variable_reference"
  | typeName => "type_name"

namespace Node

def callback? : Node → Option Callback
  | unit _ => some .unit
  | package _ => some .package
  | importDecl _ => some .importDecl
  | namespaceDecl _ => some .namespaceDecl
  | service _ => some .service
  | resource _ => some .resource
  | function _ => some .function
  | connector _ => some .connector
  | action _ => some .action
  | struct _ => some .struct
  | annotationDef _ => some .annotationDef
  | typeMapper _ => some .typeMapper
  | constant _ => some .constant
  | globalVar _ => some .globalVar
  | attachment _ => some .attachment
  | param _ => some .param
  | callableBody _ => some .callableBody
  | worker _ => some .worker
  | block _ => some .block
  | statement _ => some .statement
  | comment _ _ => some .comment
  | expr _ => some .expr
  | reference _ => some .reference
  | typeName _ => some .typeName
  | item _ | brokenItem _ | signature _ | field _ | annotationValue _ | varDef _
  | statementForm _ _ | brokenStatement _ | literal _ | exprForm _ _ => none

def listenName? (node : Node) : Option String :=
  node.callback?.map Callback.name

def isTold (node : Node) : Bool :=
  node.callback?.isSome

end Node

/-- The visitor that makes the calls of a listener. Its methods enter their subject, walk on and
leave the subject, but for the four whose subjects have nothing below them, which do not walk. -/
def listenerWalker : Visitor Passage where
  unit here below := .enter (.unit here) :: below ++ [.leave (.unit here)]
  package here _ := [.enter (.package here), .leave (.package here)]
  importDecl here _ := [.enter (.importDecl here), .leave (.importDecl here)]
  namespaceDecl here _ := [.enter (.namespaceDecl here), .leave (.namespaceDecl here)]
  service here below := .enter (.service here) :: below ++ [.leave (.service here)]
  resource here below := .enter (.resource here) :: below ++ [.leave (.resource here)]
  function here below := .enter (.function here) :: below ++ [.leave (.function here)]
  connector here below := .enter (.connector here) :: below ++ [.leave (.connector here)]
  action here below := .enter (.action here) :: below ++ [.leave (.action here)]
  struct here below := .enter (.struct here) :: below ++ [.leave (.struct here)]
  annotationDef here below :=
    .enter (.annotationDef here) :: below ++ [.leave (.annotationDef here)]
  typeMapper here below := .enter (.typeMapper here) :: below ++ [.leave (.typeMapper here)]
  constant here below := .enter (.constant here) :: below ++ [.leave (.constant here)]
  globalVar here below := .enter (.globalVar here) :: below ++ [.leave (.globalVar here)]
  attachment here below := .enter (.attachment here) :: below ++ [.leave (.attachment here)]
  param here below := .enter (.param here) :: below ++ [.leave (.param here)]
  callableBody here below :=
    .enter (.callableBody here) :: below ++ [.leave (.callableBody here)]
  worker here below := .enter (.worker here) :: below ++ [.leave (.worker here)]
  block here below := .enter (.block here) :: below ++ [.leave (.block here)]
  statement here below := .enter (.statement here) :: below ++ [.leave (.statement here)]
  comment here _ := [.enter (.comment here.1 here.2), .leave (.comment here.1 here.2)]
  expr here below := .enter (.expr here) :: below ++ [.leave (.expr here)]
  reference here below := .enter (.reference here) :: below ++ [.leave (.reference here)]
  typeName here below := .enter (.typeName here) :: below ++ [.leave (.typeName here)]

def Walk.heard (walk : Walk) : List Passage :=
  walk.run listenerWalker

end ServiceLang
