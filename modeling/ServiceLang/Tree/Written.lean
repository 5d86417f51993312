import ServiceLang.Token
import ServiceLang.Tree.Definition

set_option autoImplicit false

/-! Trees written back as words, in the order in which their parts are read. Where
that order is free one is chosen: variables before resources and actions, statements
before workers, `aborted` before `committed`, and `some` for a counted join. Comments
are not written. An invalid token stands for what was skipped, and for a closing brace
that was only assumed. -/

namespace ServiceLang

structure Word where
  kind : Kind
  text : String
deriving DecidableEq, Repr

namespace Word

def symbol (sign : Symbol) : Word :=
  ⟨.symbol sign, sign.text⟩

def keyword (word : Keyword) : Word :=
  ⟨.keyword word, word.text⟩

def name (identifier : Identifier) : Word :=
  ⟨.identifier, identifier.name⟩

def string (text : String) : Word :=
  ⟨.string, text⟩

def boolean (value : Bool) : Word :=
  ⟨.boolean, if value then "true" else "false"⟩

def null : Word :=
  ⟨.null, "null"⟩

def invalid : Word :=
  ⟨.invalid, ""⟩

def listed : List (List Word) → List Word
  | [] => []
  | first :: others => first ++ others.flatMap (fun part => Word.symbol .comma :: part)

def inParens (words : List Word) : List Word :=
  symbol .leftParen :: words ++ [symbol .rightParen]

def inBraces (words : List Word) : List Word :=
  symbol .leftBrace :: words ++ [symbol .rightBrace]

def inBrackets (words : List Word) : List Word :=
  symbol .leftBracket :: words ++ [symbol .rightBracket]

def inAngles (words : List Word) : List Word :=
  symbol .less :: words ++ [symbol .greater]

/-- A part that may be missing, with words in front of it. -/
def behind {α : Type} (front : List Word) (written : α → List Word) : Option α → List Word
  | some part => front ++ written part
  | none => []

end Word

open Word (listed inParens inBraces inBrackets inAngles behind)

/-! ### Names and types -/

def NameReference.written (reference : NameReference) : List Word :=
  match reference.package with
  | some package => [.name package, .symbol .colon, .name reference.name]
  | none => [.name reference.name]

def PackageName.written (package : PackageName) : List Word :=
  match package.segments with
  | [] => []
  | first :: others => .name first :: others.flatMap (fun segment => [.symbol .dot, .name segment])

def ValueType.keyword : ValueType → Keyword
  | .boolean => .booleanKw
  | .int => .intKw
  | .float => .floatKw
  | .string => .stringKw
  | .blob => .blobKw

def XmlConstraint.written (constraint : XmlConstraint) : List Word :=
  inAngles (behind [] (fun uri => inBraces [.string uri]) constraint.uri ++
    [.name constraint.element])

def SchemaReference.written (schema : SchemaReference) : List Word :=
  inAngles (inBraces [.string schema.location])

@[simp]
def TypeName.written : TypeName → List Word
  | .any _ => [.keyword .anyKw]
  | .value type _ => [.keyword type.keyword]
  | .message _ => [.keyword .messageKw]
  | .datatable _ => [.keyword .datatableKw]
  | .map _ => [.keyword .mapKw]
  | .mapOf constraint _ => .keyword .mapKw :: inAngles constraint.written
  | .xml constraint _ => .keyword .xmlKw :: behind [] XmlConstraint.written constraint
  | .xmlDocument constraint _ =>
      .keyword .xmlDocumentKw :: behind [] XmlConstraint.written constraint
  | .json schema _ => .keyword .jsonKw :: behind [] SchemaReference.written schema
  | .named reference _ => reference.written
  | .array element _ => element.written ++ [.symbol .leftBracket, .symbol .rightBracket]

theorem TypeName.written_ne_nil (type : TypeName) : type.written ≠ [] := by
  cases type with
  | named reference _ =>
      obtain ⟨package, _⟩ := reference
      cases package <;> simp [NameReference.written]
  | _ => simp

/-! ### Expressions -/

def LiteralValue.word : LiteralValue → Word
  | .integer text => ⟨.integer, text⟩
  | .floating text => ⟨.floating, text⟩
  | .string text => .string text
  | .boolean value => .boolean value
  | .null => .null

def Literal.written (literal : Literal) : List Word :=
  if literal.negative then [.symbol .minus, literal.value.word] else [literal.value.word]

mutual

@[simp]
def Expr.written : Expr → List Word
  | .literal value => value.written
  | .template text _ => [⟨.template, text⟩]
  | .array elements _ => inBrackets (listed (Expr.writtens elements))
  | .mapping entries _ => inBraces (listed (MapEntry.writtens entries))
  | .reference target => target.written
  | .call name arguments _ => name.written ++ inParens (listed (Expr.writtens arguments))
  | .invoke connector action arguments _ =>
      connector.written ++ .symbol .dot :: .name action ::
        inParens (listed (Expr.writtens arguments))
  | .create connector arguments _ =>
      .keyword .createKw :: connector.written ++ inParens (listed (Expr.writtens arguments))
  | .typeMember type member _ => type.written ++ [.symbol .dot, .name member]
  | .cast target operand _ => inParens target.written ++ operand.written
  | .convert target operand _ => inAngles target.written ++ operand.written
  | .unary operator operand _ => .symbol operator.symbol :: operand.written
  | .binary operator left right _ => left.written ++ .symbol operator.symbol :: right.written
  | .paren inner _ => inParens inner.written

@[simp]
def Expr.writtens : List Expr → List (List Word)
  | [] => []
  | expr :: rest => expr.written :: Expr.writtens rest

@[simp]
def MapEntry.written : MapEntry → List Word
  | ⟨key, value, _⟩ => key.written ++ .symbol .colon :: value.written

@[simp]
def MapEntry.writtens : List MapEntry → List (List Word)
  | [] => []
  | entry :: rest => entry.written :: MapEntry.writtens rest

@[simp]
def Reference.written : Reference → List Word
  | .name name => name.written
  | .index base position _ => base.written ++ inBrackets position.written
  | .field base member _ => base.written ++ [.symbol .dot, .name member]
  | .attributes base _ => base.written ++ [.symbol .atSign]
  | .attributeNamed base selected _ => base.written ++ [.symbol .atSign, .name selected]
  | .attributeAt base selector _ =>
      base.written ++ .symbol .atSign :: inBrackets selector.written

end

theorem Expr.writtens_eq_map (exprs : List Expr) : Expr.writtens exprs = exprs.map written := by
  induction exprs with
  | nil => rfl
  | cons expr rest ih => rw [writtens, ih, List.map_cons]

theorem MapEntry.writtens_eq_map (entries : List MapEntry) :
    MapEntry.writtens entries = entries.map written := by
  induction entries with
  | nil => rfl
  | cons entry rest ih => rw [writtens, ih, List.map_cons]

/-! ### Statements -/

/-- `(type name)` -/
def bindingWritten (type : TypeName) (identifier : Identifier) : List Word :=
  inParens (type.written ++ [.name identifier])

def VarDef.written (definition : VarDef) : List Word :=
  definition.type.written ++ .name definition.name ::
    (behind [.symbol .equal] Expr.written definition.init ++ [.symbol .semicolon])

def NamespaceDecl.written (declaration : NamespaceDecl) : List Word :=
  .keyword .xmlnsKw :: .string declaration.uri ::
    (behind [.keyword .asKw] (fun localName => [.name localName]) declaration.localName ++
      [.symbol .semicolon])

def JoinCondition.written : JoinCondition → List Word
  | .first count workers _ =>
      .keyword .someKw :: ⟨.integer, toString count⟩ ::
        listed (workers.map fun worker => [.name worker])
  | .every workers _ => .keyword .allKw :: listed (workers.map fun worker => [.name worker])

def TokenMarker.written (marker : TokenMarker) : List Word :=
  if marker.isPresent then [.symbol .rightBrace] else [.invalid]

def SendTarget.word : SendTarget → Word
  | .worker receiver => .name receiver
  | .fork _ => .keyword .forkKw

mutual

@[simp]
def Stmt.written : Stmt → List Word
  | .varDef definition => definition.written
  | .assign declares targets value _ =>
      (if declares then [.keyword .varKw] else []) ++
        (listed (targets.map Reference.written) ++
          .symbol .equal :: (value.written ++ [.symbol .semicolon]))
  | .ifElse condition thenBlock elseIfs elseBlock _ =>
      .keyword .ifKw :: (inParens condition.written ++ (thenBlock.written ++
        (ElseIf.writtens elseIfs ++ Block.writtenBehind [.keyword .elseKw] elseBlock)))
  | .iterate type identifier collection body _ =>
      .keyword .iterateKw ::
        (inParens (type.written ++ .name identifier :: .symbol .colon :: collection.written) ++
          body.written)
  | .whileLoop condition body _ =>
      .keyword .whileKw :: (inParens condition.written ++ body.written)
  | .continueLoop _ => [.keyword .continueKw, .symbol .semicolon]
  | .breakLoop _ => [.keyword .breakKw, .symbol .semicolon]
  | .forkJoin workers join timeout _ =>
      .keyword .forkKw :: (inBraces (Worker.writtens workers) ++
        (Join.writtenIfAny join ++ Timeout.writtenIfAny timeout))
  | .tryCatch body catches finallyBlock _ =>
      .keyword .tryKw :: (body.written ++ (Catch.writtens catches ++
        Block.writtenBehind [.keyword .finallyKw] finallyBlock))
  | .throw value _ => .keyword .throwKw :: (value.written ++ [.symbol .semicolon])
  | .returns values _ =>
      .keyword .returnKw :: (listed (values.map Expr.written) ++ [.symbol .semicolon])
  | .reply value _ => .keyword .replyKw :: (value.written ++ [.symbol .semicolon])
  | .send values target _ =>
      listed (values.map Expr.written) ++ [.symbol .rightArrow, target.word, .symbol .semicolon]
  | .receive targets worker _ =>
      listed (targets.map Expr.written) ++ [.symbol .leftArrow, .name worker, .symbol .semicolon]
  | .comment _ _ => []
  | .invoke connector action arguments span =>
      (Expr.invoke connector action arguments span).written ++ [.symbol .semicolon]
  | .call called arguments span => (Expr.call called arguments span).written ++ [.symbol .semicolon]
  | .transform body _ => .keyword .transformKw :: body.written
  | .transaction body aborted committed _ =>
      .keyword .transactionKw :: (body.written ++
        (Block.writtenBehind [.keyword .abortedKw] aborted ++
          Block.writtenBehind [.keyword .committedKw] committed))
  | .abort _ => [.keyword .abortKw, .symbol .semicolon]
  | .namespaceDecl declaration => declaration.written
  | .broken _ => [.invalid]

@[simp]
def Stmt.writtens : List Stmt → List Word
  | [] => []
  | statement :: rest => statement.written ++ Stmt.writtens rest

@[simp]
def Block.written : Block → List Word
  | ⟨statements, close, _⟩ => .symbol .leftBrace :: (Stmt.writtens statements ++ close.written)

@[simp]
def Block.writtenBehind (front : List Word) : Option Block → List Word
  | some block => front ++ block.written
  | none => []

@[simp]
def CallableBody.written : CallableBody → List Word
  | ⟨statements, workers, close, _⟩ =>
      .symbol .leftBrace ::
        (Stmt.writtens statements ++ (Worker.writtens workers ++ close.written))

@[simp]
def Worker.written : Worker → List Word
  | ⟨worker, body, _⟩ => .keyword .workerKw :: .name worker :: body.written

@[simp]
def Worker.writtens : List Worker → List Word
  | [] => []
  | worker :: rest => worker.written ++ Worker.writtens rest

@[simp]
def ElseIf.writtens : List ElseIf → List Word
  | [] => []
  | ⟨condition, block, _⟩ :: rest =>
      .keyword .elseKw :: .keyword .ifKw ::
        (inParens condition.written ++ (block.written ++ ElseIf.writtens rest))

@[simp]
def Join.writtenIfAny : Option Join → List Word
  | some ⟨condition, type, identifier, body, _⟩ =>
      .keyword .joinKw :: (behind [] (fun condition => inParens condition.written) condition ++
        (bindingWritten type identifier ++ body.written))
  | none => []

@[simp]
def Timeout.writtenIfAny : Option Timeout → List Word
  | some ⟨timeout, type, identifier, body, _⟩ =>
      .keyword .timeoutKw :: (inParens timeout.written ++
        (bindingWritten type identifier ++ body.written))
  | none => []

@[simp]
def Catch.writtens : List Catch → List Word
  | [] => []
  | ⟨type, identifier, body, _⟩ :: rest =>
      .keyword .catchKw ::
        (bindingWritten type identifier ++ (body.written ++ Catch.writtens rest))

end

theorem Stmt.writtens_eq_flatMap (statements : List Stmt) :
    Stmt.writtens statements = statements.flatMap written := by
  induction statements with
  | nil => rfl
  | cons statement rest ih => rw [writtens, ih, List.flatMap_cons]

theorem Worker.writtens_eq_flatMap (workers : List Worker) :
    Worker.writtens workers = workers.flatMap written := by
  induction workers with
  | nil => rfl
  | cons worker rest ih => rw [writtens, ih, List.flatMap_cons]

def ElseIf.written (branch : ElseIf) : List Word :=
  .keyword .elseKw :: .keyword .ifKw ::
    (inParens branch.condition.written ++ branch.block.written)

theorem ElseIf.writtens_eq_flatMap (branches : List ElseIf) :
    ElseIf.writtens branches = branches.flatMap written := by
  induction branches with
  | nil => rfl
  | cons branch rest ih =>
      obtain ⟨condition, block, _⟩ := branch
      rw [writtens, ih, List.flatMap_cons, written, List.cons_append, List.cons_append,
        List.append_assoc]

def Catch.written (clause : Catch) : List Word :=
  .keyword .catchKw :: (bindingWritten clause.type clause.name ++ clause.body.written)

theorem Catch.writtens_eq_flatMap (clauses : List Catch) :
    Catch.writtens clauses = clauses.flatMap written := by
  induction clauses with
  | nil => rfl
  | cons clause rest ih =>
      obtain ⟨type, identifier, body, _⟩ := clause
      rw [writtens, ih, List.flatMap_cons, written, List.cons_append, List.append_assoc]

def Join.written (clause : Join) : List Word :=
  .keyword .joinKw ::
    (behind [] (fun condition => inParens condition.written) clause.condition ++
      (bindingWritten clause.type clause.name ++ clause.body.written))

theorem Join.writtenIfAny_eq (clause : Option Join) :
    Join.writtenIfAny clause = behind [] written clause := by
  rcases clause with _ | ⟨_, _, _, _, _⟩ <;> rfl

def Timeout.written (clause : Timeout) : List Word :=
  .keyword .timeoutKw :: (inParens clause.timeout.written ++
    (bindingWritten clause.type clause.name ++ clause.body.written))

theorem Timeout.writtenIfAny_eq (clause : Option Timeout) :
    Timeout.writtenIfAny clause = behind [] written clause := by
  rcases clause with _ | ⟨_, _, _, _, _⟩ <;> rfl

theorem Block.writtenBehind_eq (front : List Word) (block : Option Block) :
    Block.writtenBehind front block = behind front written block := by
  cases block <;> rfl

/-! ### Annotations -/

mutual

@[simp]
def Attachment.written : Attachment → List Word
  | ⟨mark, attributes, _⟩ =>
      .symbol .atSign :: (mark.written ++ inBraces (listed (Attribute.writtens attributes)))

@[simp]
def Attribute.writtens : List Attribute → List (List Word)
  | [] => []
  | ⟨key, value, _⟩ :: rest =>
      (.name key :: .symbol .colon :: value.written) :: Attribute.writtens rest

@[simp]
def AnnotationValue.written : AnnotationValue → List Word
  | .literal value => value.written
  | .attachment nested => nested.written
  | .array elements _ => inBrackets (listed (AnnotationValue.writtens elements))

@[simp]
def AnnotationValue.writtens : List AnnotationValue → List (List Word)
  | [] => []
  | value :: rest => value.written :: AnnotationValue.writtens rest

end

def Attribute.written (entry : Attribute) : List Word :=
  .name entry.key :: .symbol .colon :: entry.value.written

theorem Attribute.writtens_eq_map (entries : List Attribute) :
    Attribute.writtens entries = entries.map written := by
  induction entries with
  | nil => rfl
  | cons entry rest ih =>
      obtain ⟨key, value, _⟩ := entry
      rw [writtens, ih, List.map_cons, written]

theorem AnnotationValue.writtens_eq_map (elements : List AnnotationValue) :
    AnnotationValue.writtens elements = elements.map written := by
  induction elements with
  | nil => rfl
  | cons element rest ih => rw [writtens, ih, List.map_cons]

/-! ### Definitions -/

def Param.written (param : Param) : List Word :=
  param.attachments.flatMap Attachment.written ++ (param.type.written ++ [.name param.name])

def Returns.written : Returns → List Word
  | .named results => listed (results.map Param.written)
  | .types results => listed (results.map TypeName.written)

def Signature.written (signature : Signature) : List Word :=
  .name signature.name :: (inParens (listed (signature.params.map Param.written)) ++
    behind [] (fun returns => inParens returns.written) signature.returns)

/-- The body of a callable, or the semicolon of one that has none. -/
def endWritten {α : Type} (written : α → List Word) : Option α → List Word
  | some body => written body
  | none => [.symbol .semicolon]

def ResourceDef.written (definition : ResourceDef) : List Word :=
  definition.attachments.flatMap Attachment.written ++
    .keyword .resourceKw :: .name definition.name ::
      (inParens (listed (definition.params.map Param.written)) ++ definition.body.written)

def CallableDef.written (word : Keyword) (definition : CallableDef) : List Word :=
  definition.attachments.flatMap Attachment.written ++
    ((if definition.native then [.keyword .nativeKw] else []) ++
      .keyword word :: (definition.signature.written ++
        endWritten CallableBody.written definition.body))

def FieldDef.written (definition : FieldDef) : List Word :=
  definition.type.written ++ .name definition.name ::
    (behind [.symbol .equal] Literal.written definition.default ++ [.symbol .semicolon])

def ServiceDef.written (definition : ServiceDef) : List Word :=
  definition.attachments.flatMap Attachment.written ++
    .keyword .serviceKw :: (inAngles [.name definition.protocol] ++ .name definition.name ::
      inBraces (definition.varDefs.flatMap VarDef.written ++
        definition.resources.flatMap ResourceDef.written))

def ConnectorDef.written (definition : ConnectorDef) : List Word :=
  definition.attachments.flatMap Attachment.written ++
    .keyword .connectorKw :: .name definition.name ::
      (inParens (listed (definition.params.map Param.written)) ++
        inBraces (definition.varDefs.flatMap VarDef.written ++
          definition.actions.flatMap (CallableDef.written .actionKw)))

def StructDef.written (definition : StructDef) : List Word :=
  definition.attachments.flatMap Attachment.written ++
    .keyword .structKw :: .name definition.name ::
      inBraces (definition.fields.flatMap FieldDef.written)

/-- Behind the word `attach`, which stands only before some point. -/
def attachPointsWritten (points : List AttachPoint) : List Word :=
  if points.isEmpty then []
  else .keyword .attachKw :: listed (points.map fun point => [.keyword point.target.keyword])

def AnnotationDef.written (definition : AnnotationDef) : List Word :=
  definition.attachments.flatMap Attachment.written ++
    .keyword .annotationKw :: .name definition.name ::
      (attachPointsWritten definition.attachPoints ++
        inBraces (definition.fields.flatMap FieldDef.written))

def TypeMapperDef.written (definition : TypeMapperDef) : List Word :=
  definition.attachments.flatMap Attachment.written ++
    ((if definition.native then [.keyword .nativeKw] else []) ++
      .keyword .typemapperKw :: .name definition.name ::
        (inParens definition.param.written ++ (inParens definition.returnType.written ++
          endWritten Block.written definition.body)))

def ConstantDef.written (definition : ConstantDef) : List Word :=
  definition.attachments.flatMap Attachment.written ++
    .keyword .constKw :: (definition.type.written ++ .name definition.name :: .symbol .equal ::
      (definition.value.written ++ [.symbol .semicolon]))

def GlobalVarDef.written (definition : GlobalVarDef) : List Word :=
  definition.attachments.flatMap Attachment.written ++
    (definition.type.written ++ .name definition.name ::
      (behind [.symbol .equal] Expr.written definition.init ++ [.symbol .semicolon]))

def Definition.written : Definition → List Word
  | .service definition => definition.written
  | .function definition => definition.written .functionKw
  | .connector definition => definition.written
  | .struct definition => definition.written
  | .typeMapper definition => definition.written
  | .constant definition => definition.written
  | .annotationDef definition => definition.written
  | .globalVar definition => definition.written
  | .broken _ => [.invalid]

/-! ### Sources -/

def PackageDecl.written (declaration : PackageDecl) : List Word :=
  .keyword .packageKw :: (declaration.name.written ++ [.symbol .semicolon])

def ImportDecl.written (declaration : ImportDecl) : List Word :=
  .keyword .importKw :: (declaration.package.written ++
    (behind [.keyword .asKw] (fun localName => [.name localName]) declaration.localName ++
      [.symbol .semicolon]))

def Directive.written : Directive → List Word
  | .importDecl declaration => declaration.written
  | .namespaceDecl declaration => declaration.written

def SourceUnit.written (unit : SourceUnit) : List Word :=
  behind [] PackageDecl.written unit.package ++
    (unit.directives.flatMap Directive.written ++ unit.items.flatMap Definition.written)

end ServiceLang
