import ServiceLang.Grammar.Expr
import ServiceLang.Lexical.Character
import ServiceLang.Parse.Recovery
import ServiceLang.Tree.Stmt

set_option autoImplicit false

/-! The rules for statements and the bodies that hold them. A body never fails
because of what is in it: a broken statement leaves a placeholder, and the next
one is read behind it. -/

namespace ServiceLang.Grammar

open Step

inductive BodyKind where
  /-- Statements. -/
  | block
  /-- Statements and workers. -/
  | callable
  /-- The few statements that a transformation may consist of. -/
  | transform
deriving DecidableEq, Repr

/-- The rules one level further in, for the parts of a statement. -/
structure StmtParts extends ExprParts where
  body : BodyKind → Step CallableBody

namespace StmtParts

def block (parts : StmtParts) : Step Block := do
  return (← parts.body .block).toBlock

end StmtParts

variable (parts : StmtParts)

def notAStatement {α : Type} : Step α :=
  failAt fun token => .error .expectedStatement token.span
    (Diagnostic.wantedFound "statement" token.kind.description)

/-! ### Variables and assignments -/

/-- `type name = init;`, the value being optional. -/
def varDef : Step VarDef := do
  let type ← parts.typeName
  let name ← expectIdentifier
  let init ← ifBehind (.symbol .equal) (initializer parts.toExprParts)
  let _ ← endStatement
  return ⟨type, name, init, ← spanFrom type.span⟩

/-- `var targets = value;` -/
def varAssignment : Step Stmt := do
  let word ← expectKeyword .varKw
  let targets ← references parts.toExprParts
  let _ ← expectSymbol .equal
  let value ← initializer parts.toExprParts
  let _ ← endStatement
  return .assign true targets value (← spanFrom word.span)

/-- The references that a list of expressions consists of. Anything else cannot
be assigned to. -/
def assignmentTargets (exprs : List Expr) : Step (List Reference) :=
  match exprs.find? (fun expr => expr.reference?.isNone) with
  | some expr =>
      fail (.error .invalidTarget expr.span "only variable references can be assigned to")
  | none => return exprs.filterMap Expr.reference?

def listSpan (first : Expr) (others : List Expr) : Span :=
  first.span.merge ((others.getLast?.getD first).span)

def assignmentEnd (first : Expr) (others : List Expr) : Step Stmt := do
  let targets ← assignmentTargets (first :: others)
  let _ ← expectSymbol .equal
  let value ← initializer parts.toExprParts
  let _ ← endStatement
  return .assign false targets value (← spanFrom first.span)

def sendTarget : Step SendTarget := do
  match ← eat? (.keyword .forkKw) with
  | some word => return .fork word.span
  | none => return .worker (← expectIdentifier)

/-- `-> target;`, behind the values -/
def sendEnd (first : Expr) (others : List Expr) : Step Stmt := do
  let _ ← expectSymbol .rightArrow
  let target ← sendTarget
  let _ ← endStatement
  return .send (first :: others) target (← spanFrom first.span)

/-- `<- worker;`, behind the targets -/
def receiveEnd (first : Expr) (others : List Expr) : Step Stmt := do
  let _ ← assignmentTargets (first :: others)
  let _ ← expectSymbol .leftArrow
  let worker ← expectIdentifier
  let _ ← endStatement
  return .receive (first :: others) worker (← spanFrom first.span)

/-- The end of a statement that is one call. Other expressions alone are no
statements. -/
def callEnd (first : Expr) (others : List Expr) : Step Stmt :=
  match first, others with
  | .call name arguments span, [] => do
      let _ ← endStatement
      return .call name arguments span
  | _, _ =>
      fail (.error .expectedStatement (listSpan first others) "expression is not a statement")

/-- What follows the expressions that a statement starts with decides what it
is: an assignment, a message between workers, or the call of a function. -/
def exprStatementEnd (first : Expr) (others : List Expr) : Step Stmt := do
  match ← current with
  | .symbol .equal => assignmentEnd parts first others
  | .symbol .rightArrow => sendEnd first others
  | .symbol .leftArrow => receiveEnd first others
  | _ => callEnd first others

def moreExpressions : Step (List Expr) := do
  if ← eat (.symbol .comma) then expressions parts.toExprParts else return []

def exprStatement : Step Stmt := do
  if (← current).startsOperand then
    let first ← parts.anyExpr
    let others ← moreExpressions parts
    exprStatementEnd parts first others
  else notAStatement

/-! ### Control flow -/

def wordStatement (word : Keyword) (make : Span → Stmt) : Step Stmt := do
  let start ← expectKeyword word
  let _ ← endStatement
  return make (← spanFrom start.span)

def valueStatement (word : Keyword) (make : Expr → Span → Stmt) : Step Stmt := do
  let start ← expectKeyword word
  let value ← parts.anyExpr
  let _ ← endStatement
  return make value (← spanFrom start.span)

def elseIf (start : Token) : Step ElseIf := do
  let condition ← condition parts.toExprParts
  let block ← parts.block
  return ⟨condition, block, start.span.merge block.span⟩

/-- One more branch of an `if`. A plain `else` is the last. -/
def nextBranch (found : List ElseIf × Option Block) :
    Step (ForInStep (List ElseIf × Option Block)) := do
  match ← eat? (.keyword .elseKw) with
  | none => return .done found
  | some word =>
      if ← eat (.keyword .ifKw) then
        return .yield (found.1 ++ [← elseIf parts word], found.2)
      else return .done (found.1, some (← parts.block))

def elseBranches : Step (List ElseIf × Option Block) :=
  loop (nextBranch parts) ([], none)

def ifStatement : Step Stmt := do
  let word ← expectKeyword .ifKw
  let condition ← condition parts.toExprParts
  let thenBlock ← parts.block
  let (elseIfs, elseBlock) ← elseBranches parts
  return .ifElse condition thenBlock elseIfs elseBlock (← spanFrom word.span)

/-- `iterate (type name : collection)` and a body -/
def iterateStatement : Step Stmt := do
  let word ← expectKeyword .iterateKw
  let _ ← expectSymbol .leftParen
  let type ← parts.typeName
  let name ← expectIdentifier
  let _ ← expectSymbol .colon
  let collection ← parts.anyExpr
  let _ ← expectSymbol .rightParen
  let body ← parts.block
  return .iterate type name collection body (word.span.merge body.span)

def whileStatement : Step Stmt := do
  let word ← expectKeyword .whileKw
  let condition ← condition parts.toExprParts
  let body ← parts.block
  return .whileLoop condition body (word.span.merge body.span)

def returnValues : Step (List Expr) := do
  if (← current).startsOperand then expressions parts.toExprParts else return []

def returnStatement : Step Stmt := do
  let word ← expectKeyword .returnKw
  let values ← returnValues parts
  let _ ← endStatement
  return .returns values (← spanFrom word.span)

/-! ### Workers, forks and joins -/

def worker : Step Worker := do
  let word ← expectKeyword .workerKw
  let name ← expectIdentifier
  let body ← parts.body .callable
  return ⟨name, body, word.span.merge body.span⟩

def endsBody (kind : Kind) : Bool :=
  kind.startsDefinition ||
    kind ∈ [.symbol .rightBrace, .endOfFile, .keyword .resourceKw, .keyword .actionKw,
      .symbol .atSign]

/-- One worker of a fork. Nothing else may stand there. -/
def forkWorker : Step Worker := do
  if ← check (.keyword .workerKw) then worker parts
  else fail (wrongToken (← peek) (Kind.keyword .workerKw).description)

def nextForkWorker (workers : List Worker) : Step (ForInStep (List Worker)) := do
  if endsBody (← current) then return .done workers
  else
    return .yield
      (← orRecover .member (do return workers ++ [← forkWorker parts]) (fun _ => workers))

def forkWorkers : Step (List Worker) :=
  loop (nextForkWorker parts) []

def workerNames : Step (List Identifier) := do
  if ← check .identifier then commaSeparated expectIdentifier else return []

/-- The number that a text of decimal digits stands for, one plus sign in front
being allowed. There is none when it does not fit in 32 bits. -/
def workerCount? (text : String) : Option Nat :=
  let digits := match text.toList with
    | '+' :: digits => digits
    | digits => digits
  if digits.isEmpty || digits.any (fun char => !isDigit char) then none
  else
    let count := digits.foldl (fun count char => 10 * count + (char.toNat - '0'.toNat)) 0
    if count < UInt32.size then some count else none

/-- `count names`, behind the word -/
def firstOf (word : Token) : Step JoinCondition := do
  let number ← expect .integer
  match workerCount? number.lexeme with
  | none => fail (.error .invalidLiteral number.span ("invalid worker count " ++ number.lexeme))
  | some count =>
      let workers ← workerNames
      return .first count workers (← spanFrom word.span)

def everyOf (word : Token) : Step JoinCondition := do
  let workers ← workerNames
  return .every workers (← spanFrom word.span)

/-- `some count names` or `any count names`, or `all names`. -/
def joinCondition : Step JoinCondition := do
  let word ← advance
  match word.kind with
  | .keyword .someKw | .keyword .anyKw => firstOf word
  | .keyword .allKw => everyOf word
  | _ => fail (wrongToken word "'some' or 'all'")

def bracketedCondition : Step (Option JoinCondition) := do
  if ← isJoinCondition then
    let _ ← expectSymbol .leftParen
    let condition ← joinCondition
    let _ ← expectSymbol .rightParen
    return some condition
  else return none

/-- `(type name)` -/
def clauseBinding : Step (TypeName × Identifier) := do
  let _ ← expectSymbol .leftParen
  let type ← parts.typeName
  let name ← expectIdentifier
  let _ ← expectSymbol .rightParen
  return (type, name)

def joinClause : Step Join := do
  let word ← expectKeyword .joinKw
  let condition ← bracketedCondition
  let (type, name) ← clauseBinding parts
  let body ← parts.block
  return ⟨condition, type, name, body, word.span.merge body.span⟩

def timeoutClause : Step Timeout := do
  let word ← expectKeyword .timeoutKw
  let timeout ← condition parts.toExprParts
  let (type, name) ← clauseBinding parts
  let body ← parts.block
  return ⟨timeout, type, name, body, word.span.merge body.span⟩

def forkStatement : Step Stmt := do
  let word ← expectKeyword .forkKw
  let _ ← expectSymbol .leftBrace
  let workers ← forkWorkers parts
  let _ ← closeBrace
  let join ← ifAt (.keyword .joinKw) (joinClause parts)
  let timeout ← ifAt (.keyword .timeoutKw) (timeoutClause parts)
  return .forkJoin workers join timeout (← spanFrom word.span)

/-! ### Try and transaction -/

def catchClause : Step Catch := do
  let word ← expectKeyword .catchKw
  let (type, name) ← clauseBinding parts
  let body ← parts.block
  return ⟨type, name, body, word.span.merge body.span⟩

def checkClauses (catches : List Catch) (finallyBlock : Option Block) (span : Span) :
    Step Unit := do
  if catches.isEmpty && finallyBlock.isNone then
    report (.error .missingClause span "try needs at least one catch or a finally clause")
  else return ()

/-- A `try` with its `catch` and `finally` clauses. One with neither is
reported and kept. -/
def tryStatement : Step Stmt := do
  let word ← expectKeyword .tryKw
  let body ← parts.block
  let catches ← whileAt (.keyword .catchKw) (catchClause parts)
  let finallyBlock ← ifBehind (.keyword .finallyKw) parts.block
  let span ← spanFrom word.span
  let _ ← checkClauses catches finallyBlock span
  return .tryCatch body catches finallyBlock span

structure Handlers where
  aborted : Option Block
  committed : Option Block

namespace Handlers

def none : Handlers :=
  ⟨.none, .none⟩

def get (found : Handlers) (isAborted : Bool) : Option Block :=
  if isAborted then found.aborted else found.committed

def set (found : Handlers) (isAborted : Bool) (block : Block) : Handlers :=
  if isAborted then { found with aborted := some block }
  else { found with committed := some block }

end Handlers

def handlerWord (isAborted : Bool) : Keyword :=
  if isAborted then .abortedKw else .committedKw

/-- One handler. A second one of its kind is reported and dropped. -/
def handler (isAborted : Bool) (found : Handlers) : Step Handlers := do
  let word ← expectKeyword (handlerWord isAborted)
  let block ← parts.block
  if (found.get isAborted).isSome then
    let _ ← report (.error .duplicateClause word.span
      ("duplicate " ++ word.kind.description ++ " clause"))
    return found
  else return found.set isAborted block

def nextHandler (found : Handlers) : Step (ForInStep Handlers) := do
  if ← check (.keyword .abortedKw) then return .yield (← handler parts true found)
  else if ← check (.keyword .committedKw) then return .yield (← handler parts false found)
  else return .done found

def handlers : Step Handlers :=
  loop (nextHandler parts) .none

def transactionStatement : Step Stmt := do
  let word ← expectKeyword .transactionKw
  let body ← parts.block
  let handlers ← handlers parts
  return .transaction body handlers.aborted handlers.committed (← spanFrom word.span)

/-! ### Transform -/

def transformStatement : Step Stmt := do
  let word ← expectKeyword .transformKw
  let body ← parts.body .transform
  return .transform body.toBlock (word.span.merge body.span)

def transformVarDef : Step Stmt := do
  let type ← parts.typeName
  let name ← expectIdentifier
  let _ ← expectSymbol .equal
  let init ← parts.anyExpr
  let _ ← endStatement
  return .varDef ⟨type, name, some init, ← spanFrom type.span⟩

def transformAssignment : Step Stmt := do
  let start := (← peek).span
  let targets ← references parts.toExprParts
  let _ ← expectSymbol .equal
  let value ← parts.anyExpr
  let _ ← endStatement
  return .assign false targets value (← spanFrom start)

/-- A statement of a transformation: another transformation, a variable with a
value, or an assignment. Values are plain expressions. -/
def transformItem : Step Stmt := do
  if ← check (.keyword .transformKw) then transformStatement parts
  else if ← isVarDef then transformVarDef parts
  else if ← check .identifier then transformAssignment parts
  else notAStatement

/-! ### Statements and bodies -/

/-- `xmlns "uri" as alias;`, the alias being optional. -/
def namespaceDecl : Step NamespaceDecl := do
  let word ← expectKeyword .xmlnsKw
  let uri ← expect .string
  let localName ← ifBehind (.keyword .asKw) expectIdentifier
  let _ ← endStatement
  return ⟨uri.lexeme, localName, ← spanFrom word.span⟩

def invocationStatement : Step Stmt := do
  let (connector, action, arguments, span) ← invocation parts.toExprParts
  let _ ← endStatement
  return .invoke connector action arguments span

def plainStatement : Step Stmt := do
  if ← isVarDef then return .varDef (← varDef parts)
  else if ← isInvocation then invocationStatement parts
  else exprStatement parts

def statementWith : Step Stmt := do
  match ← current with
  | .keyword .varKw => varAssignment parts
  | .keyword .ifKw => ifStatement parts
  | .keyword .iterateKw => iterateStatement parts
  | .keyword .whileKw => whileStatement parts
  | .keyword .continueKw => wordStatement .continueKw .continueLoop
  | .keyword .breakKw => wordStatement .breakKw .breakLoop
  | .keyword .abortKw => wordStatement .abortKw .abort
  | .keyword .forkKw => forkStatement parts
  | .keyword .tryKw => tryStatement parts
  | .keyword .throwKw => valueStatement parts .throwKw .throw
  | .keyword .returnKw => returnStatement parts
  | .keyword .replyKw => valueStatement parts .replyKw .reply
  | .keyword .transformKw => transformStatement parts
  | .keyword .transactionKw => transactionStatement parts
  | .keyword .xmlnsKw => return .namespaceDecl (← namespaceDecl)
  | _ => plainStatement parts

structure BodyItems where
  statements : List Stmt
  workers : List Worker

namespace BodyItems

def addStatement (items : BodyItems) (statement : Stmt) : BodyItems :=
  { items with statements := items.statements ++ [statement] }

def addWorker (items : BodyItems) (worker : Worker) : BodyItems :=
  { items with workers := items.workers ++ [worker] }

def addComments (items : BodyItems) (comments : List Token) : BodyItems :=
  { items with
    statements := items.statements ++
      comments.map (fun token => .comment token.lexeme token.span) }

end BodyItems

def bodyItem (kind : BodyKind) (items : BodyItems) : Step BodyItems := do
  if ← check (.keyword .workerKw) then
    if kind = .callable then return items.addWorker (← worker parts)
    else fail (.error .expectedStatement (← peek).span
      "workers can only be declared in a callable body or a fork")
  else if kind = .transform then return items.addStatement (← transformItem parts)
  else return items.addStatement (← statementWith parts)

/-- What stands next in a body, with the comments in front of it. A broken item
leaves a placeholder over the tokens that were skipped. -/
def nextBodyItem (kind : BodyKind) (items : BodyItems) : Step (ForInStep BodyItems) := do
  let items := items.addComments (← takeComments)
  if endsBody (← current) then return .done items
  else
    return .yield
      (← orRecover .statement (bodyItem parts kind items)
        (fun span => items.addStatement (.broken span)))

def bodyItems (kind : BodyKind) : Step BodyItems :=
  loop (nextBodyItem parts kind) ⟨[], []⟩

/-- A body in braces. A missing closing brace is assumed where the list ends. -/
def bodyWith (kind : BodyKind) : Step CallableBody := do
  let open_ ← expectSymbol .leftBrace
  let items ← bodyItems parts kind
  let close ← closeBrace
  return ⟨items.statements, items.workers, close, ← spanFrom open_.span⟩

def body [Guard] : (room : Nat) → (kind : BodyKind) → Step CallableBody
  | 0, _ => tooDeep
  | room + 1, kind => Guard.nested (bodyWith ⟨.within room, body room⟩ kind)

def StmtParts.within [Guard] (room : Nat) : StmtParts :=
  ⟨.within room, Grammar.body room⟩

def block [Guard] (room : Nat) : Step Block := do
  return (← body room .block).toBlock

def statement [Guard] (room : Nat) : Step Stmt :=
  statementWith (.within room)

end ServiceLang.Grammar
