import ServiceLang.Tree.Expr

set_option autoImplicit false

/-! Statements, the bodies that hold them, and workers. -/

namespace ServiceLang

/-- `type name = init;`, in a body or among the members of a definition. -/
structure VarDef where
  type : TypeName
  name : Identifier
  init : Option Expr
  span : Span

/-- `xmlns "uri" as alias;` -/
structure NamespaceDecl where
  /-- As written, with its quotes. -/
  uri : String
  localName : Option Identifier
  span : Span
deriving DecidableEq, Repr

inductive JoinCondition where
  /-- The first `count` of the listed workers, or of all when none is listed. -/
  | first (count : Nat) (workers : List Identifier) (span : Span)
  /-- All listed workers, or all when none is listed. -/
  | every (workers : List Identifier) (span : Span)
deriving DecidableEq, Repr

namespace JoinCondition

def workers : JoinCondition → List Identifier
  | first _ workers _ | every workers _ => workers

def span : JoinCondition → Span
  | first _ _ span | every _ span => span

end JoinCondition

inductive SendTarget where
  | worker (name : Identifier)
  /-- The fork around the worker; the span is that of the word. -/
  | fork (span : Span)
deriving DecidableEq, Repr

mutual

inductive Stmt where
  | varDef (definition : VarDef)
  /-- `targets = value;`, with `var` in front when it declares them. -/
  | assign (declares : Bool) (targets : List Reference) (value : Expr) (span : Span)
  | ifElse (condition : Expr) (thenBlock : Block) (elseIfs : List ElseIf)
      (elseBlock : Option Block) (span : Span)
  | iterate (type : TypeName) (name : Identifier) (collection : Expr) (body : Block) (span : Span)
  | whileLoop (condition : Expr) (body : Block) (span : Span)
  | continueLoop (span : Span)
  | breakLoop (span : Span)
  | forkJoin (workers : List Worker) (join : Option Join) (timeout : Option Timeout) (span : Span)
  | tryCatch (body : Block) (catches : List Catch) (finallyBlock : Option Block) (span : Span)
  | throw (value : Expr) (span : Span)
  | returns (values : List Expr) (span : Span)
  | reply (value : Expr) (span : Span)
  /-- `values -> target;` -/
  | send (values : List Expr) (target : SendTarget) (span : Span)
  /-- `targets <- worker;` -/
  | receive (targets : List Expr) (worker : Identifier) (span : Span)
  /-- A comment to the end of its line, with the slashes. -/
  | comment (text : String) (span : Span)
  | invoke (connector : NameReference) (action : Identifier) (arguments : List Expr) (span : Span)
  | call (name : NameReference) (arguments : List Expr) (span : Span)
  | transform (body : Block) (span : Span)
  | transaction (body : Block) (aborted committed : Option Block) (span : Span)
  | abort (span : Span)
  | namespaceDecl (declaration : NamespaceDecl)
  /-- The tokens that were skipped to get past an error. -/
  | broken (span : Span)

structure Block where
  statements : List Stmt
  close : TokenMarker
  span : Span

/-- The body of a resource, function, action or worker: statements and workers
in braces. -/
structure CallableBody where
  statements : List Stmt
  workers : List Worker
  close : TokenMarker
  span : Span

structure Worker where
  name : Identifier
  body : CallableBody
  span : Span

structure ElseIf where
  condition : Expr
  block : Block
  span : Span

structure Join where
  condition : Option JoinCondition
  type : TypeName
  name : Identifier
  body : Block
  span : Span

structure Timeout where
  timeout : Expr
  type : TypeName
  name : Identifier
  body : Block
  span : Span

structure Catch where
  type : TypeName
  name : Identifier
  body : Block
  span : Span

end

namespace Stmt

def span : Stmt → Span
  | varDef definition => definition.span
  | namespaceDecl declaration => declaration.span
  | assign _ _ _ span | ifElse _ _ _ _ span | iterate _ _ _ _ span | whileLoop _ _ span
  | continueLoop span | breakLoop span | forkJoin _ _ _ span | tryCatch _ _ _ span | throw _ span
  | returns _ span | reply _ span | send _ _ span | receive _ _ span | comment _ span
  | invoke _ _ _ span | call _ _ span | transform _ span | transaction _ _ _ span | abort span
  | broken span => span

def isBroken : Stmt → Bool
  | broken _ => true
  | _ => false

end Stmt

def CallableBody.toBlock (body : CallableBody) : Block :=
  ⟨body.statements, body.close, body.span⟩

end ServiceLang
