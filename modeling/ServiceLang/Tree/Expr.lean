import ServiceLang.Tree.Operator
import ServiceLang.Tree.TypeName

set_option autoImplicit false

/-! Expressions and variable references. -/

namespace ServiceLang

/-- Literal values, kept as they are written. -/
inductive LiteralValue where
  | integer (text : String)
  | floating (text : String)
  /-- The text with its quotes. -/
  | string (text : String)
  | boolean (value : Bool)
  | null
deriving DecidableEq, Repr

structure Literal where
  value : LiteralValue
  /-- Whether a minus sign in front belongs to the literal. -/
  negative : Bool
  span : Span
deriving DecidableEq, Repr

mutual

inductive Expr where
  | literal (value : Literal)
  /-- A template with its backticks. -/
  | template (text : String) (span : Span)
  | array (elements : List Expr) (span : Span)
  | mapping (entries : List MapEntry) (span : Span)
  | reference (target : Reference)
  /-- `name(arguments)` -/
  | call (name : NameReference) (arguments : List Expr) (span : Span)
  /-- `connector.action(arguments)` -/
  | invoke (connector : NameReference) (action : Identifier) (arguments : List Expr) (span : Span)
  /-- `create connector(arguments)` -/
  | create (connector : NameReference) (arguments : List Expr) (span : Span)
  /-- `type.member` -/
  | typeMember (type : TypeName) (member : Identifier) (span : Span)
  /-- `(target) operand` -/
  | cast (target : TypeName) (operand : Expr) (span : Span)
  /-- `<target> operand` -/
  | convert (target : TypeName) (operand : Expr) (span : Span)
  | unary (operator : UnaryOperator) (operand : Expr) (span : Span)
  | binary (operator : BinaryOperator) (left right : Expr) (span : Span)
  | paren (inner : Expr) (span : Span)

structure MapEntry where
  key : Expr
  value : Expr
  span : Span

/-- A name, or a suffix put to another reference. -/
inductive Reference where
  | name (reference : NameReference)
  /-- `base[index]` -/
  | index (base : Reference) (position : Expr) (span : Span)
  /-- `base.field` -/
  | field (base : Reference) (member : Identifier) (span : Span)
  /-- `base@`, all XML attributes -/
  | attributes (base : Reference) (span : Span)
  /-- `base@name` -/
  | attributeNamed (base : Reference) (name : Identifier) (span : Span)
  /-- `base@[selector]` -/
  | attributeAt (base : Reference) (selector : Expr) (span : Span)

end

namespace Reference

def span : Reference → Span
  | name reference => reference.span
  | index _ _ span | field _ _ span | attributes _ span | attributeNamed _ _ span
  | attributeAt _ _ span => span

def base? : Reference → Option Reference
  | name _ => none
  | index base _ _ | field base _ _ | attributes base _ | attributeNamed base _ _
  | attributeAt base _ _ => some base

def root : Reference → NameReference
  | name reference => reference
  | index base _ _ | field base _ _ | attributes base _ | attributeNamed base _ _
  | attributeAt base _ _ => base.root

/-- The number of suffixes, and one more for the name. -/
def chainLength : Reference → Nat
  | name _ => 1
  | index base _ _ | field base _ _ | attributes base _ | attributeNamed base _ _
  | attributeAt base _ _ => base.chainLength + 1

end Reference

namespace Expr

def span : Expr → Span
  | literal value => value.span
  | reference target => target.span
  | template _ span | array _ span | mapping _ span | call _ _ span | invoke _ _ _ span
  | create _ _ span | typeMember _ _ span | cast _ _ span | convert _ _ span | unary _ _ span
  | binary _ _ _ span | paren _ span => span

def reference? : Expr → Option Reference
  | reference target => some target
  | _ => none

end Expr

/-- The text between the backticks of a template; all of it when they are not
both there. -/
def templateBody (text : String) : String :=
  match text.toList with
  | '`' :: inner =>
      if inner.getLast? = some '`' then String.ofList inner.dropLast else text
  | _ => text

end ServiceLang
