import ServiceLang.Tree.Name

set_option autoImplicit false

/-! Type names, and how they are written. -/

namespace ServiceLang

inductive ValueType where
  | boolean | int | float | string | blob
deriving DecidableEq, Repr

def ValueType.text : ValueType → String
  | .boolean => "boolean"
  | .int => "int"
  | .float => "float"
  | .string => "string"
  | .blob => "blob"

/-- The element that an XML type is bound to: `<name>`, or `<name>` with the
quoted URI of its namespace in braces before the name. -/
structure XmlConstraint where
  /-- As written, with its quotes. -/
  uri : Option String
  element : Identifier
  span : Span
deriving DecidableEq, Repr

/-- The schema that a JSON type is bound to, in braces. -/
structure SchemaReference where
  /-- As written, with its quotes. -/
  location : String
  span : Span
deriving DecidableEq, Repr

inductive TypeName where
  | any (span : Span)
  | value (type : ValueType) (span : Span)
  | message (span : Span)
  | datatable (span : Span)
  | map (span : Span)
  | mapOf (constraint : TypeName) (span : Span)
  | xml (constraint : Option XmlConstraint) (span : Span)
  | xmlDocument (constraint : Option XmlConstraint) (span : Span)
  | json (schema : Option SchemaReference) (span : Span)
  | named (reference : NameReference) (span : Span)
  /-- One dimension over the element type. -/
  | array (element : TypeName) (span : Span)
deriving DecidableEq, Repr

private def braced (text : String) : String :=
  "\x7b" ++ text ++ "\x7d"

def XmlConstraint.text (constraint : XmlConstraint) : String :=
  "<" ++ (constraint.uri.map braced).getD "" ++ constraint.element.name ++ ">"

def SchemaReference.text (schema : SchemaReference) : String :=
  "<" ++ braced schema.location ++ ">"

namespace TypeName

def span : TypeName → Span
  | any span | value _ span | message span | datatable span | map span | mapOf _ span
  | xml _ span | xmlDocument _ span | json _ span | named _ span | array _ span => span

def isArray : TypeName → Bool
  | array _ _ => true
  | _ => false

def arrayDepth : TypeName → Nat
  | array element _ => element.arrayDepth + 1
  | _ => 0

def base : TypeName → TypeName
  | array element _ => element.base
  | type => type

def text : TypeName → String
  | any _ => "any"
  | value type _ => type.text
  | message _ => "message"
  | datatable _ => "datatable"
  | map _ => "map"
  | mapOf constraint _ => "map<" ++ constraint.text ++ ">"
  | xml constraint _ => "xml" ++ (constraint.map XmlConstraint.text).getD ""
  | xmlDocument constraint _ => "xmlDocument" ++ (constraint.map XmlConstraint.text).getD ""
  | json schema _ => "json" ++ (schema.map SchemaReference.text).getD ""
  | named reference _ => reference.text
  | array element _ => element.text ++ "[]"

theorem isArray_base (type : TypeName) : type.base.isArray = false := by
  fun_induction base type with
  | case1 element _ ih => exact ih
  | case2 type notArray =>
      cases type with
      | array element span => exact absurd rfl (notArray element span)
      | _ => rfl

theorem isArray_iff_arrayDepth_pos (type : TypeName) :
    type.isArray = true ↔ 0 < type.arrayDepth := by
  cases type <;> simp [isArray, arrayDepth]

end TypeName

end ServiceLang
