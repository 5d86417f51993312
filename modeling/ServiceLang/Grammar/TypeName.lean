import ServiceLang.Parse.Step
import ServiceLang.Tree.TypeName

set_option autoImplicit false

/-! The rules for names and type names. A rule that nests takes the number of
levels that are left; at none it fails. Each level is entered by the guard. -/

namespace ServiceLang.Grammar

open Step

/-- `name`, or `package:name`. A colon without a name behind it is left alone. -/
def nameReference : Step NameReference := do
  let first ← expectIdentifier
  if (← check (.symbol .colon)) && (← kindNth 1) == .identifier then
    let _ ← expectSymbol .colon
    return ⟨some first, ← expectIdentifier⟩
  else return ⟨none, first⟩

def bracedString : Step String := do
  let _ ← expectSymbol .leftBrace
  let text ← expect .string
  let _ ← expectSymbol .rightBrace
  return text.lexeme

def xmlConstraintBehind (start : Token) : Step XmlConstraint := do
  let uri ← ifAt (.symbol .leftBrace) bracedString
  let element ← expectIdentifier
  let close ← expectSymbol .greater
  return ⟨uri, element, start.span.merge close.span⟩

def xmlConstraint : Step (Option XmlConstraint) := do
  match ← eat? (.symbol .less) with
  | none => return none
  | some start => return some (← xmlConstraintBehind start)

def schemaBehind (start : Token) : Step SchemaReference := do
  let location ← bracedString
  let close ← expectSymbol .greater
  return ⟨location, start.span.merge close.span⟩

def schemaReference : Step (Option SchemaReference) := do
  match ← eat? (.symbol .less) with
  | none => return none
  | some start => return some (← schemaBehind start)

def simpleType? (span : Span) : Kind → Option TypeName
  | .keyword .anyKw => some (.any span)
  | .keyword .booleanKw => some (.value .boolean span)
  | .keyword .intKw => some (.value .int span)
  | .keyword .floatKw => some (.value .float span)
  | .keyword .stringKw => some (.value .string span)
  | .keyword .blobKw => some (.value .blob span)
  | .keyword .messageKw => some (.message span)
  | .keyword .datatableKw => some (.datatable span)
  | _ => none

/-- A map type. `inner` reads its constraint, which is optional. -/
def mapType (inner : Step TypeName) : Step TypeName := do
  let word ← expectKeyword .mapKw
  if ← eat (.symbol .less) then
    let constraint ← inner
    let _ ← expectSymbol .greater
    return .mapOf constraint (← spanFrom word.span)
  else return .map (← spanFrom word.span)

def constrainedType {α : Type} (word : Keyword) (constraint : Step (Option α))
    (make : Option α → Span → TypeName) : Step TypeName := do
  let word ← expectKeyword word
  let constraint ← constraint
  return make constraint (← spanFrom word.span)

def namedType : Step TypeName := do
  let first ← peek
  let reference ← nameReference
  return .named reference (← spanFrom first.span)

def simpleType : Step TypeName := do
  let token ← peek
  match simpleType? token.span token.kind with
  | some type =>
      let _ ← advance
      return type
  | none => failAt fun token => .expectedType token.span token.kind.description

/-- A type name without array suffixes. `inner` reads the constraint of a map. -/
def baseType (inner : Step TypeName) : Step TypeName := do
  match ← current with
  | .keyword .mapKw => mapType inner
  | .keyword .xmlKw => constrainedType .xmlKw xmlConstraint .xml
  | .keyword .xmlDocumentKw => constrainedType .xmlDocumentKw xmlConstraint .xmlDocument
  | .keyword .jsonKw => constrainedType .jsonKw schemaReference .json
  | .identifier => namedType
  | _ => simpleType

/-- One array suffix behind an element type. A bracket that is not closed at once
is an index and is left alone. -/
def dimension (type : TypeName) : Step (ForInStep TypeName) := do
  if (← check (.symbol .leftBracket)) && (← kindNth 1) == .symbol .rightBracket then
    let _ ← expectSymbol .leftBracket
    let close ← expectSymbol .rightBracket
    return .yield (.array type (type.span.merge close.span))
  else return .done type

def dimensions (element : TypeName) : Step TypeName :=
  loop dimension element

def typeName [Guard] : (room : Nat) → Step TypeName
  | 0 => tooDeep
  | room + 1 => Guard.nested do dimensions (← baseType (typeName room))

end ServiceLang.Grammar
