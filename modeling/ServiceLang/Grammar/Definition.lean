import ServiceLang.Grammar.Stmt
import ServiceLang.Tree.Definition

set_option autoImplicit false

/-! The rules for annotations, definitions and whole sources. A source never
fails: a broken definition leaves a placeholder, a broken member or header line
leaves nothing, and the next one is read behind it. -/

namespace ServiceLang.Grammar

open Step

/-! ### Annotations -/

def unsignedLiteral : Step Literal := do
  let token ← peek
  if token.kind = .endOfFile then fail (.unexpectedEnd token.span)
  else
    let literal ← literalOf token
    let _ ← advance
    return literal

/-- A number with an optional minus sign, a string, a boolean or null. -/
def simpleLiteral : Step Literal := do
  if ← startsNegativeLiteral then negativeLiteral else unsignedLiteral

/-- `key: value` -/
def annotationEntry (value : Step AnnotationValue) : Step Attribute := do
  let key ← expectIdentifier
  let _ ← expectSymbol .colon
  let value ← value
  return ⟨key, value, key.span.merge value.span⟩

/-- A name behind an at sign, and attributes in braces. -/
def attachmentWith (value : Step AnnotationValue) : Step Attachment := do
  let sign ← expectSymbol .atSign
  let name ← nameReference
  let _ ← expectSymbol .leftBrace
  let (attributes, close) ← closedList .rightBrace (annotationEntry value)
  return ⟨name, attributes, sign.span.merge close.span⟩

def annotationArray (value : Step AnnotationValue) : Step AnnotationValue := do
  let open_ ← expectSymbol .leftBracket
  let (elements, close) ← closedList .rightBracket value
  return .array elements (open_.span.merge close.span)

/-- An annotation value: an annotation, an array, or a literal. The first two
nest. -/
def annotationValue [Guard] : (room : Nat) → Step AnnotationValue
  | 0 => do
      match ← current with
      | .symbol .atSign | .symbol .leftBracket => tooDeep
      | _ => return .literal (← simpleLiteral)
  | room + 1 => do
      match ← current with
      | .symbol .atSign =>
          return .attachment (← Guard.nested (attachmentWith (annotationValue room)))
      | .symbol .leftBracket => Guard.nested (annotationArray (annotationValue room))
      | _ => return .literal (← simpleLiteral)

def attachment [Guard] : (room : Nat) → Step Attachment
  | 0 => tooDeep
  | room + 1 => Guard.nested (attachmentWith (annotationValue room))

def attachments [Guard] (room : Nat) : Step (List Attachment) :=
  whileAt (.symbol .atSign) (attachment room)

/-! ### Rules without levels of their own -/

def resultsAreNamed : Step Bool := do
  if ← check (.symbol .atSign) then return true else isVarDef

/-- What ends a callable: a semicolon if it is native, or else its body. -/
def callableEnd {α : Type} (native : Bool) (body : Step α) : Step (Option α) := do
  if native then
    let _ ← endStatement
    return none
  else return some (← body)

/-- Whether the members of a definition end before a token of this kind. A
native action does not end them; `next` is the kind behind. -/
def endsMembers (kind next : Kind) : Bool :=
  kind == .symbol .rightBrace || kind == .endOfFile ||
    (kind.startsDefinition && !(kind == .keyword .nativeKw && next == .keyword .actionKw))

def nextMember {α : Type} (member : Step α) (found : List α) : Step (ForInStep (List α)) := do
  if endsMembers (← current) (← kindNth 1) then return .done found
  else return .yield (← orRecover .member (do return found ++ [← member]) (fun _ => found))

def members {α : Type} (member : Step α) : Step (List α) := do
  let found ← loop (nextMember member) []
  let _ ← closeBrace
  return found

def notAMember {α : Type} (wanted : String) : Step α :=
  failAt fun token => .error .expectedMember token.span
    (Diagnostic.wantedFound wanted token.kind.description)

def attachPoint : Step AttachPoint := do
  let token ← peek
  match AttachTarget.ofKind? token.kind with
  | some target =>
      let _ ← advance
      return ⟨target, token.span⟩
  | none => fail (wrongToken token "attachment point")

/-- `attach point, point`, or nothing -/
def attachPoints : Step (List AttachPoint) := do
  if ← eat (.keyword .attachKw) then commaSeparated attachPoint else return []

def misplacedDirective : Step Definition := do
  let token ← peek
  fail (.error .expectedDefinition token.span
    (token.kind.description ++ " must come before all definitions"))

/-! ### The head of a source -/

/-- One more segment of a package name. A dot without a name behind it is left
alone. -/
def nextSegment (segments : List Identifier) : Step (ForInStep (List Identifier)) := do
  if (← check (.symbol .dot)) && (← kindNth 1) == .identifier then
    let _ ← expectSymbol .dot
    return .yield (segments ++ [← expectIdentifier])
  else return .done segments

/-- `a.b.c` -/
def packageName : Step PackageName := do
  let first ← expectIdentifier
  let segments ← loop nextSegment [first]
  return ⟨segments, ← spanFrom first.span⟩

def packageDecl : Step PackageDecl := do
  let word ← expectKeyword .packageKw
  let name ← packageName
  let _ ← endStatement
  return ⟨name, ← spanFrom word.span⟩

def importDecl : Step ImportDecl := do
  let word ← expectKeyword .importKw
  let package ← packageName
  let localName ← ifBehind (.keyword .asKw) expectIdentifier
  let _ ← endStatement
  return ⟨package, localName, ← spanFrom word.span⟩

def directive : Step Directive := do
  if ← check (.keyword .importKw) then return .importDecl (← importDecl)
  else return .namespaceDecl (← namespaceDecl)

/-- The package declaration, if one stands here. A broken one gives none. -/
def packageHeader : Step (Option PackageDecl) := do
  if ← check (.keyword .packageKw) then
    orSkip (do return some (← packageDecl)) (fun _ => none)
  else return none

def nextDirective (found : List Directive) : Step (ForInStep (List Directive)) := do
  if (← current) ∈ [.keyword .importKw, .keyword .xmlnsKw] then
    return .yield (← orSkip (do return found ++ [← directive]) (fun _ => found))
  else return .done found

def directives : Step (List Directive) :=
  loop nextDirective []

/-! ### Signatures -/

/-- The annotations in front of a definition, and the span where they start. -/
structure Header where
  attachments : List Attachment
  start : Span

-- The levels that are left where a definition stands.
variable [Guard] (room : Nat)

def param : Step Param := do
  let start := (← peek).span
  let attachments ← attachments room
  let type ← typeName room
  let name ← expectIdentifier
  return ⟨attachments, type, name, start.merge name.span⟩

/-- `(param, ...)`, with any number of parameters -/
def params : Step (List Param) := do
  let _ ← expectSymbol .leftParen
  return (← closedList .rightParen (param room)).1

/-- Parameters, or types alone. -/
def results : Step Returns := do
  if ← resultsAreNamed then return .named (← commaSeparated (param room))
  else return .types (← commaSeparated (typeName room))

def returns : Step Returns := do
  let _ ← expectSymbol .leftParen
  let returns ← results room
  let _ ← expectSymbol .rightParen
  return returns

def signature : Step Signature := do
  let name ← expectIdentifier
  let params ← params room
  let returns ← ifAt (.symbol .leftParen) (returns room)
  return ⟨name, params, returns, ← spanFrom name.span⟩

/-! ### Members -/

def resource : Step ResourceDef := do
  let start := (← peek).span
  let attachments ← attachments room
  let _ ← expectKeyword .resourceKw
  let name ← expectIdentifier
  let params ← params room
  let body ← body room .callable
  return ⟨attachments, name, params, body, start.merge body.span⟩

def serviceMember : Step (VarDef ⊕ ResourceDef) := do
  let kind ← current
  if kind = .keyword .resourceKw ∨ kind = .symbol .atSign then return .inr (← resource room)
  else if ← isVarDef then return .inl (← varDef (.within room))
  else notAMember "a variable definition or resource"

def action : Step CallableDef := do
  let start := (← peek).span
  let attachments ← attachments room
  let native ← eat (.keyword .nativeKw)
  let _ ← expectKeyword .actionKw
  let signature ← signature room
  let body ← callableEnd native (body room .callable)
  return ⟨attachments, native, signature, body, ← spanFrom start⟩

def connectorMember : Step (VarDef ⊕ CallableDef) := do
  if (← current) ∈ [.keyword .actionKw, .keyword .nativeKw, .symbol .atSign] then
    return .inr (← action room)
  else if ← isVarDef then return .inl (← varDef (.within room))
  else notAMember "a variable definition or action"

/-- `type name = literal;`, the literal being optional. -/
def typedField : Step FieldDef := do
  let type ← typeName room
  let name ← expectIdentifier
  let default ← ifBehind (.symbol .equal) simpleLiteral
  let _ ← endStatement
  return ⟨type, name, default, ← spanFrom type.span⟩

def field : Step FieldDef := do
  if (← current).startsType then typedField room else notAMember "a field definition"

/-! ### Definitions -/

variable (header : Header)

def service : Step ServiceDef := do
  let _ ← expectKeyword .serviceKw
  let _ ← expectSymbol .less
  let protocol ← expectIdentifier
  let _ ← expectSymbol .greater
  let name ← expectIdentifier
  let _ ← expectSymbol .leftBrace
  let found ← members (serviceMember room)
  return ⟨header.attachments, protocol, name, found.filterMap Sum.getLeft?,
    found.filterMap Sum.getRight?, ← spanFrom header.start⟩

def function : Step CallableDef := do
  let native ← eat (.keyword .nativeKw)
  let _ ← expectKeyword .functionKw
  let signature ← signature room
  let body ← callableEnd native (body room .callable)
  return ⟨header.attachments, native, signature, body, ← spanFrom header.start⟩

def connector : Step ConnectorDef := do
  let _ ← expectKeyword .connectorKw
  let name ← expectIdentifier
  let params ← params room
  let _ ← expectSymbol .leftBrace
  let found ← members (connectorMember room)
  return ⟨header.attachments, name, params, found.filterMap Sum.getLeft?,
    found.filterMap Sum.getRight?, ← spanFrom header.start⟩

def struct : Step StructDef := do
  let _ ← expectKeyword .structKw
  let name ← expectIdentifier
  let _ ← expectSymbol .leftBrace
  let fields ← members (field room)
  return ⟨header.attachments, name, fields, ← spanFrom header.start⟩

def annotationDef : Step AnnotationDef := do
  let _ ← expectKeyword .annotationKw
  let name ← expectIdentifier
  let attachPoints ← attachPoints
  let _ ← expectSymbol .leftBrace
  let fields ← members (field room)
  return ⟨header.attachments, name, attachPoints, fields, ← spanFrom header.start⟩

def typeMapper : Step TypeMapperDef := do
  let native ← eat (.keyword .nativeKw)
  let _ ← expectKeyword .typemapperKw
  let name ← expectIdentifier
  let _ ← expectSymbol .leftParen
  let param ← param room
  let _ ← expectSymbol .rightParen
  let _ ← expectSymbol .leftParen
  let returnType ← typeName room
  let _ ← expectSymbol .rightParen
  let body ← callableEnd native (block room)
  return ⟨header.attachments, native, name, param, returnType, body, ← spanFrom header.start⟩

def constantType : Step TypeName := do
  let token ← peek
  if token.kind.isValueType then baseType (typeName room)
  else
    fail (.error .expectedType token.span
      (Diagnostic.wantedFound "value type for constant" token.kind.description))

/-- `const type name = value;` -/
def constant : Step ConstantDef := do
  let _ ← expectKeyword .constKw
  let type ← constantType room
  let name ← expectIdentifier
  let _ ← expectSymbol .equal
  let value ← expr room 0
  let _ ← endStatement
  return ⟨header.attachments, type, name, value, ← spanFrom header.start⟩

/-- `type name = value;`, the value being optional and a plain expression. -/
def globalVar : Step GlobalVarDef := do
  let type ← typeName room
  let name ← expectIdentifier
  let init ← ifBehind (.symbol .equal) (expr room 0)
  let _ ← endStatement
  return ⟨header.attachments, type, name, init, ← spanFrom header.start⟩

def plainDefinition : Step Definition := do
  if ← isVarDef then return .globalVar (← globalVar room header)
  else
    failAt fun token => .error .expectedDefinition token.span
      (Diagnostic.wantedFound "definition" token.kind.description)

def nativeDefinition : Step Definition := do
  match ← kindNth 1 with
  | .keyword .functionKw => return .function (← function room header)
  | .keyword .typemapperKw => return .typeMapper (← typeMapper room header)
  | _ => fail (wrongToken ((← cursor).peekNth 1) "'function' or 'typemapper'")

def headedDefinition : Step Definition := do
  match ← current with
  | .keyword .serviceKw => return .service (← service room header)
  | .keyword .functionKw => return .function (← function room header)
  | .keyword .nativeKw => nativeDefinition room header
  | .keyword .connectorKw => return .connector (← connector room header)
  | .keyword .structKw => return .struct (← struct room header)
  | .keyword .typemapperKw => return .typeMapper (← typeMapper room header)
  | .keyword .constKw => return .constant (← constant room header)
  | .keyword .annotationKw => return .annotationDef (← annotationDef room header)
  | .keyword .packageKw | .keyword .importKw | .keyword .xmlnsKw => misplacedDirective
  | _ => plainDefinition room header

def definition : Step Definition := do
  let start := (← peek).span
  let attachments ← attachments room
  headedDefinition room ⟨attachments, start⟩

/-! ### Sources -/

/-- One more definition. A broken one leaves a placeholder over the tokens that
were skipped. -/
def nextDefinition (found : List Definition) : Step (ForInStep (List Definition)) := do
  if ← isEnd then return .done found
  else
    return .yield (found ++
      [← orSkip (definition room) (fun span => .broken span)])

def definitions : Step (List Definition) :=
  loop (nextDefinition room) []

def sourceUnit : Step SourceUnit := do
  let first := (← peek).span
  let package ← packageHeader
  let directives ← directives
  let items ← definitions room
  return ⟨package, directives, items, first.merge (← peek).span⟩

end ServiceLang.Grammar
