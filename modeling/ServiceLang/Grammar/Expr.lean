import ServiceLang.Grammar.TypeName
import ServiceLang.Parse.Lookahead
import ServiceLang.Tree.Expr

set_option autoImplicit false

/-! The rules for expressions. Binary operators are taken as long as they bind
at least as tightly as the surroundings ask; forms with an operator in front
take one such form as their operand. -/

namespace ServiceLang.Grammar

open Step

/-- The rules one level further in, for the parts of an expression. -/
structure ExprParts where
  typeName : Step TypeName
  /-- An expression of operators that bind at least as tightly as given. -/
  expr : (power : Nat) → Step Expr

namespace ExprParts

def anyExpr (parts : ExprParts) : Step Expr :=
  parts.expr 0

end ExprParts

variable (parts : ExprParts)

def literalValue? (token : Token) : Option LiteralValue :=
  match token.kind with
  | .integer => some (.integer token.lexeme)
  | .floating => some (.floating token.lexeme)
  | .string => some (.string token.lexeme)
  | .boolean => some (.boolean (token.lexeme == "true"))
  | .null => some .null
  | _ => none

def literalOf (token : Token) : Step Literal :=
  match literalValue? token with
  | some value => return ⟨value, false, token.span⟩
  | none =>
      fail (.error .invalidLiteral token.span
        (Diagnostic.wantedFound "literal" token.kind.description))

def expressions : Step (List Expr) :=
  commaSeparated parts.anyExpr

/-- `(expr)` -/
def condition : Step Expr := do
  let _ ← expectSymbol .leftParen
  let expr ← parts.anyExpr
  let _ ← expectSymbol .rightParen
  return expr

/-- `(expr, ...)`, with the span of the closing parenthesis. -/
def arguments : Step (List Expr × Span) := do
  let _ ← expectSymbol .leftParen
  let (arguments, close) ← closedList .rightParen parts.anyExpr
  return (arguments, close.span)

/-! ### References -/

/-- `base[index]`, behind the base -/
def indexSuffix (base : Reference) : Step Reference := do
  let _ ← expectSymbol .leftBracket
  let position ← parts.anyExpr
  let close ← expectSymbol .rightBracket
  return .index base position (base.span.merge close.span)

/-- `base.field`, behind the base -/
def fieldSuffix (base : Reference) : Step Reference := do
  let _ ← expectSymbol .dot
  let member ← expectIdentifier
  return .field base member (base.span.merge member.span)

def attributeSelector (base : Reference) (sign : Token) : Step Reference := do
  match ← current with
  | .identifier =>
      let name ← expectIdentifier
      return .attributeNamed base name (base.span.merge name.span)
  | .symbol .leftBracket =>
      let _ ← expectSymbol .leftBracket
      let selector ← parts.anyExpr
      let close ← expectSymbol .rightBracket
      return .attributeAt base selector (base.span.merge close.span)
  | _ => return .attributes base (base.span.merge sign.span)

/-- `base@`, `base@name` or `base@[selector]`, behind the base -/
def attributeSuffix (base : Reference) : Step Reference := do
  let sign ← expectSymbol .atSign
  attributeSelector parts base sign

def suffix (base : Reference) : Step (ForInStep Reference) := do
  match ← current with
  | .symbol .leftBracket => return .yield (← indexSuffix parts base)
  | .symbol .dot => return .yield (← fieldSuffix base)
  | .symbol .atSign => return .yield (← attributeSuffix parts base)
  | _ => return .done base

def suffixes (base : Reference) : Step Reference :=
  loop (suffix parts) base

/-- A name and all suffixes that follow it. -/
def reference : Step Reference := do
  suffixes parts (.name (← nameReference))

def references : Step (List Reference) :=
  commaSeparated (reference parts)

/-! ### Primary expressions -/

/-- `type.member` -/
def typeMember : Step Expr := do
  let type ← baseType parts.typeName
  let _ ← expectSymbol .dot
  let member ← expectIdentifier
  return .typeMember type member (type.span.merge member.span)

def arrayLiteral : Step Expr := do
  let open_ ← expectSymbol .leftBracket
  let (elements, close) ← closedList .rightBracket parts.anyExpr
  return .array elements (open_.span.merge close.span)

def nameKey : Step Expr := do
  return .reference (.name ⟨none, ← expectIdentifier⟩)

/-- The key of a map entry. A name with a colon behind it is a key, never the
start of a qualified name. -/
def mapKey : Step Expr := do
  if (← check .identifier) && (← kindNth 1) == .symbol .colon then nameKey else parts.anyExpr

def mapEntry : Step MapEntry := do
  let key ← mapKey parts
  let _ ← expectSymbol .colon
  let value ← parts.anyExpr
  return ⟨key, value, key.span.merge value.span⟩

def mapLiteral : Step Expr := do
  let open_ ← expectSymbol .leftBrace
  let (entries, close) ← closedList .rightBrace (mapEntry parts)
  return .mapping entries (open_.span.merge close.span)

def named : Step Expr := do
  let name ← nameReference
  if ← check (.symbol .leftParen) then
    let (arguments, close) ← arguments parts
    return .call name arguments (name.span.merge close)
  else return .reference (← suffixes parts (.name name))

def plainLiteral : Step Expr := do
  let token ← advance
  return .literal (← literalOf token)

def template : Step Expr := do
  let token ← expect .template
  return .template token.lexeme token.span

def primary : Step Expr := do
  let token ← peek
  match token.kind with
  | .integer | .floating | .string | .boolean | .null => plainLiteral
  | .template => template
  | .symbol .leftBracket => arrayLiteral parts
  | .symbol .leftBrace => mapLiteral parts
  | .identifier => named parts
  | .keyword .createKw => fail (.error .expectedExpression token.span
      "connector creation is only allowed as an initializer")
  | kind =>
      if kind.isValueType || kind.isReferenceType then typeMember parts
      else failAt fun token => .expectedExpression token.span token.kind.description

/-! ### Forms with an operator in front -/

/-- `(target) operand` -/
def castForm : Step Expr := do
  let open_ ← expectSymbol .leftParen
  let target ← parts.typeName
  let _ ← expectSymbol .rightParen
  let operand ← parts.expr UnaryOperator.power
  return .cast target operand (open_.span.merge operand.span)

/-- `<target> operand` -/
def convertForm : Step Expr := do
  let open_ ← expectSymbol .less
  let target ← parts.typeName
  let _ ← expectSymbol .greater
  let operand ← parts.expr UnaryOperator.power
  return .convert target operand (open_.span.merge operand.span)

def parenForm : Step Expr := do
  let open_ ← expectSymbol .leftParen
  let inner ← parts.anyExpr
  let close ← expectSymbol .rightParen
  return .paren inner (open_.span.merge close.span)

def negativeLiteral : Step Literal := do
  let sign ← expectSymbol .minus
  let number ← advance
  let literal ← literalOf number
  return { literal with negative := true, span := sign.span.merge number.span }

def startsNegativeLiteral : Step Bool := do
  return (← check (.symbol .minus)) && (← kindNth 1).isNumber

def unaryForm (operator : UnaryOperator) : Step Expr := do
  let sign ← expectSymbol operator.symbol
  let operand ← parts.expr UnaryOperator.power
  return .unary operator operand (sign.span.merge operand.span)

/-- What starts with an opening parenthesis: a cast, or an expression in
parentheses. -/
def castOrParen : Step Expr := do
  if ← isCast then castForm parts else parenForm parts

/-- An operand: a primary expression, with any operators in front of it. -/
def operand : Step Expr := do
  if ← startsNegativeLiteral then return .literal (← negativeLiteral)
  else
    let kind ← current
    match UnaryOperator.ofKind? kind with
    | some operator => unaryForm parts operator
    | none =>
        match kind with
        | .symbol .less => convertForm parts
        | .symbol .leftParen => castOrParen parts
        | _ => primary parts

/-! ### Binary operators -/

def binaryForm (operator : BinaryOperator) (left : Expr) : Step Expr := do
  let _ ← expectSymbol operator.symbol
  let right ← parts.expr operator.rightPower
  return .binary operator left right (left.span.merge right.span)

/-- Take one more operator that binds at least as tightly as `power`, with its
right operand. -/
def extend (power : Nat) (left : Expr) : Step (ForInStep Expr) := do
  match BinaryOperator.ofKind? (← current) with
  | none => return .done left
  | some operator =>
      if operator.leftPower < power then return .done left
      else return .yield (← binaryForm parts operator left)

def operation (power : Nat) : Step Expr := do
  loop (extend parts power) (← operand parts)

/-- An expression of operators that bind at least as tightly as `power`. -/
def expr [Guard] : (room : Nat) → (power : Nat) → Step Expr
  | 0, _ => tooDeep
  | room + 1, power => Guard.nested (operation ⟨typeName room, expr room⟩ power)

def ExprParts.within [Guard] (room : Nat) : ExprParts :=
  ⟨Grammar.typeName room, Grammar.expr room⟩

/-! ### Initializers -/

/-- `create connector(arguments)` -/
def creation : Step Expr := do
  let word ← expectKeyword .createKw
  let connector ← nameReference
  let (arguments, close) ← arguments parts
  return .create connector arguments (word.span.merge close)

/-- The parts of `connector.action(arguments)`: connector, action, arguments,
and the span of it all. -/
def invocation : Step (NameReference × Identifier × List Expr × Span) := do
  let connector ← nameReference
  let _ ← expectSymbol .dot
  let action ← expectIdentifier
  let (arguments, close) ← arguments parts
  return (connector, action, arguments, connector.span.merge close)

def invocationForm : Step Expr := do
  let (connector, action, arguments, span) ← invocation parts
  return .invoke connector action arguments span

/-- What may stand behind the equals sign of a variable or assignment: the
creation of a connector, the invocation of an action, or an expression. -/
def initializer : Step Expr := do
  if ← check (.keyword .createKw) then creation parts
  else if ← isInvocation then invocationForm parts
  else parts.anyExpr

end ServiceLang.Grammar
