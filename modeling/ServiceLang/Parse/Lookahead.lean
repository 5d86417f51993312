import ServiceLang.Parse.Step

set_option autoImplicit false

/-! Telling apart what starts alike. A type name is passed over to see what stands behind it;
the parser then goes back to where it was. Nothing here is built or reported. -/

namespace ServiceLang

namespace Step

/-! ### Passing over a type name -/

def both (first second : Step Bool) : Step Bool := do
  if ← first then second else return false

def passConstraint (isJson : Bool) : Step Bool := do
  let braced ← eat (.symbol .leftBrace)
  both (if braced then both (eat .string) (eat (.symbol .rightBrace)) else return true) <|
    both (if isJson then return braced else eat .identifier) (eat (.symbol .greater))

def passBounds (bounds : Step Bool) : Step Bool := do
  if ← eat (.symbol .less) then bounds else return true

/-- Pass over a type name without array suffixes. `inner` passes over the constraint of a map. -/
def passBase (inner : Step Bool) : Step Bool := do
  match ← current with
  | .identifier =>
      let _ ← advance
      if (← check (.symbol .colon)) && (← kindNth 1) == .identifier then
        let _ ← advance
        let _ ← advance
        return true
      else return true
  | .keyword .mapKw =>
      let _ ← advance
      passBounds (both inner (eat (.symbol .greater)))
  | .keyword .xmlKw | .keyword .xmlDocumentKw =>
      let _ ← advance
      passBounds (passConstraint false)
  | .keyword .jsonKw =>
      let _ ← advance
      passBounds (passConstraint true)
  | kind =>
      if kind.startsType then
        let _ ← advance
        return true
      else return false

def passDimension (_ : Unit) : Step (ForInStep Unit) := do
  if (← check (.symbol .leftBracket)) && (← kindNth 1) == .symbol .rightBracket then
    let _ ← advance
    let _ ← advance
    return .yield ()
  else return .done ()

/-- Pass over a type name in which at most `room` map types nest. -/
def passType : (room : Nat) → Step Bool
  | 0 => return false
  | room + 1 => do
      if ← passBase (passType room) then
        loop passDimension ()
        return true
      else return false

/-! ### Shapes -/

/-- What is found out by going on. The parser then stands where it stood before. -/
def lookAhead {α : Type} (ahead : Step α) : Step α := do
  let saved ← cursor
  let seen ← ahead
  modify (fun parser => { parser with cursor := saved })
  return seen

def lookRoom : Step Nat := do
  return (← options).maxDepth + 1

/-- A type name with an identifier behind it: a variable definition. -/
def isVarDef : Step Bool := do
  if (← current).startsType then
    let room ← lookRoom
    lookAhead (both (passType room) (check .identifier))
  else return false

/-- What follows a parenthesised type name in a cast. A bare name followed by `+`, `-` or `<`
is an operand itself. -/
def castBehind (first : Kind) : Step Bool := do
  let bareName := first == .identifier && (← cursor).previousToken.kind == .identifier
  let _ ← advance
  let next ← current
  return next.startsOperand &&
    !(bareName && next ∈ [.symbol .plus, .symbol .minus, .symbol .less])

def passTarget (room : Nat) : Step Bool := do
  let _ ← advance
  let first ← current
  both (both (passType room) (check (.symbol .rightParen))) (castBehind first)

def isCast : Step Bool := do
  if ← check (.symbol .leftParen) then
    let room ← lookRoom
    lookAhead (passTarget room)
  else return false

end Step

/-- A name, a dot, a name, and an opening parenthesis: the invocation of an
action. -/
def startsInvocation : List Kind → Bool
  | .identifier :: .symbol .colon :: .identifier :: .symbol .dot :: .identifier ::
      .symbol .leftParen :: _ => true
  | .identifier :: .symbol .dot :: .identifier :: .symbol .leftParen :: _ => true
  | _ => false

/-- A join condition in parentheses. The word `any` can also start a type; a
number behind it decides. -/
def startsJoinCondition : List Kind → Bool
  | .symbol .leftParen :: .keyword .someKw :: _ => true
  | .symbol .leftParen :: .keyword .allKw :: _ => true
  | .symbol .leftParen :: .keyword .anyKw :: .integer :: _ => true
  | _ => false

namespace Step

def isInvocation : Step Bool := do
  return startsInvocation (← cursor).kinds

def isJoinCondition : Step Bool := do
  return startsJoinCondition (← cursor).kinds

end Step

end ServiceLang
