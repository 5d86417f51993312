import ServiceLang.Parse.State
import ServiceLang.Tree.Name

set_option autoImplicit false

/-! Steps of a parse. A step either gives a value or fails with a diagnostic,
which nobody has reported yet; either way the parser stays where the step
stopped. -/

namespace ServiceLang

abbrev Step (α : Type) : Type :=
  EStateM Diagnostic Parser α

namespace Step

def cursor : Step Cursor := do
  return (← get).cursor

def options : Step Options := do
  return (← get).options

/-! ### Looking -/

def peek : Step Token := do
  return (← cursor).peek

def current : Step Kind := do
  return (← peek).kind

def kindNth (count : Nat) : Step Kind := do
  return ((← cursor).peekNth count).kind

def check (kind : Kind) : Step Bool := do
  return (← current) == kind

def isEnd : Step Bool :=
  check .endOfFile

def spanFrom (start : Span) : Step Span := do
  return (← cursor).spanFrom start

/-! ### Failing and reporting -/

def fail {α : Type} (diagnostic : Diagnostic) : Step α :=
  throw diagnostic

def report (diagnostic : Diagnostic) : Step Unit :=
  modify (fun parser => parser.report diagnostic)

def wrongToken (found : Token) (wanted : String) : Diagnostic :=
  if found.kind = .endOfFile then
    .error .unexpectedEnd found.span (Diagnostic.wantedFound wanted found.kind.description)
  else .expectedToken found.span wanted found.kind.description

/-- Fail at the current token. At the end of the file only that is said. -/
def failAt {α : Type} (other : Token → Diagnostic) : Step α := do
  let token ← peek
  fail (if token.kind = .endOfFile then .unexpectedEnd token.span else other token)

def tooDeep {α : Type} : Step α := do
  let token ← peek
  let limit := (← options).maxDepth
  fail (.error .nestingTooDeep token.span ("nesting exceeds the limit of " ++ toString limit))

/-! ### Nesting -/

/-- A part one level further in, or a refusal at the limit. The level is closed again behind
the part, whether that has given a value or failed. -/
def nested {α : Type} (part : Step α) : Step α := fun parser =>
  if below : parser.depth < parser.options.maxDepth then
    match part (parser.enter below) with
    | .ok value later => .ok value later.leave
    | .error diagnostic later => .error diagnostic later.leave
  else tooDeep parser

/-! ### Consuming -/

/-- Consume the current token. The end of file stays. -/
def advance : Step Token := do
  let token ← peek
  modify (fun parser => { parser with cursor := parser.cursor.advance })
  return token

def eat? (kind : Kind) : Step (Option Token) := do
  if ← check kind then return some (← advance) else return none

def eat (kind : Kind) : Step Bool := do
  return (← eat? kind).isSome

def expect (kind : Kind) : Step Token := do
  if ← check kind then advance else fail (wrongToken (← peek) kind.description)

def expectSymbol (symbol : Symbol) : Step Token :=
  expect (.symbol symbol)

def expectKeyword (word : Keyword) : Step Token :=
  expect (.keyword word)

def expectIdentifier : Step Identifier := do
  if ← check .identifier then
    let token ← advance
    return ⟨token.lexeme, token.span⟩
  else
    failAt fun token => .expectedIdentifier token.span token.kind.description

/-- Report that a token is missing and go on as if it stood here. The current
token stays. -/
def assume (kind : Kind) : Step TokenMarker := do
  let cursor ← cursor
  let place := match cursor.previous with
    | some token => token.span.after
    | none => cursor.peek.span
  report ((wrongToken cursor.peek kind.description).withRecovery (.inserted kind.description))
  return ⟨place, true⟩

def closeBrace : Step TokenMarker := do
  match ← eat? (.symbol .rightBrace) with
  | some token => return ⟨token.span, false⟩
  | none => assume (.symbol .rightBrace)

/-- Whether a missing semicolon may be assumed before a token of this kind: it
starts what can come next, or ends what surrounds. -/
def mayFollowStatement (kind : Kind) : Bool :=
  kind.startsStatement || kind.startsDefinition ||
    kind ∈ [.keyword .workerKw, .symbol .rightBrace, .endOfFile, .symbol .atSign]

/-- Consume a semicolon, or assume it where the next token makes that safe. -/
def endStatement : Step TokenMarker := do
  match ← eat? (.symbol .semicolon) with
  | some token => return ⟨token.span, false⟩
  | none =>
      if mayFollowStatement (← current) then assume (.symbol .semicolon)
      else fail (wrongToken (← peek) (Kind.symbol .semicolon).description)

/-- Take the comments right before the current token, each only once. -/
def takeComments : Step (List Token) := do
  let parser ← get
  if parser.options.keepComments then
    set { parser with cursor := { parser.cursor with comments := [] } }
    return parser.cursor.comments
  else return []

/-! ### Repeating -/

/-- Repeat a turn until it says that it is done. A turn that has not consumed
anything is the last one. -/
def loop {σ : Type} (turn : σ → Step (ForInStep σ)) (state : σ) : Step σ := fun parser =>
  match turn state parser with
  | .error diagnostic later => .error diagnostic later
  | .ok (.done state) later => .ok state later
  | .ok (.yield state) later =>
      if later.cursor.remaining < parser.cursor.remaining then loop turn state later
      else .ok state later
termination_by parser => parser.cursor.remaining

def nextListed {α : Type} (item : Step α) (items : List α) : Step (ForInStep (List α)) := do
  let items := items ++ [← item]
  if ← eat (.symbol .comma) then return .yield items else return .done items

def commaSeparated {α : Type} (item : Step α) : Step (List α) :=
  loop (nextListed item) []

def nextAt {α : Type} (kind : Kind) (item : Step α) (items : List α) :
    Step (ForInStep (List α)) := do
  if ← check kind then return .yield (items ++ [← item]) else return .done items

def whileAt {α : Type} (kind : Kind) (item : Step α) : Step (List α) :=
  loop (nextAt kind item) []

/-- Items with commas between them; none if a closing symbol stands here. -/
def listBefore {α : Type} (close : Symbol) (item : Step α) : Step (List α) := do
  if ← check (.symbol close) then return [] else commaSeparated item

/-- Items with commas between them, closed by a symbol; there may be none. The
closing token is given back too. -/
def closedList {α : Type} (close : Symbol) (item : Step α) : Step (List α × Token) := do
  let items ← listBefore close item
  return (items, ← expectSymbol close)

/-! ### Optional parts -/

def ifAt {α : Type} (kind : Kind) (part : Step α) : Step (Option α) := do
  if ← check kind then return some (← part) else return none

def ifBehind {α : Type} (kind : Kind) (part : Step α) : Step (Option α) := do
  if ← eat kind then return some (← part) else return none

end Step

/-- What is done where a rule goes one level further in. -/
class Guard where
  nested {α : Type} : Step α → Step α

namespace Guard

/-- Levels are only counted down, in the number of those that are left. -/
instance (priority := low) uncounted : Guard where
  nested part := part

/-- Levels are counted in the state of the parse too, which decides. -/
abbrev counted : Guard where
  nested := Step.nested

end Guard

end ServiceLang
