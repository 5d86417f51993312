import ServiceLang.Parse.Step

set_option autoImplicit false

/-! Going on behind an error: how many tokens are thrown away, and what is
reported about it. Braces are counted on the way, so that a broken part that
is itself balanced does not close what surrounds it. -/

namespace ServiceLang

/-- What is being read when an error occurs. -/
inductive SyncPoint where
  /-- A list of statements. -/
  | statement
  /-- The members of a service, connector, struct, annotation or fork. -/
  | member
deriving DecidableEq, Repr

/-- Whether reading can go on before a token of this kind, which lies in no
skipped brace and behind the first skipped token. -/
def SyncPoint.resumesAt (sync : SyncPoint) (kind : Kind) : Bool :=
  kind.startsStatement || kind == .keyword .workerKw ||
    (sync == .member &&
      kind ∈ [.keyword .resourceKw, .keyword .actionKw, .symbol .atSign])

/-- The number of tokens to skip inside a body. Skipping stops behind a
semicolon or behind the brace that closes the outermost skipped one, and before
the end of the file, an unmatched closing brace, a word that starts a
definition, or a place to resume. `moved` says whether a token has been passed
since the error's start, `depth` counts the open skipped braces. -/
def syncLength (sync : SyncPoint) (moved : Bool) (depth : Nat) : List Kind → Nat
  | [] => 0
  | kind :: rest =>
      if kind = .symbol .semicolon ∧ depth = 0 then 1
      else if kind = .symbol .leftBrace then 1 + syncLength sync true (depth + 1) rest
      else if kind = .symbol .rightBrace then
        match depth with
        | 0 => 0
        | 1 => 1
        | depth + 2 => 1 + syncLength sync true (depth + 1) rest
      else if kind.startsDefinition then 0
      else if depth = 0 ∧ moved ∧ sync.resumesAt kind then 0
      else 1 + syncLength sync true depth rest

def openBraces (tokens : List Token) : Nat :=
  tokens.foldl (fun depth token =>
    match token.kind with
    | .symbol .leftBrace => depth + 1
    | .symbol .rightBrace => depth - 1
    | _ => depth) 0

/-- The number of tokens to skip between definitions. A run of unmatched closing
braces is skipped as one. -/
def definitionSyncLength (depth : Nat) : List Kind → Nat
  | [] => 0
  | kind :: rest =>
      if kind = .symbol .semicolon ∧ depth = 0 then 1
      else if kind = .symbol .leftBrace then 1 + definitionSyncLength (depth + 1) rest
      else if kind = .symbol .rightBrace then
        match depth with
        | 0 => 1 + (rest.takeWhile (· == .symbol .rightBrace)).length
        | 1 => 1
        | depth + 2 => 1 + definitionSyncLength (depth + 1) rest
      else if kind.startsDefinition then 0
      else if kind = .symbol .atSign ∧ depth = 0 then 0
      else 1 + definitionSyncLength depth rest

namespace Cursor

def advanceIfStill (cursor start : Cursor) : Cursor :=
  if cursor.remaining = start.remaining then cursor.advance else cursor

def sync (cursor start : Cursor) (point : SyncPoint) : Cursor :=
  cursor.advanceBy
    (syncLength point (cursor.remaining < start.remaining) 0 cursor.kinds)

/-- Skip to a place where the next definition can start. Braces that the broken
one has opened count. -/
def syncDefinition (cursor start : Cursor) : Cursor :=
  let depth := openBraces (cursor.consumedSince start)
  let cursor := cursor.advanceIfStill start
  cursor.advanceBy (definitionSyncLength depth cursor.kinds)

/-- The span of the tokens since `start`, or of the current token when there are
none. -/
def spanSince (cursor start : Cursor) : Span :=
  if cursor.remaining = start.remaining then cursor.peek.span
  else start.peek.span.merge cursor.previousToken.span

end Cursor

namespace Step

/-- Get past an error in the part of a body that began at `start`. At least one
token is passed. The span of the passed tokens is given back. -/
def recover (point : SyncPoint) (start : Cursor) (diagnostic : Diagnostic) : Step Span := do
  let target := ((← cursor).advanceIfStill start).sync start point
  modify (fun parser => { parser with cursor := target })
  let skipped := start.remaining - target.remaining
  report (diagnostic.withRecovery (if skipped = 0 then .resumed else .skipped skipped))
  return target.spanSince start

def orRecover {α : Type} (point : SyncPoint) (part : Step α) (instead : Span → α) : Step α := do
  let start ← cursor
  tryCatch part fun diagnostic => do
    return instead (← recover point start diagnostic)

def recoverDefinition (start : Cursor) (diagnostic : Diagnostic) : Step Span := do
  let target := (← cursor).syncDefinition start
  modify (fun parser => { parser with cursor := target })
  report (diagnostic.withRecovery (.skipped (start.remaining - target.remaining)))
  return target.spanSince start

def orSkip {α : Type} (part : Step α) (instead : Span → α) : Step α := do
  let start ← cursor
  tryCatch part fun diagnostic => do
    return instead (← recoverDefinition start diagnostic)

end Step

end ServiceLang
