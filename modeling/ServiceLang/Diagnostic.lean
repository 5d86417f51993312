import ServiceLang.Span

set_option autoImplicit false

/-! One diagnostic: what is wrong, how badly, where, in which words, and how
reading went on. -/

namespace ServiceLang

inductive Severity where
  | warning
  | error
deriving DecidableEq, Repr

def Severity.text : Severity → String
  | .warning => "warning"
  | .error => "error"

/-- How reading went on behind a problem. -/
inductive Recovery where
  /-- Nothing was skipped. -/
  | resumed
  /-- Reading went on as if the named token had stood there. -/
  | inserted (token : String)
  /-- So many tokens were thrown away. -/
  | skipped (tokens : Nat)
deriving DecidableEq, Repr

def Recovery.text : Recovery → String
  | .resumed => "resumed at the current token"
  | .inserted token => "assumed missing " ++ token
  | .skipped tokens =>
      "skipped " ++ toString tokens ++ " token" ++ (if tokens = 1 then "" else "s")

inductive Problem where
  | expectedToken | unexpectedToken | unexpectedEnd | lexical
  | expectedExpression | invalidLiteral | invalidTarget | expectedType
  | expectedStatement | duplicateClause | missingClause
  | expectedDefinition | expectedMember | expectedIdentifier
  | nestingTooDeep | tooManyErrors
deriving DecidableEq, Repr

def Problem.text : Problem → String
  | .expectedToken => "missing token"
  | .unexpectedToken => "unexpected token"
  | .unexpectedEnd => "premature end of input"
  | .lexical => "lexical error"
  | .expectedExpression => "missing expression"
  | .invalidLiteral => "invalid literal"
  | .invalidTarget => "invalid assignment target"
  | .expectedType => "missing type"
  | .expectedStatement => "missing statement"
  | .duplicateClause => "duplicate clause"
  | .missingClause => "missing clause"
  | .expectedDefinition => "missing definition"
  | .expectedMember => "missing member"
  | .expectedIdentifier => "missing identifier"
  | .nestingTooDeep => "nesting limit exceeded"
  | .tooManyErrors => "error limit reached"

structure Diagnostic where
  problem : Problem
  severity : Severity
  span : Span
  message : String
  recovery : Option Recovery
deriving DecidableEq, Repr

namespace Diagnostic

/-- An error from which reading has not gone on yet. -/
def error (problem : Problem) (span : Span) (message : String) : Diagnostic :=
  ⟨problem, .error, span, message, none⟩

def withSeverity (diagnostic : Diagnostic) (severity : Severity) : Diagnostic :=
  { diagnostic with severity }

def withRecovery (diagnostic : Diagnostic) (recovery : Recovery) : Diagnostic :=
  { diagnostic with recovery := some recovery }

def isError (diagnostic : Diagnostic) : Bool :=
  diagnostic.severity == .error

def wantedFound (wanted found : String) : String :=
  "expected " ++ wanted ++ ", found " ++ found

def expectedToken (span : Span) (wanted found : String) : Diagnostic :=
  .error .expectedToken span (wantedFound wanted found)

def expectedIdentifier (span : Span) (found : String) : Diagnostic :=
  .error .expectedIdentifier span (wantedFound "identifier" found)

def expectedExpression (span : Span) (found : String) : Diagnostic :=
  .error .expectedExpression span (wantedFound "expression" found)

def expectedType (span : Span) (found : String) : Diagnostic :=
  .error .expectedType span (wantedFound "type name" found)

def unexpectedToken (span : Span) (token : String) : Diagnostic :=
  .error .unexpectedToken span (token ++ " is not allowed here")

def unexpectedEnd (span : Span) : Diagnostic :=
  .error .unexpectedEnd span "source ended in the middle of a construct"

/-- One line: what is wrong, where, and in which words. -/
def text (diagnostic : Diagnostic) : String :=
  diagnostic.problem.text ++ " at " ++ diagnostic.span.text ++ ": " ++ diagnostic.message

end Diagnostic

end ServiceLang
