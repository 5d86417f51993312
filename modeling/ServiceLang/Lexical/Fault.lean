import ServiceLang.Diagnostic

set_option autoImplicit false

/-! What can go wrong while a text is cut into tokens. -/

namespace ServiceLang

inductive LexicalFault where
  | strayCharacter (char : Char)
  | openString
  | openTemplate
  | openComment
  | malformedNumber (detail : String)
  /-- The string around the escape is still a string. -/
  | unknownEscape (char : Char)
deriving DecidableEq, Repr

structure LexicalError where
  fault : LexicalFault
  span : Span
deriving DecidableEq, Repr

namespace LexicalError

/-- Only an unknown escape leaves a usable token behind. -/
def severity (problem : LexicalError) : Severity :=
  match problem.fault with
  | .unknownEscape _ => .warning
  | _ => .error

def text (problem : LexicalError) : String :=
  let place := problem.span.text
  match problem.fault with
  | .strayCharacter char => "stray character '" ++ char.toString ++ "' at " ++ place
  | .openString => "string literal not closed before end of line at " ++ place
  | .openTemplate => "backtick template not closed at " ++ place
  | .openComment => "block comment not closed at " ++ place
  | .malformedNumber detail => "malformed numeric literal at " ++ place ++ ": " ++ detail
  | .unknownEscape char =>
      "'\\" ++ char.toString ++ "' is not a recognised escape (at " ++ place ++ ")"

def toDiagnostic (problem : LexicalError) : Diagnostic :=
  (Diagnostic.error .lexical problem.span problem.text).withSeverity problem.severity

end LexicalError

end ServiceLang
