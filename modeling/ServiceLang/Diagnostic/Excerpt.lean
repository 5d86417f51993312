import ServiceLang.Diagnostic

set_option autoImplicit false

/-! A diagnostic shown with the source line it is about and a mark under the
bytes it covers. -/

namespace ServiceLang

/-- The lines of a text. A line ends at a newline, together with one carriage
return right before it; an empty line at the very end does not count. -/
def sourceLines : List Char → List (List Char)
  | [] => []
  | '\n' :: rest => [] :: sourceLines rest
  | '\r' :: '\n' :: rest => [] :: sourceLines rest
  | char :: rest =>
      match sourceLines rest with
      | [] => [[char]]
      | line :: lines => (char :: line) :: lines

/-- The line with this number, counted from one. -/
def sourceLine? (source : String) (number : Nat) : Option String :=
  if number = 0 then none
  else (sourceLines source.toList)[number - 1]?.map String.ofList

namespace Diagnostic

private def blanks (count : Nat) : String :=
  "".pushn ' ' count

def heading (diagnostic : Diagnostic) : String :=
  diagnostic.severity.text ++ "[" ++ diagnostic.span.text ++ "] " ++ diagnostic.problem.text ++
    (if diagnostic.message.isEmpty then "" else ": " ++ diagnostic.message) ++ "\n"

/-- The mark under a span: a caret, then a tilde for each further byte. -/
def underline (span : Span) : String :=
  "^".pushn '~' (span.length - 1)

/-- The diagnostic with its source line. The line number stands right-aligned
in a gutter of at least four columns. Where the source has no such line, only
the heading and the recovery remain. -/
def excerpt (diagnostic : Diagnostic) (source : String) : String :=
  let number := toString diagnostic.span.line
  let gutter := max number.length 4
  let note (margin : String) : String :=
    match diagnostic.recovery with
    | some recovery => margin ++ " = " ++ recovery.text ++ "\n"
    | none => ""
  match sourceLine? source diagnostic.span.line with
  | some line =>
      diagnostic.heading ++
        blanks (gutter - number.length) ++ number ++ " | " ++ line ++ "\n" ++
        blanks gutter ++ " | " ++ blanks (diagnostic.span.column - 1) ++
          underline diagnostic.span ++ "\n" ++
        note (blanks gutter)
  | none => diagnostic.heading ++ note " "

end Diagnostic

end ServiceLang
