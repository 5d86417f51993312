import ServiceLang.Diagnostic.Report
import ServiceLang.Lexical.Fault
import ServiceLang.Parse.Cursor

set_option autoImplicit false

/-! The state of one parse: a place among the tokens, the levels that are open, and the
diagnostics reported so far. -/

namespace ServiceLang

structure Options where
  /-- How deep blocks, expressions, types and annotations may nest, counted
  together. -/
  maxDepth : Nat := 64
  /-- How many diagnostics are recorded. -/
  maxErrors : Option Nat := none
  /-- Whether comments where statements stand are kept as statements. -/
  keepComments : Bool := true
deriving DecidableEq, Repr

structure Parser where
  cursor : Cursor
  options : Options
  diagnostics : Report
  /-- The offsets at which an error has been reported. -/
  reportedAt : List Nat
  /-- Whether the limit on diagnostics has been reached. -/
  limitHit : Bool
  /-- How many levels are open. -/
  depth : Nat
  depth_le : depth ≤ options.maxDepth

namespace Parser

/-- Record a diagnostic. A second error at an offset that already has one is
dropped. The first diagnostic past the limit closes the list with a note of its
own. -/
def report (parser : Parser) (diagnostic : Diagnostic) : Parser :=
  if parser.limitHit then parser
  else if diagnostic.isError && parser.reportedAt.contains diagnostic.span.start then parser
  else
    let parser :=
      if diagnostic.isError then
        { parser with reportedAt := diagnostic.span.start :: parser.reportedAt }
      else parser
    match parser.options.maxErrors with
    | some limit =>
        if limit ≤ parser.diagnostics.size then
          { parser with
            limitHit := true
            diagnostics := parser.diagnostics.push
              (.error .tooManyErrors diagnostic.span
                ("too many errors, stopped reporting after " ++ toString limit)) }
        else { parser with diagnostics := parser.diagnostics.push diagnostic }
    | none => { parser with diagnostics := parser.diagnostics.push diagnostic }

/-- A parse that is about to start. Lexical errors are the first diagnostics. -/
def ofTokens (tokens : List Token) (errors : List LexicalError) (options : Options) : Parser :=
  errors.foldl (fun parser problem => parser.report problem.toDiagnostic)
    { cursor := .ofTokens tokens
      options := options
      diagnostics := .empty
      reportedAt := []
      limitHit := false
      depth := 0
      depth_le := Nat.zero_le _ }

def takeDiagnostics (parser : Parser) : Report × Parser :=
  (parser.diagnostics, { parser with diagnostics := .empty })

def enter (parser : Parser) (below : parser.depth < parser.options.maxDepth) : Parser :=
  { parser with
    depth := parser.depth + 1
    depth_le := below }

def leave (parser : Parser) : Parser :=
  { parser with
    depth := parser.depth - 1
    depth_le := Nat.le_trans (Nat.sub_le _ _) parser.depth_le }

theorem cursor_report (parser : Parser) (diagnostic : Diagnostic) :
    (parser.report diagnostic).cursor = parser.cursor := by
  simp only [report]
  split
  · rfl
  · split
    · rfl
    · split
      · split <;> split <;> rfl
      · split <;> rfl

end Parser

end ServiceLang
