import ServiceLang.Grammar.Definition
import ServiceLang.Lexical.Stream

set_option autoImplicit false

/-! Reading whole sources, lists of tokens, and fragments of a source. -/

namespace ServiceLang

namespace Parser

def ofSource (source : String) (options : Options) : Parser :=
  let (tokens, errors) := tokenize source
  .ofTokens tokens errors options

end Parser

/-- A rule with its levels counted in the state of the parse. It is that count which decides:
the number of levels that are left is never used up. -/
def Grammar.counted {α : Type} (rule : [Guard] → (room : Nat) → Step α) : Step α := do
  @rule .counted ((← Step.options).maxDepth + 1)

/-- Run a parse to its end: the tree, which may be partial, and the diagnostics. -/
def Parser.readUnit (parser : Parser) : SourceUnit × Report :=
  match Grammar.counted Grammar.sourceUnit parser with
  | .ok unit later => (unit, later.diagnostics)
  | .error _ later => (⟨none, [], [], .nowhere⟩, later.diagnostics)

/-- Parse a source whatever is wrong with it. -/
def parseWith (source : String) (options : Options) : SourceUnit × Report :=
  (Parser.ofSource source options).readUnit

def parseLenient (source : String) : SourceUnit × Report :=
  parseWith source {}

/-- Parse a source that has no errors. -/
def parse (source : String) : Except Report SourceUnit :=
  let (unit, report) := parseLenient source
  if report.hasErrors then .error report else .ok unit

def parseTokens (tokens : List Token) (options : Options) : SourceUnit × Report :=
  (Parser.ofTokens tokens [] options).readUnit

/-- Parse a text that a rule has to cover up to its end, without any error. -/
def parseFragment {α : Type} (rule : [Guard] → (room : Nat) → Step α) (source : String) :
    Except Report α :=
  match Grammar.counted rule (Parser.ofSource source {}) with
  | .error diagnostic later => .error (later.report diagnostic).diagnostics
  | .ok tree later =>
      let found := later.cursor.peek
      let later :=
        if found.kind = .endOfFile then later
        else later.report
          (.expectedToken found.span Kind.endOfFile.description found.kind.description)
      if later.diagnostics.hasErrors then .error later.diagnostics else .ok tree

def parseExpr (source : String) : Except Report Expr :=
  parseFragment (fun room => Grammar.expr room 0) source

def parseStatement (source : String) : Except Report Stmt :=
  parseFragment Grammar.statement source

def parseTypeName (source : String) : Except Report TypeName :=
  parseFragment Grammar.typeName source

end ServiceLang
