import ServiceLang.Span
import ServiceLang.Token.Kind

set_option autoImplicit false

/-! Tokens: a kind, the exact text, and where it stands. -/

namespace ServiceLang

structure Token where
  kind : Kind
  lexeme : String
  span : Span
deriving DecidableEq, Repr

def Token.missingEnd : Token :=
  ⟨.endOfFile, "", .nowhere⟩

end ServiceLang
