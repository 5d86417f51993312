set_option autoImplicit false

/-! The kinds of token: reserved words, symbols, literals, names, comments, and
the two ends of a scan. Every kind has one description, which is what a
diagnostic calls it. -/

namespace ServiceLang

/-- The reserved words other than `true`, `false` and `null`, which are
literals. -/
inductive Keyword where
  | packageKw | importKw | asKw | xmlnsKw
  | serviceKw | resourceKw | nativeKw | functionKw | connectorKw | actionKw
  | structKw | annotationKw | attachKw | typemapperKw | constKw | parameterKw
  | workerKw
  | anyKw | booleanKw | intKw | floatKw | stringKw | blobKw | messageKw | mapKw
  | xmlKw | xmlDocumentKw | jsonKw | datatableKw
  | transformKw | createKw | varKw | ifKw | elseKw | iterateKw | whileKw
  | continueKw | breakKw | forkKw | joinKw | someKw | allKw | timeoutKw | tryKw
  | catchKw | finallyKw | throwKw | returnKw | replyKw | transactionKw
  | abortedKw | committedKw | abortKw
deriving DecidableEq, Repr

namespace Keyword

def text : Keyword → String
  | packageKw => "package"
  | importKw => "import"
  | asKw => "as"
  | xmlnsKw => "xmlns"
  | serviceKw => "service"
  | resourceKw => "resource"
  | nativeKw => "native"
  | functionKw => "function"
  | connectorKw => "connector"
  | actionKw => "action"
  | structKw => "struct"
  | annotationKw => "annotation"
  | attachKw => "attach"
  | typemapperKw => "typemapper"
  | constKw => "const"
  | parameterKw => "parameter"
  | workerKw => "worker"
  | anyKw => "any"
  | booleanKw => "boolean"
  | intKw => "int"
  | floatKw => "float"
  | stringKw => "string"
  | blobKw => "blob"
  | messageKw => "message"
  | mapKw => "map"
  | xmlKw => "xml"
  | xmlDocumentKw => "xmlDocument"
  | jsonKw => "json"
  | datatableKw => "datatable"
  | transformKw => "transform"
  | createKw => "create"
  | varKw => "var"
  | ifKw => "if"
  | elseKw => "else"
  | iterateKw => "iterate"
  | whileKw => "while"
  | continueKw => "continue"
  | breakKw => "break"
  | forkKw => "fork"
  | joinKw => "join"
  | someKw => "some"
  | allKw => "all"
  | timeoutKw => "timeout"
  | tryKw => "try"
  | catchKw => "catch"
  | finallyKw => "finally"
  | throwKw => "throw"
  | returnKw => "return"
  | replyKw => "reply"
  | transactionKw => "transaction"
  | abortedKw => "aborted"
  | committedKw => "committed"
  | abortKw => "abort"

def all : List Keyword :=
  [packageKw, importKw, asKw, xmlnsKw,
   serviceKw, resourceKw, nativeKw, functionKw, connectorKw, actionKw,
   structKw, annotationKw, attachKw, typemapperKw, constKw, parameterKw,
   workerKw,
   anyKw, booleanKw, intKw, floatKw, stringKw, blobKw, messageKw, mapKw,
   xmlKw, xmlDocumentKw, jsonKw, datatableKw,
   transformKw, createKw, varKw, ifKw, elseKw, iterateKw, whileKw,
   continueKw, breakKw, forkKw, joinKw, someKw, allKw, timeoutKw, tryKw,
   catchKw, finallyKw, throwKw, returnKw, replyKw, transactionKw,
   abortedKw, committedKw, abortKw]

def ofText? (word : String) : Option Keyword :=
  all.find? (fun keyword => keyword.text == word)

theorem mem_all (keyword : Keyword) : keyword ∈ all := by
  cases keyword <;> decide

def isValueType : Keyword → Bool
  | booleanKw | intKw | floatKw | stringKw | blobKw => true
  | _ => false

def isReferenceType : Keyword → Bool
  | messageKw | mapKw | xmlKw | xmlDocumentKw | jsonKw | datatableKw => true
  | _ => false

/-- The words that can only open a definition or the header of a source. -/
def startsDefinition : Keyword → Bool
  | packageKw | importKw | serviceKw | nativeKw | functionKw | connectorKw
  | structKw | typemapperKw | constKw | annotationKw => true
  | _ => false

def startsStatement : Keyword → Bool
  | varKw | ifKw | iterateKw | whileKw | continueKw | breakKw | forkKw | tryKw
  | throwKw | returnKw | replyKw | transformKw | transactionKw | abortKw
  | xmlnsKw => true
  | _ => false

end Keyword

inductive Symbol where
  | plus | minus | bang | caret | slash | star | percent
  | less | greater | lessEqual | greaterEqual | equalEqual | bangEqual
  | ampAmp | pipePipe | equal | rightArrow | leftArrow
  | leftParen | rightParen | leftBrace | rightBrace | leftBracket | rightBracket
  | semicolon | comma | dot | colon | atSign
deriving DecidableEq, Repr

def Symbol.text : Symbol → String
  | .plus => "+"
  | .minus => "-"
  | .bang => "!"
  | .caret => "^"
  | .slash => "/"
  | .star => "*"
  | .percent => "%"
  | .less => "<"
  | .greater => ">"
  | .lessEqual => "<="
  | .greaterEqual => ">="
  | .equalEqual => "=="
  | .bangEqual => "!="
  | .ampAmp => "&&"
  | .pipePipe => "||"
  | .equal => "="
  | .rightArrow => "->"
  | .leftArrow => "<-"
  | .leftParen => "("
  | .rightParen => ")"
  | .leftBrace => "\x7b"
  | .rightBrace => "\x7d"
  | .leftBracket => "["
  | .rightBracket => "]"
  | .semicolon => ";"
  | .comma => ","
  | .dot => "."
  | .colon => ":"
  | .atSign => "@"

/-- What a token is. `invalid` covers input that is no token at all;
`endOfFile` is the empty token behind the last one. -/
inductive Kind where
  | integer | floating | boolean | string | template | null
  | identifier
  | comment
  | keyword (word : Keyword)
  | symbol (symbol : Symbol)
  | endOfFile
  | invalid
deriving DecidableEq, Repr

namespace Kind

/-- The kind of a word: a reserved one, or else a name. -/
def ofWord? (word : String) : Option Kind :=
  if word == "true" || word == "false" then some .boolean
  else if word == "null" then some .null
  else (Keyword.ofText? word).map .keyword

/-- What a diagnostic calls a token of this kind: words and symbols stand in
single quotes. -/
def description : Kind → String
  | integer => "integer literal"
  | floating => "floating-point literal"
  | boolean => "boolean literal"
  | string => "string literal"
  | template => "template string"
  | null => "'null'"
  | identifier => "identifier"
  | comment => "comment"
  | keyword word => "'" ++ word.text ++ "'"
  | symbol sign => "'" ++ sign.text ++ "'"
  | endOfFile => "end of file"
  | invalid => "invalid token"

def isKeyword : Kind → Bool
  | keyword _ => true
  | _ => false

def isLiteral : Kind → Bool
  | integer | floating | boolean | string | template | null => true
  | _ => false

def isNumber : Kind → Bool
  | integer | floating => true
  | _ => false

def isValueType : Kind → Bool
  | keyword word => word.isValueType
  | _ => false

def isReferenceType : Kind → Bool
  | keyword word => word.isReferenceType
  | _ => false

def startsDefinition : Kind → Bool
  | keyword word => word.startsDefinition
  | _ => false

def startsStatement : Kind → Bool
  | keyword word => word.startsStatement
  | _ => false

def startsType (kind : Kind) : Bool :=
  kind == keyword .anyKw || kind == identifier || kind.isValueType || kind.isReferenceType

def startsOperand (kind : Kind) : Bool :=
  kind.isLiteral || kind.isValueType || kind.isReferenceType ||
    kind ∈ [identifier, symbol .leftParen, symbol .leftBracket, symbol .leftBrace, symbol .less,
      symbol .plus, symbol .minus, symbol .bang]

end Kind

end ServiceLang
