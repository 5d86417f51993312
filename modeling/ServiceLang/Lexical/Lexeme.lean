import ServiceLang.Lexical.Fault
import ServiceLang.Lexical.Quoted
import ServiceLang.Token.Kind

set_option autoImplicit false

/-! The shape of the lexeme at the front of a text: how far it reaches, what
kind it has, and what is wrong with it. The text in front of a lexeme, blanks
and closed block comments, is measured here too. -/

namespace ServiceLang

/-- A lexeme consists of a first character and `more` characters behind it. -/
structure Lexeme where
  kind : Kind
  more : Nat
  /-- Why the lexeme is no token. -/
  fault : Option LexicalFault
  /-- The unknown escapes in it, each with the index of its backslash. -/
  unknownEscapes : List (Nat × Char)
deriving DecidableEq, Repr

namespace Lexeme

def good (kind : Kind) (more : Nat) : Lexeme :=
  ⟨kind, more, none, []⟩

def bad (fault : LexicalFault) (more : Nat) : Lexeme :=
  ⟨.invalid, more, some fault, []⟩

/-! ### Numbers -/

def isDigitOrUnderscore (char : Char) : Bool :=
  isDigit char || char == '_'

def startsWithDigit : List Char → Bool
  | char :: _ => isDigit char
  | [] => false

def integerSuffix : List Char → Nat
  | char :: _ => if char = 'l' ∨ char = 'L' then 1 else 0
  | [] => 0

/-- The length of a fraction at the front: a point, a digit, and more digits. -/
def fractionLength : List Char → Nat
  | '.' :: rest => if startsWithDigit rest then 1 + runLength isDigitOrUnderscore rest else 0
  | _ => 0

inductive Exponent where
  | absent
  | present (length : Nat)
  /-- The letter without the digits it calls for. -/
  | broken
deriving DecidableEq, Repr

def Exponent.read : List Char → Exponent
  | char :: rest =>
      if char = 'e' ∨ char = 'E' then
        let sign := match rest with
          | '+' :: _ | '-' :: _ => 1
          | _ => 0
        let digits := runLength isDigit (rest.drop sign)
        if digits = 0 then .broken else .present (1 + sign + digits)
      else .absent
  | [] => .absent

/-- A number that is not introduced by a radix mark. It may start with a point,
and no part of a name may follow it directly. -/
def decimal (chars : List Char) : Lexeme :=
  let whole := runLength isDigitOrUnderscore chars
  let fraction := fractionLength (chars.drop whole)
  let mantissa := whole + fraction
  match Exponent.read (chars.drop mantissa) with
  | .broken => .bad (.malformedNumber "missing exponent digits") mantissa
  | exponent =>
      let scaled := match exponent with
        | .present length => mantissa + length
        | _ => mantissa
      let scientific := fraction != 0 || exponent != .absent
      let suffix := match chars.drop scaled with
        | char :: _ =>
            if char ∈ ['f', 'F', 'd', 'D'] then (1, true)
            else if scientific then (0, true)
            else (integerSuffix (chars.drop scaled), false)
        | [] => (0, scientific)
      let length := scaled + suffix.1
      let trailing := runLength isNamePart (chars.drop length)
      if trailing ≠ 0 then
        .bad (.malformedNumber "unexpected characters after number") (length + trailing - 1)
      else .good (if suffix.2 then .floating else .integer) (length - 1)

/-- A number behind a radix mark such as `0x`: digits and underscores, and an
integer suffix. -/
def radix (isRadixDigit : Char → Bool) (rest : List Char) : Lexeme :=
  let digits := runLength (fun char => isRadixDigit char || char == '_') rest
  if digits = 0 then .bad (.malformedNumber "expected digits after radix prefix") 1
  else .good .integer (1 + digits + integerSuffix (rest.drop digits))

def number (first : Char) (rest : List Char) : Lexeme :=
  match first, rest with
  | '0', mark :: digits =>
      if mark = 'x' ∨ mark = 'X' then radix isHexDigit digits
      else if mark = 'b' ∨ mark = 'B' then radix isBinaryDigit digits
      else decimal (first :: rest)
  | _, _ => decimal (first :: rest)

/-! ### Words, strings and symbols -/

def word (first : Char) (rest : List Char) : Lexeme :=
  let more := runLength isNamePart rest
  let spelling := String.ofList (first :: rest.take more)
  .good ((Kind.ofWord? spelling).getD .identifier) more

def quoted (rest : List Char) : Lexeme :=
  let extent := stringExtent 0 0 rest
  let unknown := extent.unknown.map (fun (index, char) => (index + 1, char))
  if extent.closed then ⟨.string, extent.length, none, unknown⟩
  else ⟨.invalid, extent.length, some .openString, unknown⟩

def template (rest : List Char) : Lexeme :=
  match templateLength? rest with
  | some length => .good .template length
  | none => .bad .openTemplate rest.length

def single? : Char → Option Symbol
  | '(' => some .leftParen
  | ')' => some .rightParen
  | '[' => some .leftBracket
  | ']' => some .rightBracket
  | '{' => some .leftBrace
  | '}' => some .rightBrace
  | ';' => some .semicolon
  | ',' => some .comma
  | '.' => some .dot
  | ':' => some .colon
  | '@' => some .atSign
  | '+' => some .plus
  | '-' => some .minus
  | '^' => some .caret
  | '*' => some .star
  | '/' => some .slash
  | '%' => some .percent
  | '<' => some .less
  | '>' => some .greater
  | '=' => some .equal
  | '!' => some .bang
  | _ => none

def double? : Char → Char → Option Symbol
  | '-', '>' => some .rightArrow
  | '<', '=' => some .lessEqual
  | '<', '-' => some .leftArrow
  | '>', '=' => some .greaterEqual
  | '=', '=' => some .equalEqual
  | '!', '=' => some .bangEqual
  | '&', '&' => some .ampAmp
  | '|', '|' => some .pipePipe
  | _, _ => none

/-- The longest symbol at the front. -/
def symbol (first : Char) (rest : List Char) : Lexeme :=
  match rest.head?.bind (double? first) with
  | some sign => .good (.symbol sign) 1
  | none =>
      match single? first with
      | some sign => .good (.symbol sign) 0
      | none => .bad (.strayCharacter first) 0

/-- The lexeme at the front of a text that starts with no blank and no closed
block comment. -/
def read (first : Char) (rest : List Char) : Lexeme :=
  match first, rest with
  | '/', '/' :: _ => .good .comment (runLength (fun char => !isLineEnd char) rest)
  | '/', '*' :: _ => .bad .openComment rest.length
  | '"', _ => quoted rest
  | '`', _ => template rest
  | '.', _ => if startsWithDigit rest then number first rest else symbol first rest
  | _, _ =>
      if isDigit first then number first rest
      else if isNameStart first then word first rest
      else symbol first rest

end Lexeme

/-- The length of the blanks and closed block comments at the front of a text.
The next `skip` characters belong to a comment. -/
def gapLength : Nat → List Char → Nat
  | _, [] => 0
  | skip + 1, _ :: rest => 1 + gapLength skip rest
  | 0, char :: rest =>
      if isBlank char then 1 + gapLength 0 rest
      else
        match char, rest with
        | '/', '*' :: body =>
            match commentLength? body with
            | some length => 1 + gapLength (1 + length) rest
            | none => 0
        | _, _ => 0

end ServiceLang
