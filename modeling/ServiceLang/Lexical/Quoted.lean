import ServiceLang.Lexical.Character

set_option autoImplicit false

/-! The extents of what stands between delimiters: block comments, string
literals and backtick templates. An extent is a number of characters, counted
from behind the opening delimiter, so that cutting the text there loses
nothing. -/

namespace ServiceLang

/-- The length of a block comment behind its opening, the closing `*/` counted
in. There is none when the comment does not close. -/
def commentLength? : List Char → Option Nat
  | [] => none
  | '*' :: '/' :: _ => some 2
  | _ :: rest => (commentLength? rest).map (· + 1)

inductive Escape where
  /-- So many characters after the backslash belong to the escape. -/
  | known (length : Nat)
  | unknown (char : Char)
deriving DecidableEq, Repr

/-- The escape behind a backslash: one of the plain letters, up to three octal
digits, or `u` any number of times with up to four hexadecimal digits. A line
end is left for the string to stop at. -/
def Escape.read : List Char → Escape
  | [] => .known 0
  | char :: rest =>
      if char ∈ ['b', 't', 'n', 'f', 'r', '"', '\'', '\\'] then .known 1
      else if isOctalDigit char then .known (1 + min 2 (runLength isOctalDigit rest))
      else if char = 'u' then
        let more := runLength (· == 'u') rest
        .known (1 + more + min 4 (runLength isHexDigit (rest.drop more)))
      else if isLineEnd char then .known 0
      else .unknown char

structure Quoted where
  /-- The number of characters behind the opening quote, a closing one counted
  in. -/
  length : Nat
  closed : Bool
  /-- The unknown escapes, each with the index of its backslash. -/
  unknown : List (Nat × Char)
deriving DecidableEq, Repr

/-- The extent of a string literal behind its opening quote. `index` characters
have been read, and the next `skip` ones belong to an escape. A string ends
with its line. -/
def stringExtent (index : Nat) : Nat → List Char → Quoted
  | _, [] => ⟨index, false, []⟩
  | skip + 1, _ :: rest => stringExtent (index + 1) skip rest
  | 0, char :: rest =>
      if isLineEnd char then ⟨index, false, []⟩
      else if char = '"' then ⟨index + 1, true, []⟩
      else if char = '\\' then
        match Escape.read rest with
        | .known length => stringExtent (index + 1) length rest
        | .unknown other =>
            let tail := stringExtent (index + 1) 1 rest
            { tail with unknown := (index, other) :: tail.unknown }
      else stringExtent (index + 1) 0 rest

/-- The extent of a template behind its opening backtick, the closing one
counted in. A template may span lines; a backslash takes the next character
with it. -/
def templateLength? : List Char → Option Nat
  | [] => none
  | '`' :: _ => some 1
  | '\\' :: _ :: rest => (templateLength? rest).map (· + 2)
  | _ :: rest => (templateLength? rest).map (· + 1)

end ServiceLang
