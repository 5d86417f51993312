set_option autoImplicit false

/-! The classes of characters that decide where tokens begin and end. Names and
numbers are ASCII; blanks are those of Unicode. -/

namespace ServiceLang

/-- The code points that have the Unicode property `White_Space`, as closed
ranges. -/
def whiteSpaceRanges : List (Nat × Nat) :=
  [(0x09, 0x0D), (0x20, 0x20), (0x85, 0x85), (0xA0, 0xA0), (0x1680, 0x1680), (0x2000, 0x200A),
   (0x2028, 0x2029), (0x202F, 0x202F), (0x205F, 0x205F), (0x3000, 0x3000)]

/-- Whether a character has the Unicode property `White_Space`. -/
def isBlank (char : Char) : Bool :=
  whiteSpaceRanges.any (fun (low, high) => low ≤ char.toNat && char.toNat ≤ high)

/-- The mark that may open a source and is skipped there. -/
def byteOrderMark : Char :=
  '\uFEFF'

def isLineEnd (char : Char) : Bool :=
  char == '\n' || char == '\r'

def isDigit (char : Char) : Bool :=
  '0' ≤ char && char ≤ '9'

def isOctalDigit (char : Char) : Bool :=
  '0' ≤ char && char ≤ '7'

def isBinaryDigit (char : Char) : Bool :=
  char == '0' || char == '1'

def isHexDigit (char : Char) : Bool :=
  isDigit char || ('a' ≤ char && char ≤ 'f') || ('A' ≤ char && char ≤ 'F')

def isNameStart (char : Char) : Bool :=
  ('a' ≤ char && char ≤ 'z') || ('A' ≤ char && char ≤ 'Z') || char == '_' || char == '$'

def isNamePart (char : Char) : Bool :=
  isNameStart char || isDigit char

def runLength (among : Char → Bool) (chars : List Char) : Nat :=
  (chars.takeWhile among).length

theorem runLength_le (among : Char → Bool) (chars : List Char) :
    runLength among chars ≤ chars.length :=
  (List.takeWhile_sublist among).length_le

end ServiceLang
