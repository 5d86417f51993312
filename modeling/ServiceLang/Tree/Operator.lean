import ServiceLang.Token.Kind

set_option autoImplicit false

/-! Operators and how tightly they bind. A binary operator has a power towards
its left operand and one towards its right operand; between two operators the
operand goes to the greater power. -/

namespace ServiceLang

inductive BinaryOperator where
  | or
  | and
  | equal | notEqual
  | less | lessEqual | greater | greaterEqual
  | add | subtract
  | multiply | divide | modulo
  | power
deriving DecidableEq, Repr

namespace BinaryOperator

def symbol : BinaryOperator → Symbol
  | or => .pipePipe
  | and => .ampAmp
  | equal => .equalEqual
  | notEqual => .bangEqual
  | less => .less
  | lessEqual => .lessEqual
  | greater => .greater
  | greaterEqual => .greaterEqual
  | add => .plus
  | subtract => .minus
  | multiply => .star
  | divide => .slash
  | modulo => .percent
  | power => .caret

def all : List BinaryOperator :=
  [or, and, equal, notEqual, less, lessEqual, greater, greaterEqual, add, subtract, multiply,
   divide, modulo, power]

def text (operator : BinaryOperator) : String :=
  operator.symbol.text

def ofKind? (kind : Kind) : Option BinaryOperator :=
  all.find? (fun operator => .symbol operator.symbol == kind)

def leftPower : BinaryOperator → Nat
  | or => 2
  | and => 4
  | equal | notEqual => 6
  | less | lessEqual | greater | greaterEqual => 8
  | add | subtract => 10
  | multiply | divide | modulo => 12
  | power => 15

def rightPower : BinaryOperator → Nat
  | or => 3
  | and => 5
  | equal | notEqual => 7
  | less | lessEqual | greater | greaterEqual => 9
  | add | subtract => 11
  | multiply | divide | modulo => 13
  | power => 14

def level (operator : BinaryOperator) : Nat :=
  operator.leftPower / 2

def isRightAssociative (operator : BinaryOperator) : Bool :=
  operator.rightPower < operator.leftPower

theorem ofKind?_symbol (operator : BinaryOperator) :
    ofKind? (.symbol operator.symbol) = some operator := by
  cases operator <;> decide

end BinaryOperator

inductive UnaryOperator where
  | plus
  | negate
  | not
deriving DecidableEq, Repr

namespace UnaryOperator

def symbol : UnaryOperator → Symbol
  | plus => .plus
  | negate => .minus
  | not => .bang

def text (operator : UnaryOperator) : String :=
  operator.symbol.text

def ofKind? : Kind → Option UnaryOperator
  | .symbol .plus => some plus
  | .symbol .minus => some negate
  | .symbol .bang => some not
  | _ => none

/-- Every form with its operator in front binds tighter than all binary
operators, so its operand is a single such form. -/
def power : Nat :=
  16

theorem leftPower_lt_power (operator : BinaryOperator) : operator.leftPower < power := by
  cases operator <;> decide

end UnaryOperator

end ServiceLang
