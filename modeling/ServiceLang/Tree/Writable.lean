import ServiceLang.Tree.Written

set_option autoImplicit false

/-! Expressions that say in writing what they are. The words of other trees stand for
something else as well, or for nothing at all. -/

namespace ServiceLang

/-! ### Size -/

def TypeName.nodes : TypeName → Nat
  | .mapOf constraint _ => constraint.nodes + 1
  | .array element _ => element.nodes + 1
  | _ => 1

mutual

/-- The number of expressions and types in an expression, itself counted in. -/
def Expr.nodes : Expr → Nat
  | .literal _ | .template _ _ => 1
  | .array elements _ => Expr.allNodes elements + 1
  | .mapping entries _ => MapEntry.allNodes entries + 1
  | .reference target => target.nodes + 1
  | .call _ arguments _ | .invoke _ _ arguments _ | .create _ arguments _ =>
      Expr.allNodes arguments + 1
  | .typeMember type _ _ => type.nodes + 1
  | .cast target operand _ | .convert target operand _ => target.nodes + operand.nodes + 1
  | .unary _ operand _ => operand.nodes + 1
  | .binary _ left right _ => left.nodes + right.nodes + 1
  | .paren inner _ => inner.nodes + 1

def Expr.allNodes : List Expr → Nat
  | [] => 0
  | expr :: rest => expr.nodes + Expr.allNodes rest

def MapEntry.allNodes : List MapEntry → Nat
  | [] => 0
  | ⟨key, value, _⟩ :: rest => key.nodes + value.nodes + MapEntry.allNodes rest

def Reference.nodes : Reference → Nat
  | .name _ => 0
  | .index base position _ => base.nodes + position.nodes
  | .field base _ _ | .attributes base _ | .attributeNamed base _ _ => base.nodes
  | .attributeAt base selector _ => base.nodes + selector.nodes

end

/-! ### What can be told from the words -/

def LiteralValue.isNumber : LiteralValue → Bool
  | .integer _ | .floating _ => true
  | _ => false

/-- A type whose name is a word of the language, other than `any`. -/
def TypeName.isBuiltIn : TypeName → Bool
  | .value _ _ | .message _ | .datatable _ | .map _ | .mapOf _ _ | .xml _ _ | .xmlDocument _ _
  | .json _ _ => true
  | .any _ | .named _ _ | .array _ _ => false

def TypeName.isNamed : TypeName → Bool
  | .named _ _ => true
  | _ => false

def Reference.isBareAttributes : Reference → Bool
  | .attributes _ _ => true
  | _ => false

def Expr.isUnsignedNumber : Expr → Bool
  | .literal ⟨value, negative, _⟩ => value.isNumber && !negative
  | _ => false

/-- A string, or a name without a package: the keys of a map. -/
def Expr.isKey : Expr → Bool
  | .literal ⟨.string _, _, _⟩ => true
  | .reference (.name ⟨none, _⟩) => true
  | _ => false

mutual

/-- The words of the expression stand for this expression, if its operators are in
order. It is made of the forms that may stand anywhere, and
* only numbers have a minus sign of their own;
* a minus sign in front of a number without one is that number's own;
* behind a bare `@` stands no index, which would be a selector;
* behind a name in parentheses stands no `+`, `-` or `<`, which would make the name an
  operand;
* the keys of maps are strings or names. -/
def Expr.Writable : Expr → Prop
  | .literal literal => literal.negative = true → literal.value.isNumber = true
  | .template _ _ => True
  | .array elements _ => Expr.AllWritable elements
  | .mapping entries _ => MapEntry.AllWritable entries
  | .reference target => target.Writable
  | .call _ arguments _ => Expr.AllWritable arguments
  | .invoke _ _ _ _ | .create _ _ _ => False
  | .typeMember type _ _ => type.isBuiltIn = true
  | .cast target operand _ =>
      operand.Writable ∧ (target.isNamed = true → ∀ word ∈ operand.written.head?,
        word.kind ∉ [.symbol .plus, .symbol .minus, .symbol .less])
  | .convert _ operand _ => operand.Writable
  | .unary operator operand _ =>
      operand.Writable ∧ (operator = .negate → operand.isUnsignedNumber = false)
  | .binary _ left right _ => left.Writable ∧ right.Writable
  | .paren inner _ => inner.Writable

def Expr.AllWritable : List Expr → Prop
  | [] => True
  | expr :: rest => expr.Writable ∧ Expr.AllWritable rest

def MapEntry.AllWritable : List MapEntry → Prop
  | [] => True
  | ⟨key, value, _⟩ :: rest =>
      (key.isKey = true ∧ key.Writable) ∧ value.Writable ∧ MapEntry.AllWritable rest

def Reference.Writable : Reference → Prop
  | .name _ => True
  | .index base position _ =>
      base.isBareAttributes = false ∧ base.Writable ∧ position.Writable
  | .field base _ _ | .attributes base _ | .attributeNamed base _ _ => base.Writable
  | .attributeAt base selector _ => base.Writable ∧ selector.Writable

end

/-! ### Lists -/

namespace Expr

theorem allWritable_iff (exprs : List Expr) :
    AllWritable exprs ↔ ∀ expr ∈ exprs, expr.Writable := by
  induction exprs with
  | nil => simp [AllWritable]
  | cons expr rest ih => simp [AllWritable, ih]

theorem nodes_le_of_mem {expr : Expr} {exprs : List Expr} (member : expr ∈ exprs) :
    expr.nodes ≤ Expr.allNodes exprs := by
  induction exprs with
  | nil => cases member
  | cons first rest ih =>
      rw [allNodes]
      rcases List.mem_cons.mp member with rfl | member
      · exact Nat.le_add_right _ _
      · exact Nat.le_trans (ih member) (Nat.le_add_left _ _)

theorem nodes_pos (expr : Expr) : 0 < expr.nodes := by
  cases expr <;> simp [nodes]

end Expr

namespace MapEntry

theorem allWritable_iff (entries : List MapEntry) :
    MapEntry.AllWritable entries ↔ ∀ entry ∈ entries,
      (entry.key.isKey = true ∧ entry.key.Writable) ∧ entry.value.Writable := by
  induction entries with
  | nil => simp [AllWritable]
  | cons entry rest ih =>
      obtain ⟨key, value, span⟩ := entry
      simp [AllWritable, ih, and_assoc]

theorem nodes_le_of_mem {entry : MapEntry} {entries : List MapEntry} (member : entry ∈ entries) :
    entry.key.nodes + entry.value.nodes ≤ MapEntry.allNodes entries := by
  induction entries with
  | nil => cases member
  | cons first rest ih =>
      obtain ⟨key, value, span⟩ := first
      rw [allNodes]
      rcases List.mem_cons.mp member with rfl | member
      · exact Nat.le_add_right _ _
      · exact Nat.le_trans (ih member) (Nat.le_add_left _ _)

end MapEntry

end ServiceLang
