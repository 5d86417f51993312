import ServiceLang.Proofs.Spelling
import ServiceLang.Proofs.TakingExpr

set_option autoImplicit false

/-! Every expression that says in writing what it is, with its operators in order, is
read back from what is written of it. -/

namespace ServiceLang

open Word (listed inParens inBraces inBrackets inAngles)

/-! ### Spelling -/

def Word.AllNormal (words : List Word) : Prop :=
  ∀ word ∈ words, word.normal = word

namespace Word.AllNormal

variable {word : Word} {words others : List Word}

theorem nil : AllNormal [] := by
  intro word none
  cases none

theorem cons (isNormal : word.normal = word) (rest : AllNormal words) :
    AllNormal (word :: words) := by
  intro other member
  rcases List.mem_cons.mp member with rfl | member
  · exact isNormal
  · exact rest other member

theorem append (front : AllNormal words) (back : AllNormal others) :
    AllNormal (words ++ others) := by
  intro word member
  rcases List.mem_append.mp member with member | member
  · exact front word member
  · exact back word member

theorem single (isNormal : word.normal = word) : AllNormal [word] :=
  cons isNormal nil

theorem enclosed (left right : Symbol) (inside : AllNormal words) :
    AllNormal (.symbol left :: words ++ [.symbol right]) :=
  (cons rfl inside).append (single rfl)

theorem listed {parts : List (List Word)} (all : ∀ part ∈ parts, AllNormal part) :
    AllNormal (Word.listed parts) := by
  cases parts with
  | nil => exact nil
  | cons first others =>
      apply append (all first List.mem_cons_self)
      intro word member
      obtain ⟨part, inside, member⟩ := List.mem_flatMap.mp member
      exact cons rfl (all part (List.mem_cons_of_mem _ inside)) word member

end Word.AllNormal

open Word (AllNormal)

theorem NameReference.allNormal_written (name : NameReference) : AllNormal name.written := by
  obtain ⟨package, last⟩ := name
  cases package with
  | none => exact .single rfl
  | some package => exact .cons rfl (.cons rfl (.single rfl))

theorem XmlConstraint.allNormal_written (constraint : XmlConstraint) :
    AllNormal constraint.written := by
  obtain ⟨uri, element, span⟩ := constraint
  cases uri with
  | none => exact .enclosed .less .greater (.single rfl)
  | some uri =>
      exact .enclosed .less .greater ((AllNormal.enclosed .leftBrace .rightBrace (.single rfl)).append
        (.single rfl))

theorem TypeName.allNormal_written (type : TypeName) : AllNormal type.written := by
  induction type with
  | value type span => cases type <;> exact .single rfl
  | mapOf constraint span ih => exact .cons rfl (.enclosed .less .greater ih)
  | xml constraint span | xmlDocument constraint span =>
      cases constraint with
      | none => exact .single rfl
      | some constraint => exact .cons rfl constraint.allNormal_written
  | json schema span =>
      cases schema with
      | none => exact .single rfl
      | some schema =>
          exact .cons rfl (.enclosed .less .greater (.enclosed .leftBrace .rightBrace (.single rfl)))
  | named name span => exact name.allNormal_written
  | array element span ih => exact ih.append (.cons rfl (.single rfl))
  | _ => exact .single rfl

theorem Literal.allNormal_written (literal : Literal) : AllNormal literal.written := by
  obtain ⟨value, negative, span⟩ := literal
  have word : value.word.normal = value.word := by
    cases value with
    | boolean value => cases value <;> rfl
    | _ => rfl
  cases negative with
  | true => exact .cons rfl (.single word)
  | false => exact .single word

mutual

theorem Expr.allNormal_written : (expr : Expr) → AllNormal expr.written
  | .literal literal => literal.allNormal_written
  | .template _ _ => .single rfl
  | .array elements _ => .enclosed .leftBracket .rightBracket (.listed (Expr.allNormal_writtens elements))
  | .mapping entries _ =>
      .enclosed .leftBrace .rightBrace (.listed (MapEntry.allNormal_writtens entries))
  | .reference target => target.allNormal_written
  | .call name arguments _ =>
      name.allNormal_written.append
        (.enclosed .leftParen .rightParen (.listed (Expr.allNormal_writtens arguments)))
  | .invoke connector _ arguments _ =>
      connector.allNormal_written.append (.cons rfl (.cons rfl
        (.enclosed .leftParen .rightParen (.listed (Expr.allNormal_writtens arguments)))))
  | .create connector arguments _ =>
      .append (.cons rfl connector.allNormal_written)
        (.enclosed .leftParen .rightParen (.listed (Expr.allNormal_writtens arguments)))
  | .typeMember type _ _ => type.allNormal_written.append (.cons rfl (.single rfl))
  | .cast target operand _ =>
      .append (.enclosed .leftParen .rightParen target.allNormal_written) operand.allNormal_written
  | .convert target operand _ =>
      .append (.enclosed .less .greater target.allNormal_written) operand.allNormal_written
  | .unary _ operand _ => .cons rfl operand.allNormal_written
  | .binary _ left right _ => left.allNormal_written.append (.cons rfl right.allNormal_written)
  | .paren inner _ => .enclosed .leftParen .rightParen inner.allNormal_written

theorem Expr.allNormal_writtens : (exprs : List Expr) → ∀ part ∈ Expr.writtens exprs, AllNormal part
  | [], part, absent => by cases absent
  | expr :: rest, part, member => by
      rcases List.mem_cons.mp member with rfl | member
      · exact expr.allNormal_written
      · exact Expr.allNormal_writtens rest part member

theorem MapEntry.allNormal_writtens :
    (entries : List MapEntry) → ∀ part ∈ MapEntry.writtens entries, AllNormal part
  | [], part, absent => by cases absent
  | ⟨key, value, _⟩ :: rest, part, member => by
      rcases List.mem_cons.mp member with rfl | member
      · exact key.allNormal_written.append (.cons rfl value.allNormal_written)
      · exact MapEntry.allNormal_writtens rest part member

theorem Reference.allNormal_written : (target : Reference) → AllNormal target.written
  | .name name => name.allNormal_written
  | .index base position _ =>
      base.allNormal_written.append
        (.enclosed .leftBracket .rightBracket position.allNormal_written)
  | .field base _ _ => base.allNormal_written.append (.cons rfl (.single rfl))
  | .attributes base _ => base.allNormal_written.append (.single rfl)
  | .attributeNamed base _ _ => base.allNormal_written.append (.cons rfl (.single rfl))
  | .attributeAt base selector _ =>
      base.allNormal_written.append
        (.cons rfl (.enclosed .leftBracket .rightBracket selector.allNormal_written))

end

/-! ### Completeness -/

/-- What can stand behind an expression that is no part of another one. -/
def EndsWhole (rest : List Token) : Prop :=
  rest = [] ∨ ∃ next others, rest = next :: others ∧ next.kind = .symbol .semicolon

theorem EndsWhole.endsExpr {rest : List Token} (ends : EndsWhole rest) (power : Nat) :
    EndsExpr power (rest.map Token.kind) := by
  rcases ends with rfl | ⟨next, others, rfl, semicolon⟩
  · exact ⟨rfl, .of_none rfl⟩
  · rw [List.map_cons, semicolon]
    exact .of_closing (by decide) _

/-- An expression that says in writing what it is, with its operators in order, is read
from the tokens that spell it, at the end of the source or before a semicolon. The levels
that it needs are no more than its expressions and types. The rule stops right behind the
tokens and changes nothing but the place. -/
theorem expr_complete {expr : Expr} (writable : expr.Writable) (ordered : expr.Ordered)
    {parser : Parser} {tokens rest : List Token}
    (ahead : parser.cursor.ahead.map Slot.token = tokens ++ rest)
    (spelled : tokens.map Token.spelling = expr.written) (ends : EndsWhole rest)
    (small : expr.nodes ≤ parser.options.maxDepth) :
    ∃ found cursor,
      Grammar.expr parser.options.maxDepth 0 parser = .ok found { parser with cursor := cursor } ∧
        found.erased = expr.erased ∧ cursor.ahead.map Slot.token = rest := by
  have words : tokens.map Token.word = expr.written := by
    have normalized : tokens.map Token.word = (tokens.map Token.spelling).map Word.normal := by
      rw [List.map_map]
      rfl
    rw [normalized, spelled]
    exact (List.map_congr_left expr.allNormal_written).trans (List.map_id _)
  have before : Step.Before parser.options expr.written (EndsExpr 0) parser
      (rest.map Token.word) := by
    refine ⟨rfl, ?_, ?_⟩
    · rw [← words, ← List.map_append, ← ahead, List.map_map]
      rfl
    · have kinds : (rest.map Token.word).map Word.kind = rest.map Token.kind := by
        rw [List.map_map]
        exact List.map_congr_left fun token _ => token.kind_word
      rw [kinds]
      exact ends.endsExpr 0
  -- As loosely as this every operator may be the outermost one.
  have binds : Grammar.BindsFrom 0 expr := ⟨ordered, fun _ _ => Nat.zero_le _⟩
  obtain ⟨found, cursor, ran, same, drops⟩ :=
    (Grammar.within_takesUpTo (Nat.le_refl parser.options.maxDepth)).expr 0 expr writable binds
      small before
  refine ⟨found, cursor, ran, same, ?_⟩
  rw [drops, List.map_drop, ahead, ← words, List.length_map, List.drop_left]

/-- The parse of `-1 + a[0] * (int) b;` that is about to start. -/
def sumStatement : Parser :=
  .ofTokens (tokenize "-1 + a[0] * (int) b;").1 [] {}

def sumTree : Expr :=
  let name (text : String) : Reference := .name ⟨none, ⟨text, .nowhere⟩⟩
  let number (text : String) (negative : Bool) : Expr :=
    .literal ⟨.integer text, negative, .nowhere⟩
  .binary .add (number "1" true)
    (.binary .multiply (.reference (.index (name "a") (number "0" false) .nowhere))
      (.cast (.value .int .nowhere) (.reference (name "b")) .nowhere) .nowhere) .nowhere

theorem expr_complete_sum :
    (∃ rest, sumStatement.cursor.ahead.map Slot.token =
        (tokenize "-1 + a[0] * (int) b;").1.take 12 ++ rest ∧ EndsWhole rest) ∧
      ∃ found cursor,
        Grammar.expr sumStatement.options.maxDepth 0 sumStatement =
            .ok found { sumStatement with cursor := cursor } ∧
          found.erased = sumTree.erased ∧
          cursor.ahead.map Slot.token = ((tokenize "-1 + a[0] * (int) b;").1.drop 12).take 1 := by
  have ahead : sumStatement.cursor.ahead.map Slot.token =
      (tokenize "-1 + a[0] * (int) b;").1.take 12 ++
        ((tokenize "-1 + a[0] * (int) b;").1.drop 12).take 1 := by
    decide +kernel
  have spelled : ((tokenize "-1 + a[0] * (int) b;").1.take 12).map Token.spelling =
      sumTree.written := by
    decide +kernel
  have ends : EndsWhole (((tokenize "-1 + a[0] * (int) b;").1.drop 12).take 1) :=
    .inr ⟨⟨.symbol .semicolon, ";", ⟨19, 20, 1, 20⟩⟩, [], by decide +kernel, rfl⟩
  have writable : sumTree.Writable := by
    simp [sumTree, Expr.Writable, Reference.Writable, LiteralValue.isNumber, TypeName.isNamed,
      Reference.isBareAttributes]
  have ordered : sumTree.Ordered := by
    simp [sumTree, Expr.Ordered, Reference.Ordered, Expr.operator?, BinaryOperator.MayStandRight,
      BinaryOperator.row]
  exact ⟨⟨_, ahead, ends⟩, expr_complete writable ordered ahead spelled ends (by decide)⟩

end ServiceLang
