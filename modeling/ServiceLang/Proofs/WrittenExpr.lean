import ServiceLang.Proofs.Looking
import ServiceLang.Proofs.TakingType
import ServiceLang.Tree.Precedence

set_option autoImplicit false

/-! How what is written of an expression starts and goes on, and what the lookahead for
casts makes of it. -/

namespace ServiceLang

open Word (listed inParens inBraces inBrackets inAngles)

/-! ### What stands behind an expression -/

/-- A kind that can stand behind a whole operand: it closes something, separates, or is
a binary operator. -/
def Kind.endsOperand (kind : Kind) : Bool :=
  kind ∈ [.endOfFile, .symbol .semicolon, .symbol .comma, .symbol .rightParen,
    .symbol .rightBracket, .symbol .rightBrace] || (BinaryOperator.ofKind? kind).isSome

def EndsOperand (kinds : List Kind) : Prop :=
  (Kind.next kinds).endsOperand = true

def EndsBelow (power : Nat) (kinds : List Kind) : Prop :=
  ∀ operator, BinaryOperator.ofKind? (Kind.next kinds) = some operator → operator.leftPower < power

def EndsExpr (power : Nat) (kinds : List Kind) : Prop :=
  EndsOperand kinds ∧ EndsBelow power kinds

theorem EndsOperand.ne {kinds : List Kind} {kind : Kind} (ends : EndsOperand kinds)
    (other : kind.endsOperand = false) : Kind.next kinds ≠ kind := by
  intro same
  rw [EndsOperand, same, other] at ends
  cases ends

theorem EndsBelow.tight (kinds : List Kind) : EndsBelow UnaryOperator.power kinds :=
  fun operator _ => UnaryOperator.leftPower_lt_power operator

theorem EndsBelow.of_none {power : Nat} {kinds : List Kind}
    (none : BinaryOperator.ofKind? (Kind.next kinds) = none) : EndsBelow power kinds := by
  intro operator here
  rw [none] at here
  cases here

theorem EndsExpr.of_closing {power : Nat} {sign : Symbol}
    (closes : sign ∈ [.semicolon, .comma, .rightParen, .rightBracket, .rightBrace])
    (rest : List Kind) : EndsExpr power (.symbol sign :: rest) := by
  simp only [List.mem_cons, List.not_mem_nil, or_false] at closes
  rcases closes with rfl | rfl | rfl | rfl | rfl <;> exact ⟨rfl, .of_none rfl⟩

/-! ### How an expression starts -/

theorem LiteralValue.startsOperand_word (value : LiteralValue) :
    value.word.kind.startsOperand = true := by
  cases value <;> rfl

theorem startsOperand_of_type {type : TypeName} (builtIn : type.isBuiltIn = true) :
    ∃ word more, type.written = word :: more ∧ word.kind.startsOperand = true := by
  cases type with
  | value type span => cases type <;> exact ⟨_, _, rfl, rfl⟩
  | any | named | array => cases builtIn
  | _ => exact ⟨_, _, rfl, rfl⟩

theorem NameReference.written_eq_cons (name : NameReference) :
    ∃ word more, name.written = word :: more ∧ word.kind = .identifier := by
  obtain ⟨package, last⟩ := name
  cases package <;> exact ⟨_, _, rfl, rfl⟩

def Reference.suffixWritten : Reference → List Word
  | .name _ => []
  | .index base position _ => base.suffixWritten ++ inBrackets position.written
  | .field base member _ => base.suffixWritten ++ [.symbol .dot, .name member]
  | .attributes base _ => base.suffixWritten ++ [.symbol .atSign]
  | .attributeNamed base selected _ => base.suffixWritten ++ [.symbol .atSign, .name selected]
  | .attributeAt base selector _ =>
      base.suffixWritten ++ .symbol .atSign :: inBrackets selector.written

theorem Reference.written_eq (target : Reference) :
    target.written = target.root.written ++ target.suffixWritten := by
  fun_induction suffixWritten target with
  | case1 name => simp [root]
  | case2 base position _ ih => rw [written, ih, root, List.append_assoc]
  | case3 base member _ ih => rw [written, ih, root, List.append_assoc]
  | case4 base _ ih => rw [written, ih, root, List.append_assoc]
  | case5 base selected _ ih => rw [written, ih, root, List.append_assoc]
  | case6 base selector _ ih => rw [written, ih, root, List.append_assoc]

theorem Expr.written_eq_cons {expr : Expr} (writable : expr.Writable) :
    ∃ word more, expr.written = word :: more ∧ word.kind.startsOperand = true := by
  fun_induction Expr.chain expr with
  | case1 operator left right span ihLeft _ =>
      obtain ⟨word, more, whole, starts⟩ := ihLeft writable.1
      exact ⟨word, more ++ .symbol operator.symbol :: right.written, by
        rw [written, whole, List.cons_append], starts⟩
  | case2 expr notBinary =>
      cases expr with
      | literal literal =>
          obtain ⟨value, negative, span⟩ := literal
          cases negative with
          | true => exact ⟨_, _, rfl, rfl⟩
          | false => exact ⟨_, _, rfl, value.startsOperand_word⟩
      | reference target =>
          obtain ⟨word, more, whole, kind⟩ := target.root.written_eq_cons
          refine ⟨word, more ++ target.suffixWritten, ?_, by rw [kind]; rfl⟩
          rw [written, target.written_eq, whole, List.cons_append]
      | call name arguments span =>
          obtain ⟨word, more, whole, kind⟩ := name.written_eq_cons
          refine ⟨word, more ++ inParens (listed (Expr.writtens arguments)), ?_, by rw [kind]; rfl⟩
          rw [written, whole, List.cons_append]
      | typeMember type member span =>
          obtain ⟨word, more, whole, starts⟩ := startsOperand_of_type writable
          refine ⟨word, more ++ [.symbol .dot, .name member], ?_, starts⟩
          rw [written, whole, List.cons_append]
      | unary operator operand span => cases operator <;> exact ⟨_, _, rfl, rfl⟩
      | binary operator left right span => exact absurd rfl (notBinary operator left right span)
      | invoke | create => cases writable
      | _ => exact ⟨_, _, rfl, rfl⟩

theorem Expr.startsOperand_next {expr : Expr} (writable : expr.Writable) (rest : List Kind) :
    (Kind.next (expr.written.map Word.kind ++ rest)).startsOperand = true := by
  obtain ⟨word, more, whole, starts⟩ := written_eq_cons writable
  rw [whole]
  exact starts

theorem Expr.next_ne {expr : Expr} (writable : expr.Writable) {kind : Kind}
    (other : kind.startsOperand = false) (rest : List Kind) :
    Kind.next (expr.written.map Word.kind ++ rest) ≠ kind := by
  intro same
  have starts := startsOperand_next writable rest
  rw [same, other] at starts
  cases starts

/-! ### Casts and parentheses -/

theorem skipType?_of_next {room : Nat} {kinds : List Kind}
    (other : (Kind.next kinds).startsType = false) : skipType? room kinds = none := by
  apply skipType?_of_head
  intro kind head
  rwa [Kind.next, head] at other

/-- What stands behind a name that goes on: brackets with something in them, or
another suffix. -/
def OpensSuffix (kinds : List Kind) : Prop :=
  (Kind.next kinds = .symbol .dot ∨ Kind.next kinds = .symbol .atSign) ∨
    ∃ second rest, kinds = .symbol .leftBracket :: second :: rest ∧ second.startsOperand = true

theorem OpensSuffix.ne {kinds : List Kind} (opens : OpensSuffix kinds) {kind : Kind}
    (other : kind ∉ [.symbol .dot, .symbol .atSign, .symbol .leftBracket]) :
    Kind.next kinds ≠ kind := by
  intro same
  rcases opens with (dot | sign) | ⟨second, rest, rfl, -⟩
  · exact other (by rw [← same, dot]; decide)
  · exact other (by rw [← same, sign]; decide)
  · rw [← same] at other
    exact other (by simp [Kind.next])

theorem OpensSuffix.skipDimensions_eq {kinds : List Kind} (opens : OpensSuffix kinds) :
    skipDimensions kinds = kinds := by
  rcases opens with (dot | sign) | ⟨second, rest, rfl, starts⟩
  · exact skipDimensions_of_next (by rw [dot]; simp)
  · exact skipDimensions_of_next (by rw [sign]; simp)
  · unfold skipDimensions
    split
    · rename_i same
      cases same
      cases starts
    · rfl

theorem Expr.opensSuffix {position : Expr} (writable : position.Writable) (after : List Kind) :
    OpensSuffix ((inBrackets position.written).map Word.kind ++ after) := by
  obtain ⟨word, more, whole, starts⟩ := written_eq_cons writable
  refine .inr ⟨word.kind, more.map Word.kind ++ .symbol .rightBracket :: after, ?_, starts⟩
  simp [inBrackets, whole, Word.symbol]

/-- A reference is a name, or goes on behind its name with a suffix. -/
theorem Reference.opensSuffix {target : Reference} (writable : target.Writable)
    (after : List Kind) :
    target.suffixWritten = [] ∨ OpensSuffix (target.suffixWritten.map Word.kind ++ after) := by
  have goesOn {base : Reference} {back : List Word} {after : List Kind}
      (ih : base.suffixWritten = [] ∨
        OpensSuffix (base.suffixWritten.map Word.kind ++ (back.map Word.kind ++ after)))
      (here : OpensSuffix (back.map Word.kind ++ after)) :
      OpensSuffix ((base.suffixWritten ++ back).map Word.kind ++ after) := by
    rw [List.map_append, List.append_assoc]
    rcases ih with none | opens
    · rw [none]
      exact here
    · exact opens
  fun_induction suffixWritten target generalizing after with
  | case1 name => exact .inl rfl
  | case2 base position _ ih =>
      exact .inr (goesOn (ih writable.2.1 _) (Expr.opensSuffix writable.2.2 after))
  | case3 base member _ ih => exact .inr (goesOn (ih writable _) (.inl (.inl rfl)))
  | case4 base _ ih => exact .inr (goesOn (ih writable _) (.inl (.inr rfl)))
  | case5 base selected _ ih => exact .inr (goesOn (ih writable _) (.inl (.inr rfl)))
  | case6 base selector _ ih => exact .inr (goesOn (ih writable.1 _) (.inl (.inr rfl)))

theorem closesBareName_name (name : NameReference) (rest : List Kind) :
    closesBareName (name.written.map Word.kind ++ .symbol .rightParen :: rest) = true := by
  obtain ⟨package, last⟩ := name
  cases package <;> rfl

/-- A type other than a name has more words than a name. -/
theorem closesBareName_type (type : TypeName) (notName : type.isNamed = false)
    (rest : List Kind) : closesBareName (type.written.map Word.kind ++ rest) = false := by
  induction type generalizing rest with
  | value type span => cases type <;> rfl
  | named name span => cases notName
  | array element span ih =>
      rw [TypeName.written, List.map_append, List.append_assoc]
      cases isNamed : element.isNamed with
      | false => exact ih isNamed _
      | true =>
          cases element with
          | named name span =>
              obtain ⟨package, last⟩ := name
              cases package <;> rfl
          | _ => cases isNamed
  | _ => rfl

def EndsInside (kinds : List Kind) : Prop :=
  Kind.next kinds = .symbol .rightParen ∨
    ∃ operator : BinaryOperator, Kind.next kinds = .symbol operator.symbol

theorem EndsInside.ne {kinds : List Kind} (ends : EndsInside kinds) {sign : Symbol}
    (other : sign ∈ [.colon, .leftBracket]) : Kind.next kinds ≠ .symbol sign := by
  intro same
  rw [EndsInside, same] at ends
  simp only [List.mem_cons, List.not_mem_nil, or_false] at other
  rcases ends with closing | ⟨operator, here⟩
  · rcases other with rfl | rfl <;> cases closing
  · cases operator <;> rcases other with rfl | rfl <;> cases here

theorem bareName_of_name {room : Nat} {name : NameReference} {after more : List Kind}
    (colon : Kind.next after ≠ .symbol .colon) (brackets : skipDimensions after = after)
    (skipped : skipType? room (name.written.map Word.kind ++ after) =
      some (.symbol .rightParen :: more)) :
    closesBareName (name.written.map Word.kind ++ after) = true ∧
      after = .symbol .rightParen :: more := by
  cases room with
  | zero => cases skipped
  | succ room =>
      rw [skipType?, skipBase?_name _ name colon, Option.map_some, brackets] at skipped
      have here : after = .symbol .rightParen :: more := Option.some.inj skipped
      refine ⟨?_, here⟩
      rw [here]
      exact closesBareName_name name more

/-- What is written of an expression looks like a type in front of a closing parenthesis
only if it is a name. -/
theorem bareName_of_skipType? {room : Nat} {expr : Expr} (writable : expr.Writable)
    (small : expr.nodes ≤ room) {after more : List Kind} (ends : EndsInside after)
    (skipped : skipType? room (expr.written.map Word.kind ++ after) =
      some (.symbol .rightParen :: more)) :
    closesBareName (expr.written.map Word.kind ++ after) = true ∧
      after = .symbol .rightParen :: more := by
  fun_induction Expr.chain expr generalizing after with
  | case1 operator left right span ihLeft _ =>
      rw [Expr.written, List.map_append, List.append_assoc] at skipped ⊢
      have smaller : left.nodes ≤ room := by
        rw [Expr.nodes] at small
        omega
      obtain ⟨-, here⟩ := ihLeft writable.1 smaller (.inr ⟨operator, rfl⟩) skipped
      cases operator <;> cases here
  | case2 expr notBinary =>
      have starts (first : Word) (others : List Word) (whole : expr.written = first :: others) :
          first.kind.startsType = true := by
        cases isType : first.kind.startsType with
        | true => rfl
        | false =>
            have none : skipType? room (expr.written.map Word.kind ++ after) = none := by
              apply skipType?_of_next
              rw [whole]
              exact isType
            rw [none] at skipped
            cases skipped
      cases expr with
      | literal literal =>
          obtain ⟨value, negative, span⟩ := literal
          cases negative with
          | true => cases starts _ _ rfl
          | false => cases value <;> cases starts _ _ rfl
      | reference target =>
          rw [Expr.written, target.written_eq, List.map_append, List.append_assoc] at skipped ⊢
          rcases target.opensSuffix writable after with none | opens
          · rw [none] at skipped ⊢
            have brackets := skipDimensions_of_next (ends.ne (by decide))
            exact bareName_of_name (ends.ne (by decide)) brackets skipped
          · obtain ⟨-, here⟩ :=
              bareName_of_name (opens.ne (by decide)) opens.skipDimensions_eq skipped
            have notClosing : Kind.next _ ≠ .symbol .rightParen := opens.ne (by decide)
            rw [here] at notClosing
            exact absurd rfl notClosing
      | call name arguments span =>
          rw [Expr.written, List.map_append, List.append_assoc] at skipped
          obtain ⟨-, here⟩ := bareName_of_name (by simp [inParens, Kind.next, Word.symbol])
            (skipDimensions_of_next (by simp [inParens, Kind.next, Word.symbol])) skipped
          cases here
      | typeMember type member span =>
          rw [Expr.written, List.map_append, List.append_assoc] at skipped
          have smaller : type.nodes ≤ room := Nat.le_of_succ_le small
          have dot : EndsType ([Word.symbol .dot, .name member].map Word.kind ++ after) :=
            .of_symbol (by decide) _
          rw [skipType?_written type smaller dot.1, skipDimensions_of_next dot.2] at skipped
          cases skipped
      | unary operator operand span => cases operator <;> cases starts _ _ rfl
      | binary operator left right span => exact absurd rfl (notBinary operator left right span)
      | invoke | create => cases writable
      | _ => cases starts _ _ rfl

/-- Of what can stand behind an operand only a sign can start one. -/
theorem sign_of_endsOperand {kind : Kind} (ends : kind.endsOperand = true) :
    kind.startsOperand = true → kind ∈ [.symbol .plus, .symbol .minus, .symbol .less] := by
  intro starts
  cases kind with
  | symbol sign =>
      cases sign <;>
        first | decide | exact absurd ends (by decide) | exact absurd starts (by decide)
  | endOfFile => cases starts
  | _ => cases ends

/-- What is written of an expression in parentheses looks like no cast. -/
theorem startsCast_paren {room : Nat} {expr : Expr} (writable : expr.Writable)
    (small : expr.nodes ≤ room) {rest : List Kind} (ends : EndsOperand rest) :
    startsCast room ((inParens expr.written).map Word.kind ++ rest) = false := by
  have split : (inParens expr.written).map Word.kind ++ rest =
      .symbol .leftParen :: (expr.written.map Word.kind ++ .symbol .rightParen :: rest) := by
    simp [inParens, Word.symbol]
  rw [split, startsCast]
  split
  · rename_i next others skipped
    obtain ⟨bare, here⟩ := bareName_of_skipType? writable small (.inl rfl) skipped
    obtain ⟨rfl, rfl⟩ : rest = next :: others := (List.cons.inj here).2
    rw [bare]
    cases starts : next.startsOperand with
    | false => rfl
    | true =>
        have sign := sign_of_endsOperand ends starts
        rw [decide_eq_true (show next ∈ _ from sign)]
        rfl
  · rfl

/-- What is written of a cast looks like one. -/
theorem startsCast_cast {room : Nat} {target : TypeName} {operand : Expr}
    (small : target.nodes ≤ room) (writable : operand.Writable)
    (told : target.isNamed = true → ∀ word ∈ operand.written.head?,
        word.kind ∉ [.symbol .plus, .symbol .minus, .symbol .less]) (rest : List Kind) :
    startsCast room
      ((inParens target.written ++ operand.written).map Word.kind ++ rest) = true := by
  obtain ⟨word, more, whole, starts⟩ := Expr.written_eq_cons writable
  have split : (inParens target.written ++ operand.written).map Word.kind ++ rest =
      .symbol .leftParen :: (target.written.map Word.kind ++
        .symbol .rightParen :: word.kind :: (more.map Word.kind ++ rest)) := by
    simp [inParens, Word.symbol, whole]
  have closes : EndsType (.symbol .rightParen :: word.kind :: (more.map Word.kind ++ rest)) :=
    .of_symbol (by decide) _
  rw [split, startsCast, skipType?_written target small closes.1, skipDimensions_of_next closes.2]
  dsimp only
  rw [starts, Bool.true_and]
  cases isNamed : target.isNamed with
  | false => rw [closesBareName_type target isNamed, Bool.false_and, Bool.not_false]
  | true =>
      have notSign := told isNamed word (by rw [whole]; rfl)
      rw [decide_eq_false notSign, Bool.and_false, Bool.not_false]

end ServiceLang
