import ServiceLang.Proofs.Numbers
import ServiceLang.Proofs.RereadingJoin
import ServiceLang.Tree.Nesting

set_option autoImplicit false

/-! What a join makes of its count. A literal of decimal digits alone is read in decimal, even
where a zero in front makes it an octal one. Every other integer literal is refused, however small
the number may be that it denotes. -/

namespace ServiceLang

/-! ### What a literal denotes -/

def Radix.base : Radix → Nat
  | hexadecimal => 16
  | binary => 2
  | octal => 8
  | decimal => 10

namespace Numeral

def digitValue (digit : Char) : Nat :=
  if isDigit digit then digit.toNat - '0'.toNat else digit.toLower.toNat - 'a'.toNat + 10

def ofDigits (base : Nat) (digits : List Char) : Nat :=
  digits.foldl (fun value digit => base * value + digitValue digit) 0

/-- The literal has digits of its radix, and there they stand for this number. -/
def Denotes (text : List Char) (value : Nat) : Prop :=
  HasDigits (Radix.split text).1.isDigit text ∧
    ofDigits (Radix.split text).1.base (digits text) = value

instance (isDigit : Char → Bool) (text : List Char) : Decidable (HasDigits isDigit text) :=
  -- Said of the list, since otherwise all characters there are may be gone through.
  have := List.decidableBAll (fun char => isDigit char = true) (digits text)
  inferInstanceAs (Decidable (_ ∧ _))

instance (text : List Char) (value : Nat) : Decidable (Denotes text value) :=
  inferInstanceAs (Decidable (_ ∧ _))

theorem ofDigits_concat (base : Nat) (digits : List Char) (digit : Char) :
    ofDigits base (digits ++ [digit]) = base * ofDigits base digits + digitValue digit :=
  List.foldl_concat ..

theorem ofDigits_octal_le (digits : List Char) : ofDigits 8 digits ≤ ofDigits 10 digits := by
  induction digits using List.reverseRecOn with
  | nil => exact Nat.le_refl 0
  | append_singleton digits digit ih =>
      rw [ofDigits_concat, ofDigits_concat]
      omega

theorem ofDigits_octal_pos {digits : List Char} (some : 0 < ofDigits 10 digits) :
    0 < ofDigits 8 digits := by
  induction digits using List.reverseRecOn with
  | nil => exact some
  | append_singleton digits digit ih =>
      rw [ofDigits_concat] at some ⊢
      omega

theorem digitValue_of_isOctalDigit {digit : Char} (isOctal : isOctalDigit digit = true) :
    digitValue digit < 8 := by
  simp only [isOctalDigit, Bool.and_eq_true, decide_eq_true_eq, Char.le_def] at isOctal
  have isDigit : isDigit digit = true := by
    simp only [ServiceLang.isDigit, Bool.and_eq_true, decide_eq_true_eq, Char.le_def]
    exact ⟨isOctal.1, UInt32.le_trans isOctal.2 (by decide)⟩
  have bound : digit.toNat ≤ '7'.toNat := isOctal.2
  rw [digitValue, if_pos isDigit]
  change digit.toNat - 48 < 8
  change digit.toNat ≤ 55 at bound
  omega

/-- Octal digits stand for the same number in decimal only if it has one digit. -/
theorem ofDigits_octal_eq_iff {digits : List Char}
    (areOctal : ∀ digit ∈ digits, isOctalDigit digit = true) :
    ofDigits 10 digits = ofDigits 8 digits ↔ ofDigits 8 digits < 8 := by
  cases digits using List.reverseRecOn with
  | nil => exact iff_of_true rfl (by decide)
  | append_singleton digits digit =>
      have small := digitValue_of_isOctalDigit
        (areOctal digit (List.mem_append_right _ List.mem_cons_self))
      have less := ofDigits_octal_le digits
      have positive := @ofDigits_octal_pos digits
      rw [ofDigits_concat, ofDigits_concat]
      omega

theorem ofDigits_of_allDigits {base : Nat} {digits : List Char}
    (allDigits : ∀ char ∈ digits, isDigit char = true) :
    ofDigits base digits =
      digits.foldl (fun count char => base * count + (char.toNat - '0'.toNat)) 0 := by
  refine List.foldl_ext _ _ _ fun count digit member => ?_
  rw [digitValue, if_pos (allDigits digit member)]

/-! ### Literals of decimal digits alone -/

variable {text : List Char}

theorem withoutSuffix_of_allDigits (allDigits : ∀ char ∈ text, isDigit char = true) :
    withoutSuffix text = text := by
  refine if_neg ?_
  rintro (last | last) <;> cases allDigits _ (List.mem_of_getLast? last)

/-- A mark is no digit. -/
theorem split_of_allDigits (allDigits : ∀ char ∈ text, isDigit char = true) :
    ((Radix.split text).1 = .octal ∨ (Radix.split text).1 = .decimal) ∧
      (Radix.split text).2 = text := by
  unfold Radix.split
  split
  · rename_i mark rest
    have isDigit := allDigits mark (List.mem_cons_of_mem _ List.mem_cons_self)
    rw [if_neg, if_neg]
    · exact ⟨.inl rfl, rfl⟩
    · rintro (rfl | rfl) <;> cases isDigit
    · rintro (rfl | rfl) <;> cases isDigit
  · exact ⟨.inl rfl, rfl⟩
  · exact ⟨.inr rfl, rfl⟩

theorem digits_of_allDigits (allDigits : ∀ char ∈ text, isDigit char = true) :
    digits text = text := by
  rw [digits, body, (split_of_allDigits allDigits).2, withoutSuffix_of_allDigits allDigits,
    List.filter_eq_self]
  intro char member
  refine bne_iff_ne.mpr ?_
  rintro rfl
  cases allDigits _ member

/-- Read in decimal, a literal of decimal digits gives what it denotes unless it is octal and
denotes a number of more than one digit. -/
theorem Denotes.ofDigits_eq_iff {value : Nat} (denotes : Denotes text value)
    (allDigits : ∀ char ∈ text, isDigit char = true) :
    ofDigits 10 text = value ↔ (Radix.split text).1 = .decimal ∨ value < 8 := by
  obtain ⟨⟨-, areDigits⟩, isValue⟩ := denotes
  rw [digits_of_allDigits allDigits] at areDigits isValue
  rcases (split_of_allDigits allDigits).1 with isOctal | isDecimal
  · rw [isOctal] at areDigits isValue ⊢
    rw [← isValue, or_iff_right nofun]
    exact ofDigits_octal_eq_iff areDigits
  · rw [isDecimal] at isValue ⊢
    exact iff_of_true isValue (.inl rfl)

/-- No number starts with a sign. -/
theorem IsCut.head_ne_plus {behind : List Char} (isCut : IsCut .integer text behind) :
    text.head? ≠ some '+' := by
  intro signed
  obtain ⟨rest, rfl⟩ := List.head?_eq_some_iff.mp signed
  obtain ⟨-, hasDigits⟩ := isCut.decimal rfl
  obtain ⟨-, areDigits⟩ := hasDigits rfl
  have inside : '+' ∈ digits ('+' :: rest) := by
    refine List.mem_filter.mpr ⟨?_, rfl⟩
    change '+' ∈ withoutSuffix ('+' :: rest)
    unfold withoutSuffix
    split
    · rename_i isSuffix
      cases rest with
      | nil => rcases isSuffix with last | last <;> cases last
      | cons => exact List.mem_cons_self
    · exact List.mem_cons_self
  cases areDigits '+' inside

theorem IsCut.ne_nil {behind : List Char} (isCut : IsCut .integer text behind) : text ≠ [] := by
  rintro rfl
  obtain ⟨-, hasDigits⟩ := isCut.decimal rfl
  exact (hasDigits rfl).1 rfl

end Numeral

open Numeral

namespace Grammar

open Step

theorem workerCount?_eq_some_iff {text : String} {count : Nat} (nonempty : text.toList ≠ [])
    (noSign : text.toList.head? ≠ some '+') :
    workerCount? text = some count ↔ (∀ char ∈ text.toList, isDigit char = true) ∧
      ofDigits 10 text.toList = count ∧ count < UInt32.size := by
  rw [workerCount?]
  split
  · rename_i signed
    rw [signed] at noSign
    exact absurd rfl noSign
  · rw [Option.ite_none_left_eq_some, Bool.or_eq_true, not_or, List.isEmpty_iff,
      Bool.not_eq_true, List.any_eq_false]
    simp only [Bool.not_eq_eq_eq_not, Bool.not_true, Bool.not_eq_false,
      Option.ite_none_right_eq_some, Option.some.injEq]
    constructor
    · rintro ⟨⟨-, allDigits⟩, fits, rfl⟩
      exact ⟨allDigits, ofDigits_of_allDigits allDigits, fits⟩
    · rintro ⟨allDigits, rfl, fits⟩
      rw [ofDigits_of_allDigits allDigits] at fits ⊢
      exact ⟨⟨nonempty, allDigits⟩, fits, rfl⟩

/-! ### The count of a join -/

/-- What is left to read of a join behind its count. -/
def joinBehindCount (parts : StmtParts) (join word : Token) (count : Nat) : Step Join := do
  let workers ← workerNames
  let condition := .first count workers (← spanFrom word.span)
  let _ ← expectSymbol .rightParen
  let (type, name) ← clauseBinding parts
  let body ← parts.block
  return ⟨some condition, type, name, body, join.span.merge body.span⟩

end Grammar

/-- A join stands here that waits for the first workers, with this token for their number. -/
structure Parser.StandsAtCount (parser : Parser) (number : Token) : Prop where
  join : parser.cursor.peek.kind = .keyword .joinKw
  opens : parser.advance.cursor.peek.kind = .symbol .leftParen
  word : parser.advance.advance.cursor.peek.kind = .keyword .someKw ∨
    parser.advance.advance.cursor.peek.kind = .keyword .anyKw
  number : parser.advance.advance.advance.cursor.peek = number

namespace Grammar

open Step

section Join

variable {parts : StmtParts} {parser : Parser} {number : Token}

theorem startsJoinCondition_of_standsAtCount (stands : parser.StandsAtCount number)
    (isInteger : number.kind = .integer) :
    startsJoinCondition parser.advance.cursor.kinds = true := by
  have isNumber : parser.advance.advance.advance.cursor.peek.kind = .integer := by
    rw [stands.number, isInteger]
  rcases stands.word with word | word
  · rw [kinds_of_peek stands.opens (by simp), kinds_of_peek word (by simp)]
    rfl
  · rw [kinds_of_peek stands.opens (by simp), kinds_of_peek word (by simp),
      kinds_of_peek isNumber (by simp)]
    rfl

theorem joinClause_of_standsAtCount (stands : parser.StandsAtCount number)
    (isInteger : number.kind = .integer) :
    joinClause parts parser =
      match workerCount? number.lexeme with
      | some count => joinBehindCount parts parser.cursor.peek parser.advance.advance.cursor.peek
          count parser.advance.advance.advance.advance
      | none => .error
          (.error .invalidLiteral number.span ("invalid worker count " ++ number.lexeme))
          parser.advance.advance.advance.advance := by
  have isNumber : parser.advance.advance.advance.cursor.peek.kind = .integer := by
    rw [stands.number, isInteger]
  rw [joinClause, expectKeyword, bind_of_ok (expect_of_kind stands.join), bracketedCondition,
    bind_assoc, look_bind (isJoinCondition_eq _),
    if_pos (startsJoinCondition_of_standsAtCount stands isInteger), bind_assoc, expectSymbol,
    bind_of_ok (expect_of_kind stands.opens), bind_assoc, joinCondition_eq, bind_assoc,
    bind_of_ok (advance_eq _), if_pos stands.word, firstOf, bind_assoc,
    bind_of_ok (expect_of_kind isNumber), stands.number]
  cases workerCount? number.lexeme with
  | none => rfl
  | some count => 
    simp only [bind_assoc, pure_bind]
    rfl

theorem condition_of_joinBehindCount {join word : Token} {count : Nat} {clause : Join}
    {later : Parser} (ran : joinBehindCount parts join word count parser = .ok clause later) :
    ∃ workers span, clause.condition = some (.first count workers span) := by
  obtain ⟨workers, _, -, ran⟩ := bind_ok ran
  obtain ⟨span, _, -, ran⟩ := bind_ok ran
  obtain ⟨_, _, -, ran⟩ := bind_ok ran
  obtain ⟨_, _, -, ran⟩ := bind_ok ran
  obtain ⟨_, _, -, ran⟩ := bind_ok ran
  cases ran
  exact ⟨workers, span, rfl⟩

end Join

end Grammar

/-- What a join makes of an integer that stands as its count, whatever follows. Of a literal of
decimal digits alone it takes what these say in decimal, if that fits in 32 bits; this is what the
literal denotes unless it is an octal one for a number of more than one digit. All other literals
are refused. -/
theorem joinClause_count {source : String} {number : Token}
    (inside : number ∈ (tokenize source).1) (isInteger : number.kind = .integer) {value : Nat}
    (denotes : Numeral.Denotes number.lexeme.toList value) (parts : Grammar.StmtParts)
    {parser : Parser} (stands : parser.StandsAtCount number) :
    (∃ count, ((∀ char ∈ number.lexeme.toList, isDigit char = true) ∧
        Numeral.ofDigits 10 number.lexeme.toList = count ∧ count < UInt32.size) ∧
      Grammar.joinClause parts parser =
        Grammar.joinBehindCount parts parser.cursor.peek parser.advance.advance.cursor.peek count
          parser.advance.advance.advance.advance ∧
      (∀ clause later, Grammar.joinClause parts parser = .ok clause later →
        ∃ workers span, clause.condition = some (.first count workers span)) ∧
      (count = value ↔ (Radix.split number.lexeme.toList).1 = .decimal ∨ value < 8)) ∨
    (¬((∀ char ∈ number.lexeme.toList, isDigit char = true) ∧
        Numeral.ofDigits 10 number.lexeme.toList < UInt32.size) ∧
      Grammar.joinClause parts parser =
        .error (.error .invalidLiteral number.span ("invalid worker count " ++ number.lexeme))
          parser.advance.advance.advance.advance) := by
  obtain ⟨mark, -, isBehind⟩ := TokenStream.isBehind_ofSource source
  obtain ⟨front, behind, -, -, isCut⟩ := TokenStream.isCutFrom_of_tokens isBehind number inside
    (by rw [isInteger]; rfl)
  rw [isInteger] at isCut
  have counts (count : Nat) : Grammar.workerCount? number.lexeme = some count ↔ _ :=
    Grammar.workerCount?_eq_some_iff isCut.ne_nil isCut.head_ne_plus
  -- All depends on what the text of the literal says as a count.
  rw [Grammar.joinClause_of_standsAtCount stands isInteger]
  cases known : Grammar.workerCount? number.lexeme with
  | some count =>
      obtain ⟨allDigits, isCount, fits⟩ := (counts count).mp known
      refine .inl ⟨count, ⟨allDigits, isCount, fits⟩, rfl,
        fun _ _ => Grammar.condition_of_joinBehindCount, ?_⟩
      rw [← isCount]
      exact denotes.ofDigits_eq_iff allDigits
  | none =>
      refine .inr ⟨fun accepted => ?_, rfl⟩
      rw [(counts _).mpr ⟨accepted.1, rfl, accepted.2⟩] at known
      cases known

/-- A join that waits for the first twelve workers. -/
theorem joinClause_count_twelve :
    ∃ parts parser number, number ∈ (tokenize "join (some 12) (any x) { }").1 ∧
      number.kind = .integer ∧ Numeral.Denotes number.lexeme.toList 12 ∧
      parser.StandsAtCount number ∧
      ∃ clause later, Grammar.joinClause parts parser = .ok clause later ∧
        ∃ workers span, clause.condition = some (.first 12 workers span) := by
  have inside : (⟨.integer, "12", ⟨11, 13, 1, 12⟩⟩ : Token) ∈
      (tokenize "join (some 12) (any x) { }").1 := by
    decide +kernel
  have denotes : Numeral.Denotes "12".toList 12 := by decide +kernel
  have stands : (Parser.ofSource "join (some 12) (any x) { }" {}).StandsAtCount
      ⟨.integer, "12", ⟨11, 13, 1, 12⟩⟩ :=
    ⟨by decide +kernel, by decide +kernel, by decide +kernel, by decide +kernel⟩
  refine ⟨.within 64, _, _, inside, rfl, denotes, stands, ?_⟩
  rcases joinClause_count inside rfl denotes (.within 64) stands with
    ⟨count, -, -, isFirst, same⟩ | ⟨refused, -⟩
  · obtain rfl := same.mpr (.inl (by decide))
    have accepted : (match Grammar.joinClause (.within 64)
        (Parser.ofSource "join (some 12) (any x) { }" {}) with
      | .ok _ _ => true
      | .error _ _ => false) = true := by
      decide +kernel
    cases ran : Grammar.joinClause (.within 64)
        (Parser.ofSource "join (some 12) (any x) { }" {}) with
    | ok clause later => exact ⟨clause, later, rfl, isFirst clause later ran⟩
    | error diagnostic later =>
        rw [ran] at accepted
        cases accepted
  · have allDigits : "12".toList.all isDigit = true := by decide +kernel
    exact absurd ⟨List.all_eq_true.mp allDigits, by decide +kernel⟩ refused

def Outline.counts (outline : Outline) : List (List Datum) :=
  outline.nodes.filterMap fun
    | .node _ kind _ data _ => if kind = "JoinAny" then some data else none

/-- An octal literal for eight is taken for ten, and a hexadecimal one for two is refused. -/
theorem count_ne_value :
    ((⟨.integer, "010", ⟨35, 38, 1, 36⟩⟩ : Token) ∈
        (tokenize "function f() { fork { } join (some 010 a) (any x) { } }").1 ∧
      Numeral.Denotes "010".toList 8 ∧
      (parseLenient "function f() { fork { } join (some 010 a) (any x) { } }").2.entries = [] ∧
      ((parseLenient "function f() { fork { } join (some 010 a) (any x) { } }").1.outline
        "root").counts = [[.number 10]]) ∧
    ((⟨.integer, "0x2", ⟨35, 38, 1, 36⟩⟩ : Token) ∈
        (tokenize "function f() { fork { } join (some 0x2 a) (any x) { } }").1 ∧
      Numeral.Denotes "0x2".toList 2 ∧
      (parseLenient "function f() { fork { } join (some 0x2 a) (any x) { } }").2.entries.map
        (fun entry => (entry.problem, entry.message)) =
          [(.invalidLiteral, "invalid worker count 0x2")]) :=
  ⟨⟨by decide +kernel, by decide +kernel, by decide +kernel, by decide +kernel⟩,
    ⟨by decide +kernel, by decide +kernel, by decide +kernel⟩⟩

end ServiceLang
