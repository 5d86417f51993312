import ServiceLang.Proofs.Precedence
import ServiceLang.Proofs.WrittenExpr

set_option autoImplicit false

/-! The rules for expressions take what is written of an expression. -/

namespace ServiceLang

namespace Grammar

open Step
open Word (listed inParens inBraces inBrackets)

variable {options : Options} {behind : List Kind → Prop}

/-- The rules for the parts of an expression take what is written of parts up to a
size. A literal ends wherever no operator stands. -/
structure ExprParts.TakesUpTo (options : Options) (parts : ExprParts) (room : Nat) : Prop where
  eager : parts.AreEager (fun _ => True)
  typeName : ∀ type : TypeName, type.nodes ≤ room →
    Takes options parts.typeName TypeName.written TypeName.erased type EndsType
  expr : ∀ (power : Nat) (expr : Expr), expr.Writable → BindsFrom power expr →
    expr.nodes ≤ room → Takes options (parts.expr power) Expr.written Expr.erased expr (EndsExpr power)
  literal : ∀ (power : Nat) (literal : Literal), (Expr.literal literal).Writable → 0 < room →
    Takes options (parts.expr power) Expr.written Expr.erased (.literal literal) (EndsBelow power)

/-! ### Literals -/

theorem literalValue?_of_word {token : Token} {value : LiteralValue}
    (same : token.word = value.word) : literalValue? token = some value := by
  have kind : token.kind = value.word.kind := Token.kind_of_word same
  cases value with
  | boolean value =>
      have isBoolean : token.kind = .boolean := kind
      rw [Token.word, isBoolean] at same
      simp only [literalValue?, isBoolean]
      exact congrArg (fun value => some (LiteralValue.boolean value)) (boolean_inj same)
  | null =>
      have isNull : token.kind = .null := kind
      simp only [literalValue?, isNull]
  | integer text =>
      have isInteger : token.kind = .integer := kind
      rw [Token.word, isInteger] at same
      simp only [literalValue?, isInteger]
      exact congrArg (fun text => some (LiteralValue.integer text)) (Word.mk.inj same).2
  | floating text =>
      have isFloating : token.kind = .floating := kind
      rw [Token.word, isFloating] at same
      simp only [literalValue?, isFloating]
      exact congrArg (fun text => some (LiteralValue.floating text)) (Word.mk.inj same).2
  | string text =>
      have isString : token.kind = .string := kind
      rw [Token.word, isString] at same
      simp only [literalValue?, isString]
      exact congrArg (fun text => some (LiteralValue.string text)) (Word.mk.inj same).2

theorem plainLiteral_takes (value : LiteralValue) (span : Span) :
    Takes options plainLiteral Expr.written Expr.erased (.literal ⟨value, false, span⟩) behind := by
  refine .token fun parser here => ?_
  refine ⟨.literal ⟨value, false, parser.cursor.peek.span⟩, ?_, rfl⟩
  rw [plainLiteral, bind_of_ok (advance_eq parser),
    bind_of_ok (literalOf_eq (literalValue?_of_word here) _)]
  rfl

theorem negativeLiteral_takes (value : LiteralValue) (span : Span) :
    Takes options negativeLiteral Literal.written Literal.erased ⟨value, true, span⟩ behind := by
  refine .andThen (.symbol .minus) rfl fun sign _ => ?_
  refine .token fun parser here => ?_
  refine ⟨⟨value, true, sign.span.merge parser.cursor.peek.span⟩, ?_, rfl⟩
  rw [bind_of_ok (advance_eq parser), bind_of_ok (literalOf_eq (literalValue?_of_word here) _)]
  rfl

/-! ### What the first words decide -/

section Operands

variable {parts : ExprParts} {words : List Word} {good : Expr → Prop}

/-- The form of operand that starts with a kind, numbers with a sign apart. -/
def operandAt (parts : ExprParts) (kind : Kind) : Step Expr :=
  match UnaryOperator.ofKind? kind with
  | some operator => unaryForm parts operator
  | none =>
      match kind with
      | .symbol .less => convertForm parts
      | .symbol .leftParen => castOrParen parts
      | _ => primary parts

theorem operandAt_of_other {kind : Kind}
    (other : kind ∉ [.symbol .plus, .symbol .minus, .symbol .bang, .symbol .less,
      .symbol .leftParen]) : operandAt parts kind = primary parts := by
  simp only [List.mem_cons, List.not_mem_nil, or_false, not_or] at other
  obtain ⟨notPlus, notMinus, notBang, notLess, notParen⟩ := other
  unfold operandAt UnaryOperator.ofKind?
  split
  · rename_i found
    split at found
    · exact absurd rfl notPlus
    · exact absurd rfl notMinus
    · exact absurd rfl notBang
    · cases found
  · split
    · exact absurd rfl notLess
    · exact absurd rfl notParen
    · rfl

theorem operand_takes_of_negative
    (sees : ∀ rest, behind rest → ∃ number more, number.isNumber = true ∧
      words.map Word.kind ++ rest = .symbol .minus :: number :: more)
    (takes : Step.Takes options negativeLiteral words (fun found => good (.literal found)) behind) :
    Step.Takes options (operand parts) words good behind := by
  have mapped : Step.Takes options (do return .literal (← negativeLiteral)) words good behind :=
    takes.map fun _ isGood => isGood
  refine mapped.of_eq fun parser rest before => ?_
  obtain ⟨number, more, isNumber, kinds⟩ := sees _ before.follows
  have negative : (parser.cursor.peek.kind == Kind.symbol .minus &&
      (parser.cursor.peekNth 1).kind.isNumber) = true := by
    rw [before.kind_peek, Cursor.kind_peekNth, before.kinds, kinds]
    exact isNumber
  rw [operand, look_bind (startsNegativeLiteral_eq parser), negative, if_pos rfl]

theorem operand_takes_of_kind (kind : Kind)
    (sees : ∀ rest, behind rest → Kind.next (words.map Word.kind ++ rest) = kind)
    (notNumber : kind = .symbol .minus → ∀ rest, behind rest →
      ((words.map Word.kind ++ rest)[1]?.getD Kind.endOfFile).isNumber = false)
    (takes : Step.Takes options (operandAt parts kind) words good behind) :
    Step.Takes options (operand parts) words good behind := by
  refine takes.of_eq fun parser rest before => ?_
  have here : parser.cursor.peek.kind = kind := before.kind_peek.trans (sees _ before.follows)
  have notNegative : (parser.cursor.peek.kind == Kind.symbol .minus &&
      (parser.cursor.peekNth 1).kind.isNumber) = false := by
    by_cases minus : kind = .symbol .minus
    · rw [Cursor.kind_peekNth, before.kinds, notNumber minus _ before.follows, Bool.and_false]
    · rw [here, beq_eq_false_iff_ne.mpr minus, Bool.false_and]
  rw [operand, look_bind (startsNegativeLiteral_eq parser), notNegative, if_neg Bool.false_ne_true,
    look_bind (current_eq parser), ← here]
  rfl

/-- A primary expression is told by its first token. -/
theorem operand_takes_of_primary (kind : Kind)
    (sees : ∀ rest, behind rest → Kind.next (words.map Word.kind ++ rest) = kind)
    (other : kind ∉ [.symbol .plus, .symbol .minus, .symbol .bang, .symbol .less,
      .symbol .leftParen])
    (takes : Step.Takes options (primary parts) words good behind) :
    Step.Takes options (operand parts) words good behind := by
  refine operand_takes_of_kind kind sees (fun minus => ?_) ?_
  · rw [minus] at other
    exact absurd (by decide) other
  · rw [operandAt_of_other other]
    exact takes

end Operands

section Parts

variable {parts : ExprParts} {room : Nat} (complete : parts.TakesUpTo options room)

include complete

theorem anyExpr_takes {expr : Expr} (writable : expr.Writable) (ordered : expr.Ordered)
    (small : expr.nodes ≤ room) :
    Takes options parts.anyExpr Expr.written Expr.erased expr (EndsExpr 0) :=
  complete.expr 0 expr writable ⟨ordered, fun _ _ => Nat.zero_le _⟩ small

theorem prefixed_takes {expr : Expr} (writable : expr.Writable) (ordered : expr.Ordered)
    (single : expr.operator? = none) (small : expr.nodes ≤ room) :
    Takes options (parts.expr UnaryOperator.power) Expr.written Expr.erased expr EndsOperand := by
  have binds : BindsFrom UnaryOperator.power expr := by
    refine ⟨ordered, fun operator isOperator => ?_⟩
    rw [single] at isOperator
    cases isOperator
  exact (complete.expr _ expr writable binds small).weaken (fun _ same => same)
    fun rest ends => ⟨ends, .tight rest⟩

/-! ### References -/

theorem indexSuffix_takes {position : Expr} (writable : position.Writable)
    (ordered : position.Ordered) (small : position.nodes ≤ room) (base : Reference) (span : Span)
    {other : Reference} (same : other.erased = base.erased) :
    Step.Takes options (indexSuffix parts other) (inBrackets position.written)
      (fun found => found.erased = (Reference.index base position span).erased) behind := by
  refine .andThen (.symbol .leftBracket) rfl fun _ _ => ?_
  refine .bind (anyExpr_takes complete writable ordered small) rfl
    (fun rest _ => .of_closing (by decide) rest) fun found sameFound => ?_
  refine .map (.symbol .rightBracket) fun _ _ => ?_
  simp only [Reference.erased, same, sameFound]

omit complete in
theorem fieldSuffix_takes (member : Identifier) (base : Reference) (span : Span)
    {other : Reference} (same : other.erased = base.erased) :
    Step.Takes options (fieldSuffix other) [.symbol .dot, .name member]
      (fun found => found.erased = (Reference.field base member span).erased) behind := by
  refine .andThen (.symbol .dot) rfl fun _ _ => ?_
  refine .map (identifier_takes member) fun found sameFound => ?_
  simp only [Reference.erased, same, sameFound]

omit complete in
theorem attributes_takes (base : Reference) (span : Span) {other : Reference}
    (same : other.erased = base.erased) :
    Step.Takes options (attributeSuffix parts other) [.symbol .atSign]
      (fun found => found.erased = (Reference.attributes base span).erased)
      fun kinds => Kind.next kinds ≠ .identifier ∧ Kind.next kinds ≠ .symbol .leftBracket := by
  refine .andThen (.symbol .atSign) rfl fun sign _ => ?_
  refine .currentOf (fun kind => kind ≠ .identifier ∧ kind ≠ .symbol .leftBracket)
    (fun _ ends => ends) fun kind other => ?_
  split
  · exact absurd rfl other.1
  · exact absurd rfl other.2
  · exact .pure (by simp only [Reference.erased, same])

omit complete in
theorem attributeNamed_takes (name : Identifier) (base : Reference) (span : Span)
    {other : Reference} (same : other.erased = base.erased) :
    Step.Takes options (attributeSuffix parts other) [.symbol .atSign, .name name]
      (fun found => found.erased = (Reference.attributeNamed base name span).erased) behind := by
  refine .andThen (.symbol .atSign) rfl fun sign _ => ?_
  refine .current .identifier (fun _ _ => rfl) ?_
  refine .map (identifier_takes name) fun found sameFound => ?_
  simp only [Reference.erased, same, sameFound]

theorem attributeAt_takes {selector : Expr} (writable : selector.Writable)
    (ordered : selector.Ordered) (small : selector.nodes ≤ room) (base : Reference) (span : Span)
    {other : Reference} (same : other.erased = base.erased) :
    Step.Takes options (attributeSuffix parts other)
      (.symbol .atSign :: inBrackets selector.written)
      (fun found => found.erased = (Reference.attributeAt base selector span).erased) behind := by
  refine .andThen (.symbol .atSign) rfl fun sign _ => ?_
  refine .current (.symbol .leftBracket) (fun _ _ => rfl) ?_
  refine .andThen (.symbol .leftBracket) rfl fun _ _ => ?_
  refine .bind (anyExpr_takes complete writable ordered small) rfl
    (fun rest _ => .of_closing (by decide) rest) fun found sameFound => ?_
  refine .map (.symbol .rightBracket) fun _ _ => ?_
  simp only [Reference.erased, same, sameFound]

/-- What can stand behind a reference, more suffixes counted in. -/
def EndsSuffix (target : Reference) (kinds : List Kind) : Prop :=
  Kind.next kinds ≠ .identifier ∧
    (target.isBareAttributes = true → Kind.next kinds ≠ .symbol .leftBracket)

theorem suffixes_reach {target : Reference} (writable : target.Writable)
    (ordered : target.Ordered) (small : target.nodes ≤ room) {name : NameReference}
    (same : name.erased = target.root.erased) :
    Reaches options (suffixes parts (.name name)) (suffix parts) target.suffixWritten
      (fun found => found.erased = target.erased) (EndsSuffix target) := by
  have advancing := advancing_of_turn (suffix_turn complete.eager)
  fun_induction Reference.suffixWritten target with
  | case1 root =>
      exact .of_loop (by simp only [Reference.erased, same]; rfl)
  | case2 base position span ih =>
      obtain ⟨notBare, writableBase, writablePosition⟩ := writable
      obtain ⟨orderedBase, orderedPosition⟩ := ordered
      rw [Reference.nodes] at small
      refine (ih writableBase orderedBase (by omega) same).go advancing rfl (fun rest _ => ?_) ?_
      · refine ⟨Kind.noConfusion, fun bare => ?_⟩
        rw [notBare] at bare
        cases bare
      · intro found sameFound
        refine .current (.symbol .leftBracket) (fun _ _ => rfl) (.map ?_ fun _ isGood => isGood)
        exact indexSuffix_takes complete writablePosition orderedPosition (by omega) base span
          sameFound
  | case3 base member span ih =>
      refine (ih writable ordered small same).go advancing rfl (fun rest _ => ?_) ?_
      · exact ⟨Kind.noConfusion, fun _ => by simp [Kind.next, Word.symbol]⟩
      · intro found sameFound
        refine .current (.symbol .dot) (fun _ _ => rfl) (.map ?_ fun _ isGood => isGood)
        exact fieldSuffix_takes member base span sameFound
  | case4 base span ih =>
      refine (ih writable ordered small same).go advancing rfl (fun rest _ => ?_) ?_
      · exact ⟨Kind.noConfusion, fun _ => by simp [Kind.next, Word.symbol]⟩
      · intro found sameFound
        refine .current (.symbol .atSign) (fun _ _ => rfl) (.map ?_ fun _ isGood => isGood)
        exact (attributes_takes base span sameFound).weaken (fun _ same => same)
          fun rest ends => ⟨ends.1, ends.2 rfl⟩
  | case5 base selected span ih =>
      refine (ih writable ordered small same).go advancing rfl (fun rest _ => ?_) ?_
      · exact ⟨Kind.noConfusion, fun _ => by simp [Kind.next, Word.symbol]⟩
      · intro found sameFound
        refine .current (.symbol .atSign) (fun _ _ => rfl) (.map ?_ fun _ isGood => isGood)
        exact attributeNamed_takes selected base span sameFound
  | case6 base selector span ih =>
      obtain ⟨writableBase, writableSelector⟩ := writable
      obtain ⟨orderedBase, orderedSelector⟩ := ordered
      rw [Reference.nodes] at small
      refine (ih writableBase orderedBase (by omega) same).go advancing rfl (fun rest _ => ?_) ?_
      · exact ⟨Kind.noConfusion, fun _ => by simp [Kind.next, Word.symbol]⟩
      · intro found sameFound
        refine .current (.symbol .atSign) (fun _ _ => rfl) (.map ?_ fun _ isGood => isGood)
        exact attributeAt_takes complete writableSelector orderedSelector (by omega) base span
          sameFound

theorem reference_takes {target : Reference} (writable : target.Writable)
    (ordered : target.Ordered) (small : target.nodes ≤ room) :
    Takes options (named parts) Expr.written Expr.erased (.reference target) EndsOperand := by
  change Step.Takes options (named parts) target.written _ _
  rw [target.written_eq]
  refine .bind (nameReference_takes target.root) rfl (fun rest ends => ?_) fun name same => ?_
  · rcases target.opensSuffix writable rest with none | opens
    · rw [none]
      exact ends.ne (by decide)
    · exact opens.ne (by decide)
  · have suffixes_take : Step.Takes options (suffixes parts (.name name)) target.suffixWritten
        (fun found => found.erased = target.erased) EndsOperand := by
      refine (suffixes_reach complete writable ordered small same).stop (List.append_nil _).symm
        (fun rest ends => ⟨ends.ne (by decide), fun _ => ends.ne (by decide)⟩) ?_
      intro found sameFound
      refine .currentOf (fun kind => kind.endsOperand = true) (fun _ ends => ends)
        fun kind ends => ?_
      split
      · cases ends
      · cases ends
      · cases ends
      · exact .pure sameFound
    refine .check false (fun rest ends => beq_eq_false_iff_ne.mpr ?_)
      (suffixes_take.map fun found sameFound => ?_)
    · rcases target.opensSuffix writable rest with none | opens
      · rw [none]
        exact ends.ne (by decide)
      · exact opens.ne (by decide)
    · simp only [Expr.erased, sameFound]

/-! ### Lists -/

theorem exprs_take {close : Symbol}
    (closes : close ∈ [.rightParen, .rightBracket]) {exprs : List Expr}
    (writable : Expr.AllWritable exprs) (ordered : Expr.AllOrdered exprs)
    (small : Expr.allNodes exprs ≤ room) :
    Step.Takes options (closedList close parts.anyExpr)
      (listed (Expr.writtens exprs) ++ [.symbol close])
      (fun found => found.1.map Expr.erased = exprs.map Expr.erased) behind := by
  have closing : close ∈ [.semicolon, .comma, .rightParen, .rightBracket, .rightBrace] := by
    simp only [List.mem_cons, List.not_mem_nil, or_false] at closes
    rcases closes with rfl | rfl <;> decide
  have noStart : (Kind.symbol close).startsOperand = false ∧ close ≠ .comma := by
    simp only [List.mem_cons, List.not_mem_nil, or_false] at closes
    rcases closes with rfl | rfl <;> decide
  rw [Expr.allWritable_iff] at writable
  rw [Expr.allOrdered_iff] at ordered
  rw [Expr.writtens_eq_map]
  have items (expr : Expr) (member : expr ∈ exprs) :
      Takes options parts.anyExpr Expr.written Expr.erased expr (EndsExpr 0) := by
    have smaller := Expr.nodes_le_of_mem member
    exact anyExpr_takes complete (writable expr member) (ordered expr member) (by omega)
  exact .closedList (anyExpr_eager complete.eager).orderly exprs items
    (fun rest => .of_closing (by decide) rest) (fun rest => .of_closing closing rest) noStart.2
    fun expr member rest => Expr.next_ne (writable expr member) noStart.1 rest

theorem arguments_take {exprs : List Expr} (writable : Expr.AllWritable exprs)
    (ordered : Expr.AllOrdered exprs) (small : Expr.allNodes exprs ≤ room) :
    Step.Takes options (arguments parts) (inParens (listed (Expr.writtens exprs)))
      (fun found => found.1.map Expr.erased = exprs.map Expr.erased) behind :=
  .andThen (.symbol .leftParen) rfl fun _ _ =>
    (exprs_take complete (by decide) writable ordered small).map fun _ same => same

theorem call_takes (name : NameReference) {exprs : List Expr} (span : Span)
    (writable : Expr.AllWritable exprs) (ordered : Expr.AllOrdered exprs)
    (small : Expr.allNodes exprs ≤ room) :
    Takes options (named parts) Expr.written Expr.erased (.call name exprs span) behind := by
  refine .bind (nameReference_takes name) rfl (fun rest _ => ?_) fun found same => ?_
  · simp [EndsName, inParens, Kind.next, Word.symbol]
  · refine .check true (fun _ _ => rfl) ((arguments_take complete writable ordered small).map ?_)
    intro found sameFound
    simp only [Expr.erased, Expr.allErased_eq_map, same, sameFound]

theorem arrayLiteral_takes {exprs : List Expr} (span : Span)
    (writable : Expr.AllWritable exprs) (ordered : Expr.AllOrdered exprs)
    (small : Expr.allNodes exprs ≤ room) :
    Takes options (arrayLiteral parts) Expr.written Expr.erased (.array exprs span) behind := by
  refine .andThen (.symbol .leftBracket) rfl fun _ _ => ?_
  refine (exprs_take complete (by decide) writable ordered small).map fun found same => ?_
  simp only [Expr.erased, Expr.allErased_eq_map, same]

theorem mapKey_takes {key : Expr} (isKey : key.isKey = true) (writable : key.Writable)
    (small : key.nodes ≤ room) :
    Takes options (mapKey parts) Expr.written Expr.erased key
      (fun kinds => Kind.next kinds = .symbol .colon) := by
  unfold Expr.isKey at isKey
  split at isKey
  · rename_i text negative span
    have positive : negative = false := by
      cases negative with
      | false => rfl
      | true => cases writable rfl
    rw [positive]
    refine .pair false (fun _ _ => rfl) ?_
    refine (complete.literal 0 ⟨.string text, false, span⟩ ?_ (by
      rw [Expr.nodes] at small; omega)).weaken (fun _ same => same) fun rest colon => ?_
    · exact fun absent => by cases absent
    · exact .of_none (by rw [colon]; rfl)
  · rename_i name
    refine .pair true (fun rest colon => ?_) (.map (identifier_takes name) fun found same => ?_)
    · have second : (Kind.identifier :: rest)[1]?.getD .endOfFile = .symbol .colon := by
        rw [List.getElem?_cons_succ, ← List.head?_eq_getElem?]
        exact colon
      change (true && (Kind.identifier :: rest)[1]?.getD .endOfFile == _) = true
      rw [second]
      rfl
    · simp only [Expr.erased, Reference.erased, NameReference.erased, Option.map, same]
  · cases isKey

theorem mapEntry_takes {entry : MapEntry} (isKey : entry.key.isKey = true)
    (writableKey : entry.key.Writable) (writable : entry.value.Writable)
    (ordered : entry.value.Ordered) (small : entry.key.nodes + entry.value.nodes ≤ room) :
    Takes options (mapEntry parts) MapEntry.written MapEntry.erased entry (EndsExpr 0) := by
  obtain ⟨key, value, span⟩ := entry
  dsimp only at isKey writableKey writable ordered small
  refine .bind (mapKey_takes complete isKey writableKey (by omega)) rfl (fun _ _ => rfl)
    fun found same => .andThen (.symbol .colon) rfl fun _ _ => ?_
  refine .map (anyExpr_takes complete writable ordered (by omega)) fun other sameValue => ?_
  simp only [MapEntry.erased, same, sameValue]

theorem mapLiteral_takes {entries : List MapEntry} (span : Span)
    (writable : MapEntry.AllWritable entries) (ordered : MapEntry.AllOrdered entries)
    (small : MapEntry.allNodes entries ≤ room) :
    Takes options (mapLiteral parts) Expr.written Expr.erased (.mapping entries span) behind := by
  rw [MapEntry.allWritable_iff] at writable
  rw [MapEntry.allOrdered_iff] at ordered
  have items (entry : MapEntry) (member : entry ∈ entries) :
      Takes options (mapEntry parts) MapEntry.written MapEntry.erased entry (EndsExpr 0) := by
    have smaller := MapEntry.nodes_le_of_mem member
    have isWritable := writable entry member
    exact mapEntry_takes complete isWritable.1.1 isWritable.1.2 isWritable.2
      (ordered entry member).2 (by omega)
  have inside : Step.Takes options (closedList .rightBrace (mapEntry parts))
      (listed (entries.map MapEntry.written) ++ [.symbol .rightBrace])
      (fun found => found.1.map MapEntry.erased = entries.map MapEntry.erased) behind := by
    refine .closedList (mapEntry_orderly complete.eager) entries items
      (fun rest => .of_closing (by decide) rest) (fun rest => .of_closing (by decide) rest)
      (by decide) fun entry member rest => ?_
    obtain ⟨key, value, span⟩ := entry
    rw [MapEntry.written, List.map_append, List.append_assoc]
    exact Expr.next_ne (writable _ member).1.2 rfl _
  refine .andThen (.symbol .leftBrace) ?_ fun _ _ => inside.map fun found same => ?_
  · simp [inBraces, MapEntry.writtens_eq_map]
  · simp only [Expr.erased, MapEntry.allErased_eq_map, same]

/-! ### Operands -/

theorem typeMember_takes {type : TypeName} (member : Identifier) (span : Span)
    (builtIn : type.isBuiltIn = true) (small : type.nodes ≤ room) :
    Takes options (typeMember parts) Expr.written Expr.erased (.typeMember type member span)
      behind := by
  have notArray : type.isArray = false := by
    cases type with
    | array => cases builtIn
    | _ => rfl
  have constraint_takes (constraint : TypeName) (span : Span)
      (isMap : type = .mapOf constraint span) :
      Takes options parts.typeName TypeName.written TypeName.erased constraint EndsType := by
    apply complete.typeName
    rw [isMap, TypeName.nodes] at small
    omega
  refine .bind (baseType_takes notArray constraint_takes) rfl (fun rest _ => ?_) fun found same => ?_
  · exact (EndsType.of_symbol (by decide) _).1
  · refine .andThen (.symbol .dot) rfl fun _ _ => .map (identifier_takes member) ?_
    intro name sameName
    simp only [Expr.erased, same, sameName]

omit complete in
theorem template_takes (text : String) (span : Span) :
    Takes options template Expr.written Expr.erased (.template text span) behind := by
  refine .map (text_takes fun _ => rfl) fun token same => ?_
  simp only [Expr.erased, same]

omit complete in
theorem literal_takes {literal : Literal} (writable : (Expr.literal literal).Writable) :
    Takes options (operand parts) Expr.written Expr.erased (.literal literal) behind := by
  obtain ⟨value, negative, span⟩ := literal
  cases negative with
  | true =>
      have isNumber : value.isNumber = true := writable rfl
      refine operand_takes_of_negative (fun rest _ => ⟨_, _, ?_, rfl⟩) ?_
      · cases value <;> first | rfl | cases isNumber
      · exact (negativeLiteral_takes value span).weaken
          (fun _ same => by simp only [Expr.erased, same]) fun _ follows => follows
  | false =>
      cases value <;>
        exact operand_takes_of_primary _ (fun _ _ => rfl) (by decide)
          (.peek _ (fun _ _ => rfl) fun token here => by
            rw [here]
            exact plainLiteral_takes _ span)

theorem castForm_takes {target : TypeName} {inner : Expr} (span : Span)
    (writable : inner.Writable) (ordered : inner.Ordered) (single : inner.operator? = none)
    (small : target.nodes + inner.nodes ≤ room) :
    Takes options (castForm parts) Expr.written Expr.erased (.cast target inner span)
      EndsOperand := by
  refine .andThen (.symbol .leftParen) rfl fun _ _ => ?_
  have split : target.written ++ [.symbol .rightParen] ++ inner.written =
      target.written ++ ([.symbol .rightParen] ++ inner.written) :=
    List.append_assoc _ _ _
  refine .bind (complete.typeName target (by omega)) split
    (fun rest _ => .of_symbol (by decide) _) fun found same => ?_
  refine .andThen (.symbol .rightParen) rfl fun _ _ => ?_
  refine (prefixed_takes complete writable ordered single (by omega)).map fun other sameInner => ?_
  simp only [Expr.erased, same, sameInner]

theorem convertForm_takes {target : TypeName} {inner : Expr} (span : Span)
    (writable : inner.Writable) (ordered : inner.Ordered) (single : inner.operator? = none)
    (small : target.nodes + inner.nodes ≤ room) :
    Takes options (convertForm parts) Expr.written Expr.erased (.convert target inner span)
      EndsOperand := by
  refine .andThen (.symbol .less) rfl fun _ _ => ?_
  have split : target.written ++ [.symbol .greater] ++ inner.written =
      target.written ++ ([.symbol .greater] ++ inner.written) :=
    List.append_assoc _ _ _
  refine .bind (complete.typeName target (by omega)) split
    (fun rest _ => .of_symbol (by decide) _) fun found same => ?_
  refine .andThen (.symbol .greater) rfl fun _ _ => ?_
  refine (prefixed_takes complete writable ordered single (by omega)).map fun other sameInner => ?_
  simp only [Expr.erased, same, sameInner]

theorem parenForm_takes {inner : Expr} (span : Span) (writable : inner.Writable)
    (ordered : inner.Ordered) (small : inner.nodes ≤ room) :
    Takes options (parenForm parts) Expr.written Expr.erased (.paren inner span) behind := by
  refine .andThen (.symbol .leftParen) rfl fun _ _ => ?_
  refine .bind (anyExpr_takes complete writable ordered small) rfl
    (fun rest _ => .of_closing (by decide) rest) fun found same => ?_
  refine .map (.symbol .rightParen) fun _ _ => ?_
  simp only [Expr.erased, same]

theorem unaryForm_takes (operator : UnaryOperator) {inner : Expr} (span : Span)
    (writable : inner.Writable) (ordered : inner.Ordered) (single : inner.operator? = none)
    (small : inner.nodes ≤ room) :
    Takes options (unaryForm parts operator) Expr.written Expr.erased
      (.unary operator inner span) EndsOperand := by
  refine .andThen (.symbol operator.symbol) rfl fun _ _ => ?_
  refine (prefixed_takes complete writable ordered single small).map fun other same => ?_
  simp only [Expr.erased, same]

omit complete in
/-- An operand that starts with a number is this number. -/
theorem isUnsignedNumber_of_written {expr : Expr} (writable : expr.Writable)
    (single : expr.operator? = none) {word : Word} {more : List Word}
    (whole : expr.written = word :: more) (number : word.kind.isNumber = true) :
    expr.isUnsignedNumber = true := by
  have starts {first : Word} {others : List Word} (here : expr.written = first :: others) :
      first.kind.isNumber = true := by
    rw [here] at whole
    rw [(List.cons.inj whole).1]
    exact number
  cases expr with
  | literal literal =>
      obtain ⟨value, negative, span⟩ := literal
      cases negative with
      | true => cases starts rfl
      | false => cases value <;> first | rfl | cases starts rfl
  | reference target =>
      obtain ⟨first, others, same, kind⟩ := target.root.written_eq_cons
      have whole : (Expr.reference target).written = first :: (others ++ target.suffixWritten) := by
        rw [Expr.written, target.written_eq, same, List.cons_append]
      have isNumber := starts whole
      rw [kind] at isNumber
      cases isNumber
  | call name exprs span =>
      obtain ⟨package, last⟩ := name
      cases package <;> cases starts rfl
  | typeMember type member span =>
      cases type with
      | value type _ => cases type <;> cases starts rfl
      | any | named | array => cases writable
      | _ => cases starts rfl
  | unary operator inner span => cases operator <;> cases starts rfl
  | binary operator left right span => cases single
  | invoke | create => cases writable
  | _ => cases starts rfl

omit complete in
theorem castOrParen_takes_of {words : List Word} {good : Expr → Prop} (answer : Bool)
    (sees : ∀ rest, behind rest →
      startsCast (options.maxDepth + 1) (words.map Word.kind ++ rest) = answer)
    (takes : Step.Takes options (if answer then castForm parts else parenForm parts) words good
      behind) :
    Step.Takes options (castOrParen parts) words good behind := by
  refine takes.of_eq fun parser rest before => ?_
  rw [castOrParen, look_bind (isCast_eq parser), before.options, before.kinds,
    sees _ before.follows]

theorem typeMemberOperand_takes (member : Identifier) (span : Span) {type : TypeName}
    (writable : (Expr.typeMember type member span).Writable) (small : type.nodes ≤ room) :
    Takes options (operand parts) Expr.written Expr.erased (.typeMember type member span)
      EndsOperand := by
  have taken : Takes options (typeMember parts) Expr.written Expr.erased
      (.typeMember type member span) EndsOperand :=
    typeMember_takes complete member span writable small
  have ofWord (word : Keyword) (notCreate : word ≠ .createKw)
      (isType : ((Kind.keyword word).isValueType || (Kind.keyword word).isReferenceType) = true)
      (sees : ∃ more, type.written = .keyword word :: more) :
      Takes options (operand parts) Expr.written Expr.erased (.typeMember type member span)
        EndsOperand := by
    obtain ⟨more, whole⟩ := sees
    have first (rest : List Kind) (_ : EndsOperand rest) :
        Kind.next ((Expr.typeMember type member span).written.map Word.kind ++ rest) =
          .keyword word := by
      rw [Expr.written, whole]
      rfl
    refine operand_takes_of_primary _ first (by simp) (.peek _ first fun token here => ?_)
    rw [here]
    split
    case h_10 same => exact absurd (Kind.keyword.inj same) notCreate
    case h_11 =>
      rw [if_pos isType]
      exact taken
    all_goals
      rename_i same
      cases same
  cases type with
  | value type _ => cases type <;> exact ofWord _ (by decide) rfl ⟨_, rfl⟩
  | any | named | array => cases writable
  | _ => exact ofWord _ (by decide) rfl ⟨_, rfl⟩

theorem unaryOperand_takes (operator : UnaryOperator) (span : Span) {inner : Expr}
    (writable : (Expr.unary operator inner span).Writable)
    (ordered : (Expr.unary operator inner span).Ordered) (small : inner.nodes ≤ room) :
    Takes options (operand parts) Expr.written Expr.erased (.unary operator inner span)
      EndsOperand := by
  obtain ⟨writableInner, unsigned⟩ := writable
  obtain ⟨singleInner, orderedInner⟩ := ordered
  refine operand_takes_of_kind (.symbol operator.symbol) (fun _ _ => rfl) (fun minus rest _ => ?_) ?_
  · -- A number behind the sign would have been read as one with a sign.
    have isNegate : operator = .negate := by
      cases operator <;> first | rfl | cases minus
    obtain ⟨word, more, whole, -⟩ := Expr.written_eq_cons writableInner
    rw [Expr.written, whole]
    change word.kind.isNumber = false
    cases number : word.kind.isNumber with
    | false => rfl
    | true =>
        have isNumber := isUnsignedNumber_of_written writableInner singleInner whole number
        rw [unsigned isNegate] at isNumber
        cases isNumber
  · have form : operandAt parts (.symbol operator.symbol) = unaryForm parts operator := by
      cases operator <;> rfl
    rw [form]
    exact unaryForm_takes complete operator span writableInner orderedInner singleInner small

theorem operand_takes (fits : room ≤ options.maxDepth) {expr : Expr} (writable : expr.Writable)
    (ordered : expr.Ordered) (single : expr.operator? = none) (small : expr.nodes ≤ room + 1) :
    Takes options (operand parts) Expr.written Expr.erased expr EndsOperand := by
  cases expr with
  | literal literal => exact literal_takes writable
  | template text span =>
      refine operand_takes_of_primary .template (fun _ _ => rfl) (by decide)
        (.peek _ (fun _ _ => rfl) fun token here => ?_)
      rw [here]
      exact template_takes text span
  | array exprs span =>
      refine operand_takes_of_primary (.symbol .leftBracket) (fun _ _ => rfl) (by decide)
        (.peek _ (fun _ _ => rfl) fun token here => ?_)
      rw [here]
      exact arrayLiteral_takes complete span writable ordered (Nat.le_of_succ_le_succ small)
  | mapping entries span =>
      refine operand_takes_of_primary (.symbol .leftBrace) (fun _ _ => rfl) (by decide)
        (.peek _ (fun _ _ => rfl) fun token here => ?_)
      rw [here]
      exact mapLiteral_takes complete span writable ordered (Nat.le_of_succ_le_succ small)
  | reference target =>
      have sees (rest : List Kind) (_ : EndsOperand rest) :
          Kind.next (target.written.map Word.kind ++ rest) = .identifier := by
        rw [target.written_eq, List.map_append, List.append_assoc]
        exact kind_next_name _ _
      refine operand_takes_of_primary .identifier sees (by decide)
        (.peek .identifier sees fun token here => ?_)
      rw [here]
      exact reference_takes complete writable ordered (Nat.le_of_succ_le_succ small)
  | call name exprs span =>
      have sees (rest : List Kind) (_ : EndsOperand rest) :
          Kind.next ((Expr.call name exprs span).written.map Word.kind ++ rest) = .identifier := by
        rw [Expr.written, List.map_append, List.append_assoc]
        exact kind_next_name _ _
      refine operand_takes_of_primary .identifier sees (by decide)
        (.peek .identifier sees fun token here => ?_)
      rw [here]
      exact call_takes complete name span writable ordered (Nat.le_of_succ_le_succ small)
  | invoke | create => cases writable
  | typeMember type member span =>
      exact typeMemberOperand_takes complete member span writable (Nat.le_of_succ_le_succ small)
  | cast target inner span =>
      rw [Expr.nodes] at small
      obtain ⟨writableInner, told⟩ := writable
      refine operand_takes_of_kind (.symbol .leftParen) (fun _ _ => rfl)
        (fun minus => by cases minus) (castOrParen_takes_of true (fun rest _ => ?_) ?_)
      · exact startsCast_cast (by omega) writableInner told rest
      · exact castForm_takes complete span writableInner ordered.2 ordered.1 (by omega)
  | convert target inner span =>
      rw [Expr.nodes] at small
      refine operand_takes_of_kind (.symbol .less) (fun _ _ => rfl) (fun minus => by cases minus) ?_
      exact convertForm_takes complete span writable ordered.2 ordered.1 (by omega)
  | unary operator inner span =>
      exact unaryOperand_takes complete operator span writable ordered (Nat.le_of_succ_le_succ small)
  | binary operator left right span => cases single
  | paren inner span =>
      rw [Expr.nodes] at small
      refine operand_takes_of_kind (.symbol .leftParen) (fun _ _ => rfl)
        (fun minus => by cases minus) (castOrParen_takes_of false (fun rest ends => ?_) ?_)
      · have smaller : inner.nodes ≤ options.maxDepth + 1 := by omega
        exact @startsCast_paren _ inner writable smaller rest ends
      · exact parenForm_takes complete span writable ordered (by omega)

/-! ### Binary operators -/

theorem binaryForm_takes {operator : BinaryOperator} {left right other : Expr} (span : Span)
    (same : other.erased = left.erased) (writable : right.Writable)
    (binds : BindsFrom operator.rightPower right) (small : right.nodes ≤ room) :
    Step.Takes options (binaryForm parts operator other)
      (.symbol operator.symbol :: right.written)
      (fun found => found.erased = (Expr.binary operator left right span).erased)
      (EndsExpr operator.rightPower) := by
  refine .andThen (.symbol operator.symbol) rfl fun _ _ => ?_
  refine (complete.expr operator.rightPower right writable binds small).map fun found sameRight => ?_
  simp only [Expr.erased, same, sameRight]

/-- An operand and the operators behind it, as far as they are written, with the loop
over what may follow still to come. -/
theorem operation_reaches (fits : room ≤ options.maxDepth) {power : Nat} {expr : Expr}
    (writable : expr.Writable) (binds : BindsFrom power expr) (small : expr.nodes ≤ room + 1) :
    Reaches options (operation parts power) (extend parts power) expr.written
      (fun found => found.erased = expr.erased)
      (fun kinds => EndsOperand kinds ∧ ∀ operator, expr.operator? = some operator →
        EndsBelow operator.rightPower kinds) := by
  fun_induction Expr.chain expr with
  | case1 operator left right span ihLeft _ =>
      obtain ⟨writableLeft, writableRight⟩ := writable
      obtain ⟨fitsLeft, fitsRight, orderedLeft, orderedRight⟩ := binds.ordered
      rw [Expr.nodes] at small
      have tight : power ≤ operator.leftPower := binds.tight operator rfl
      have bindsLeft : BindsFrom power left := by
        refine ⟨orderedLeft, fun inner isInner => ?_⟩
        exact Nat.le_trans tight (BinaryOperator.leftPower_le_of_mayStandLeft (fitsLeft inner isInner))
      have bindsRight : BindsFrom operator.rightPower right :=
        ⟨orderedRight, fun inner isInner =>
          BinaryOperator.power_of_mayStandRight (fitsRight inner isInner)⟩
      refine (ihLeft writableLeft bindsLeft (by omega)).go
        (advancing_of_turn (extend_turn complete.eager power)) rfl (fun rest _ => ?_) ?_
      · refine ⟨by cases operator <;> rfl, fun inner isInner next here => ?_⟩
        have isOperator : BinaryOperator.ofKind? (.symbol operator.symbol) = some next := here
        rw [BinaryOperator.ofKind?_symbol] at isOperator
        cases isOperator
        exact BinaryOperator.power_of_mayStandLeft (fitsLeft inner isInner)
      · intro found same
        refine .current (.symbol operator.symbol) (fun _ _ => rfl) ?_
        rw [BinaryOperator.ofKind?_symbol]
        dsimp only
        rw [if_neg (Nat.not_lt.mpr tight)]
        refine .map ?_ fun _ isGood => isGood
        exact (binaryForm_takes complete span same writableRight bindsRight (by omega)).weaken
          (fun _ isGood => isGood) fun rest ends => ⟨ends.1, ends.2 operator rfl⟩
  | case2 expr notBinary =>
      have single : expr.operator? = none := by
        cases expr with
        | binary operator left right span => exact absurd rfl (notBinary operator left right span)
        | _ => rfl
      exact .of_takes ((operand_takes complete fits writable binds.ordered single small).weaken
        (fun _ same => same) fun rest ends => ends.1)

omit complete in
/-- No operator binds as tightly as asked, so the loop over operators ends. -/
theorem extend_stops {power : Nat} {found : Expr} {good : Expr → Prop} (isGood : good found) :
    Step.Takes options (extend parts power found) [] (Stops good) (EndsBelow power) := by
  refine .currentOf (fun kind => ∀ operator, BinaryOperator.ofKind? kind = some operator →
    operator.leftPower < power) (fun rest ends => ends) fun kind loose => ?_
  split
  · exact .pure isGood
  · rename_i operator here
    rw [if_pos (loose operator here)]
    exact .pure isGood

theorem operation_takes (fits : room ≤ options.maxDepth) {power : Nat} {expr : Expr}
    (writable : expr.Writable) (binds : BindsFrom power expr) (small : expr.nodes ≤ room + 1) :
    Takes options (operation parts power) Expr.written Expr.erased expr (EndsExpr power) := by
  refine (operation_reaches complete fits writable binds small).stop (List.append_nil _).symm
    (fun rest ends => ?_) fun found same => ?_
  · refine ⟨ends.1, fun operator isOperator next here => ?_⟩
    have tight := binds.tight operator isOperator
    exact BinaryOperator.leftPower_lt_rightPower (Nat.lt_of_lt_of_le (ends.2 next here) tight)
  · have stops : Step.Takes options (extend parts power found) []
        (Stops fun found => found.erased = expr.erased) (EndsBelow power) :=
      extend_stops same
    exact stops.weaken (fun _ isGood => isGood) fun rest ends => ends.2

omit complete in
theorem operation_takes_literal {power : Nat} {literal : Literal}
    (writable : (Expr.literal literal).Writable) :
    Takes options (operation parts power) Expr.written Expr.erased (.literal literal)
      (EndsBelow power) := by
  have reaches : Reaches options (operation parts power) (extend parts power)
      (Expr.literal literal).written (fun found => found.erased = (Expr.literal literal).erased)
      fun _ => True :=
    .of_takes (literal_takes writable)
  exact reaches.stop (List.append_nil _).symm (fun _ _ => trivial) fun found same =>
    extend_stops same

end Parts

theorem within_takesUpTo {room : Nat} (fits : room ≤ options.maxDepth) :
    (ExprParts.within room).TakesUpTo options room := by
  induction room with
  | zero =>
      refine ⟨within_areEager 0, fun type small =>
        typeName_takes type (Nat.lt_of_lt_of_le type.depth_lt_nodes small), ?_, ?_⟩
      · intro power expr _ _ small
        exact absurd (Nat.lt_of_lt_of_le expr.nodes_pos small) (Nat.lt_irrefl 0)
      · intro power literal _ more
        exact absurd more (Nat.lt_irrefl 0)
  | succ room ih =>
      have complete := ih (Nat.le_of_succ_le fits)
      refine ⟨within_areEager (room + 1), fun type small =>
        typeName_takes type (Nat.lt_of_lt_of_le type.depth_lt_nodes small), ?_, ?_⟩
      · intro power expr writable binds small
        exact operation_takes complete (Nat.le_of_succ_le fits) writable binds small
      · intro power literal writable _
        exact operation_takes_literal writable

end Grammar

end ServiceLang
