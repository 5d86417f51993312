import ServiceLang.Proofs.Looking
import ServiceLang.Proofs.Rereading

set_option autoImplicit false

/-! The rules for type names and expressions read again what they have read. -/

namespace ServiceLang.Grammar

open Step
open Word (listed inParens inBraces inBrackets inAngles behind)

variable {calm : Parser → Prop} [Calm calm]

/-- A rule that keeps the order of what it reads, and reads it again from the same
start. -/
abbrev Reads (calm : Parser → Prop) {α ε : Type} (rule : Step α) (erased : α → ε)
    (written : α → List Word) : Prop :=
  Rereads calm True Agree (fun _ => Agree) [] rule rule erased written

/-! ### Type names -/

theorem nameReference_reads :
    Reads calm nameReference NameReference.erased NameReference.written := by
  refine .bind .identifier fun first first' same => ?_
  refine .ofPair rfl ?_ (.pure rfl ?_)
  · refine .bind (.symbolLooking _) fun _ _ _ => .bind .identifier fun name name' sameName => ?_
    exact .pure rfl (by simp only [NameReference.erased, Option.map, same, sameName])
  · simp only [NameReference.erased, Option.map, same]

theorem bracedString_reads :
    Reads calm bracedString id (fun text => inBraces [.string text]) := by
  exact .bind (.symbol _ rfl) fun _ _ _ => .bind (.text (by simp) rfl fun _ => rfl)
    fun text text' same => .bind (.symbol _ rfl) fun _ _ _ => .pure rfl same

theorem xmlConstraintBehind_reads (start other : Token) :
    Rereads calm True Agree (fun _ => Agree) [.symbol .less] (xmlConstraintBehind start)
      (xmlConstraintBehind other) XmlConstraint.erased XmlConstraint.written := by
  refine .bind (.ifAt (by simp) (fun _ _ => id) bracedString_reads) fun uri uri' sameUri => ?_
  refine .bind .identifier fun element element' same => ?_
  exact .bind (.symbol _ rfl) fun _ _ _ => .pure (by simp [XmlConstraint.written, inAngles])
    (by simp_all [XmlConstraint.erased])

theorem xmlConstraint_reads : Reads calm xmlConstraint (Option.map XmlConstraint.erased)
    (behind [] XmlConstraint.written) := by
  refine .ofEat? (by simp) (fun _ => Token.word_of_symbol) (.pure rfl rfl) fun start other => ?_
  exact .mapped (xmlConstraintBehind_reads start other) (fun _ => rfl)
    fun _ _ same => congrArg some same

theorem schemaBehind_reads (start other : Token) :
    Rereads calm True Agree (fun _ => Agree) [.symbol .less] (schemaBehind start)
      (schemaBehind other) SchemaReference.erased SchemaReference.written := by
  refine .bind bracedString_reads fun location location' same => ?_
  cases same
  exact .bind (.symbol _ rfl) fun _ _ _ => .pure (by simp [SchemaReference.written, inAngles]) rfl

theorem schemaReference_reads : Reads calm schemaReference (Option.map SchemaReference.erased)
    (behind [] SchemaReference.written) := by
  refine .ofEat? (by simp) (fun _ => Token.word_of_symbol) (.pure rfl rfl) fun start other => ?_
  exact .mapped (schemaBehind_reads start other) (fun _ => rfl)
    fun _ _ same => congrArg some same

theorem mapType_reads {inner : Step TypeName}
    (reads : Reads calm inner TypeName.erased TypeName.written) :
    Reads calm (mapType inner) TypeName.erased TypeName.written := by
  refine .bindAgree (.keyword _ (by simp)) fun _ _ _ => .ofEat (by simp) (fun _ => Token.word_of_symbol) ?_ ?_
  · refine .bind reads fun constraint other same => ?_
    exact .bind (.symbol _ rfl) fun _ _ _ => .spanned
      (by simp [inAngles]) (by simp [same])
  · exact .spanned (fun _ => rfl) (fun _ _ => rfl)

theorem constrainedType_reads {α ε : Type} {word : Keyword} {constraint : Step (Option α)}
    {make : Option α → Span → TypeName} {erased : α → ε} {written : α → List Word}
    (plain : word ≠ .joinKw ∧ word ≠ .nativeKw)
    (reads : Reads calm constraint (Option.map erased) (behind [] written))
    (whole : ∀ constraint span,
      (make constraint span).written = .keyword word :: behind [] written constraint)
    (same : ∀ constraint other span otherSpan, other.map erased = constraint.map erased →
      (make other otherSpan).erased = (make constraint span).erased) :
    Reads calm (constrainedType word constraint make) TypeName.erased TypeName.written :=
  .bind (.keyword _ plain) fun _ _ _ => .bind reads fun found other sameFound => .spanned
    (by simp [whole]) (fun _ _ => same _ _ _ _ sameFound)

theorem namedType_reads : Reads calm namedType TypeName.erased TypeName.written :=
  .bind .peek fun _ _ _ => .bind nameReference_reads fun reference other same => .spanned
    (by simp) (by simp [same])

theorem simpleType_reads : Reads calm simpleType TypeName.erased TypeName.written := by
  refine .token (fun token => simpleType? token.span token.kind)
    (fun token => simpleType? token.span token.kind) ?_ ?_ ?_
  · intro parser value later ran
    rw [simpleType, look_bind (peek_eq parser)] at ran
    cases simple : simpleType? parser.cursor.peek.span parser.cursor.peek.kind with
    | some type =>
        simp only [simple, bind_of_ok (advance_eq parser)] at ran
        cases ran
        exact ⟨rfl, rfl⟩
    | none =>
        simp only [simple] at ran
        exact absurd ran failAt_ne_ok
  · intro parser value simple
    rw [simpleType, look_bind (peek_eq parser)]
    simp only [simple]
    exact bind_of_ok (advance_eq parser)
  · intro token type simple
    unfold simpleType? at simple
    split at simple <;> rename_i here <;> cases simple <;> rw [Token.word_of_keyword here, here] <;>
      exact ⟨by simp, rfl, fun other same => ⟨_, congrArg _ (Token.kind_of_word same), rfl⟩⟩

theorem baseType_reads {inner : Step TypeName}
    (reads : Reads calm inner TypeName.erased TypeName.written) :
    Reads calm (baseType inner) TypeName.erased TypeName.written := by
  refine .bind .current fun kind _ same => ?_
  cases same
  split
  · exact mapType_reads reads
  · exact constrainedType_reads (by simp) xmlConstraint_reads (fun _ _ => rfl)
      fun _ _ _ _ same => by simp only [TypeName.erased, same]
  · exact constrainedType_reads (by simp) xmlConstraint_reads (fun _ _ => rfl)
      fun _ _ _ _ same => by simp only [TypeName.erased, same]
  · exact constrainedType_reads (by simp) schemaReference_reads (fun _ _ => rfl)
      fun _ _ _ _ same => by simp only [TypeName.erased, same]
  · exact namedType_reads
  · exact simpleType_reads

theorem dimension_reads (type other : TypeName) (same : other.erased = type.erased) :
    Rereads calm True Agree (Rereads.behindTurn Agree Agree) type.written (dimension type)
      (dimension other) (Rereads.decided TypeName.erased)
      (Rereads.soFar TypeName.written TypeName.written) := by
  refine .ofPair rfl ?_ (.done rfl same)
  refine .bind (.symbolLooking _) fun _ _ _ => ?_
  exact .bind (.symbol _ rfl) fun _ _ _ =>
    .yield (by simp) (by simp only [TypeName.erased, same])

theorem dimensions_reads (type other : TypeName) (same : other.erased = type.erased) :
    Rereads calm True Agree (fun _ => Agree) type.written (dimensions type) (dimensions other)
      TypeName.erased TypeName.written :=
  .loop (advancing_of_turn dimension_turn) dimension_reads type other same

theorem typeName_reads (room : Nat) :
    Reads calm (typeName room) TypeName.erased TypeName.written := by
  induction room with
  | zero => exact .tooDeep
  | succ room ih => exact .bind (baseType_reads ih) dimensions_reads

/-! ### Expressions -/

structure ExprParts.AreReread (calm : Parser → Prop) (parts : ExprParts) : Prop where
  eager : parts.AreEager (fun _ => True)
  typeName : Reads calm parts.typeName TypeName.erased TypeName.written
  expr : ∀ power, Reads calm (parts.expr power) Expr.erased Expr.written

theorem literalOf_eq {token : Token} {value : LiteralValue}
    (meant : literalValue? token = some value) (parser : Parser) :
    literalOf token parser = .ok ⟨value, false, token.span⟩ parser := by
  simp only [literalOf, meant]
  rfl

theorem boolean_inj {left right : Bool} (same : Word.boolean left = Word.boolean right) :
    left = right := by
  cases left <;> cases right <;> first | rfl | simp [Word.boolean] at same

/-- A literal is written as its token, and a token with the same word stands for the
same literal. -/
theorem word_of_literalValue? {token : Token} {value : LiteralValue}
    (meant : literalValue? token = some value) :
    (token.kind ≠ .endOfFile ∧ token.kind ≠ .keyword .joinKw) ∧ value.word = token.word ∧
      ∀ other : Token, other.word = token.word → literalValue? other = some value := by
  unfold literalValue? at meant
  split at meant <;> cases meant <;> rename_i here <;>
    refine ⟨by simp [here], by simp [Token.word, Word.normal, here]; rfl, fun other same => ?_⟩
  all_goals
    have kind := (Token.kind_of_word same).trans token.kind_word
    rw [here] at kind
    simp only [Token.word, Word.normal, here, kind] at same
    simp only [literalValue?, kind]
  · rw [(Word.mk.inj same).2]
  · rw [(Word.mk.inj same).2]
  · rw [(Word.mk.inj same).2]
  · rw [boolean_inj same]

theorem literalToken_reads {α ε : Type} {before : List Word} {erased : α → ε}
    {written : α → List Word} {make makeAgain : Token → Literal → α}
    (whole : ∀ (token : Token) value,
      written (make token ⟨value, false, token.span⟩) = before ++ [value.word])
    (same : ∀ (token other : Token) value, erased (makeAgain other ⟨value, false, other.span⟩) =
      erased (make token ⟨value, false, token.span⟩)) :
    Rereads calm True Agree (fun _ => Agree) before
      (do
        let token ← advance
        return make token (← literalOf token))
      (do
        let token ← advance
        return makeAgain token (← literalOf token)) erased written := by
  refine .token
    (fun token => (literalValue? token).map fun value => make token ⟨value, false, token.span⟩)
    (fun token => (literalValue? token).map fun value =>
      makeAgain token ⟨value, false, token.span⟩) ?_ ?_ ?_
  · intro parser result later ran
    rw [bind_of_ok (advance_eq parser)] at ran
    obtain ⟨literal, between, ranLiteral, ran⟩ := bind_ok ran
    obtain ⟨value, meant, rfl, rfl⟩ := literalOf_ok ranLiteral
    cases ran
    exact ⟨congrArg (Option.map _) meant, rfl⟩
  · intro parser result found
    obtain ⟨value, meant, rfl⟩ := Option.map_eq_some_iff.mp found
    rw [bind_of_ok (advance_eq parser), bind_of_ok (literalOf_eq meant _)]
    rfl
  · intro token result found
    obtain ⟨value, meant, rfl⟩ := Option.map_eq_some_iff.mp found
    obtain ⟨plain, word, again⟩ := word_of_literalValue? meant
    refine ⟨plain, by rw [whole, word], fun other sameWord => ?_⟩
    exact ⟨_, congrArg (Option.map _) (again other sameWord), same token other value⟩

section Parts

variable {parts : ExprParts} (reads : parts.AreReread calm)

include reads

omit [Calm calm] in
theorem anyExpr_reads : Reads calm parts.anyExpr Expr.erased Expr.written :=
  reads.expr 0

theorem expressions_reads : Reads calm (expressions parts) (List.map Expr.erased)
    (fun exprs => listed (exprs.map Expr.written)) :=
  .commaSeparated (anyExpr_eager reads.eager).orderly (anyExpr_reads reads)

theorem condition_reads : Reads calm (condition parts) Expr.erased
    (fun expr => inParens expr.written) := by
  refine .bind (.symbol _ rfl) fun _ _ _ => .bind (anyExpr_reads reads) fun expr other same => ?_
  exact .bind (.symbol _ rfl) fun _ _ _ => .pure (by simp [inParens]) same

theorem arguments_reads : Reads calm (arguments parts) (fun found => found.1.map Expr.erased)
    (fun found => inParens (listed (found.1.map Expr.written))) :=
  .bind (.symbol _ rfl) fun _ _ _ =>
    .bind (.closedList rfl (anyExpr_eager reads.eager).orderly (anyExpr_reads reads))
      fun found other same => .pure (by simp [inParens]) same

/-! ### References -/

section Suffixes

variable {base other : Reference} (same : other.erased = base.erased)

include same

theorem indexSuffix_reads : Rereads calm True Agree (fun _ => Agree) base.written
    (indexSuffix parts base) (indexSuffix parts other) Reference.erased Reference.written := by
  refine .bind (.symbolLooking _) fun _ _ _ => ?_
  refine .bind (anyExpr_reads reads) fun position _ samePosition => ?_
  exact .bind (.symbol _ rfl) fun _ _ _ => .pure (by simp [inBrackets])
    (by simp only [Reference.erased, same, samePosition])

omit reads in
theorem fieldSuffix_reads : Rereads calm True Agree (fun _ => Agree) base.written
    (fieldSuffix base) (fieldSuffix other) Reference.erased Reference.written :=
  .bind (.symbolLooking _) fun _ _ _ => .bind .identifier fun _ _ sameMember =>
    .pure (by simp) (by simp only [Reference.erased, same, sameMember])

theorem attributeSelector_reads (sign otherSign : Token) :
    Rereads calm True Agree (fun _ => Agree) (base.written ++ [.symbol .atSign])
      (attributeSelector parts base sign) (attributeSelector parts other otherSign)
      Reference.erased Reference.written := by
  refine .bind .current fun kind _ sameKind => ?_
  cases sameKind
  split
  · exact .bind .identifier fun _ _ sameName => .pure (by simp)
      (by simp only [Reference.erased, same, sameName])
  · refine .bind (.symbolLooking _) fun _ _ _ => ?_
    refine .bind (anyExpr_reads reads) fun selector _ sameSelector => ?_
    exact .bind (.symbol _ rfl) fun _ _ _ => .pure (by simp [inBrackets])
      (by simp only [Reference.erased, same, sameSelector])
  · exact .pure (by simp) (by simp only [Reference.erased, same])

theorem attributeSuffix_reads : Rereads calm True Agree (fun _ => Agree) base.written
    (attributeSuffix parts base) (attributeSuffix parts other) Reference.erased
    Reference.written :=
  .bind (.symbol _ rfl) fun _ _ _ => attributeSelector_reads reads same _ _

end Suffixes

theorem suffix_reads (base other : Reference) (same : other.erased = base.erased) :
    Rereads calm True Agree (Rereads.behindTurn Agree Agree) base.written (suffix parts base)
      (suffix parts other) (Rereads.decided Reference.erased)
      (Rereads.soFar Reference.written Reference.written) := by
  refine .bind .current fun kind _ sameKind => ?_
  cases sameKind
  rw [List.append_nil]
  split
  · exact .yielded (indexSuffix_reads reads same)
  · exact .yielded (fieldSuffix_reads same)
  · exact .yielded (attributeSuffix_reads reads same)
  · exact .done rfl same

theorem suffixes_reads (base other : Reference) (same : other.erased = base.erased) :
    Rereads calm True Agree (fun _ => Agree) base.written (suffixes parts base)
      (suffixes parts other) Reference.erased Reference.written :=
  .loop (advancing_of_turn (suffix_turn reads.eager)) (suffix_reads reads) base other same

theorem reference_reads : Reads calm (reference parts) Reference.erased Reference.written :=
  .bind nameReference_reads fun name other same =>
    suffixes_reads reads _ _ (by simp only [Reference.erased, same])

theorem references_reads : Reads calm (references parts) (List.map Reference.erased)
    (fun targets => listed (targets.map Reference.written)) :=
  .commaSeparated (reference_eager reads.eager).orderly (reference_reads reads)

/-! ### Primary expressions -/

theorem typeMember_reads : Reads calm (typeMember parts) Expr.erased Expr.written := by
  refine .bind (baseType_reads reads.typeName) fun type _ same => ?_
  refine .bind (.symbolLooking _) fun _ _ _ => ?_
  exact .bind .identifier fun _ _ sameMember => .pure (by simp)
    (by simp only [Expr.erased, same, sameMember])

theorem arrayLiteral_reads : Reads calm (arrayLiteral parts) Expr.erased Expr.written := by
  refine .bind (.symbolLooking _) fun _ _ _ => ?_
  refine .bind (.closedList rfl (anyExpr_eager reads.eager).orderly (anyExpr_reads reads))
    fun found _ same => .pure ?_ ?_
  · simp [Expr.writtens_eq_map, inBrackets]
  · simp only [Expr.erased, Expr.allErased_eq_map, same]

omit reads in
theorem nameKey_reads : Reads calm nameKey Expr.erased Expr.written :=
  .bind .identifier fun _ _ same => .pure rfl
    (by simp only [Expr.erased, Reference.erased, NameReference.erased, Option.map, same])

theorem mapKey_reads : Reads calm (mapKey parts) Expr.erased Expr.written :=
  .ofPair rfl nameKey_reads (anyExpr_reads reads)

theorem mapEntry_reads : Reads calm (mapEntry parts) MapEntry.erased MapEntry.written := by
  refine .bind (mapKey_reads reads) fun key _ same => .bind (.symbolLooking _) fun _ _ _ => ?_
  exact .bind (anyExpr_reads reads) fun value _ sameValue => .pure (by simp)
    (by simp only [MapEntry.erased, same, sameValue])

theorem mapLiteral_reads : Reads calm (mapLiteral parts) Expr.erased Expr.written :=
  .bind (.symbol _ rfl) fun _ _ _ =>
    .bind (.closedList rfl (mapEntry_orderly reads.eager) (mapEntry_reads reads))
      fun found _ same => .pure (by simp [MapEntry.writtens_eq_map, inBraces])
        (by simp only [Expr.erased, MapEntry.allErased_eq_map, same])

theorem named_reads : Reads calm (named parts) Expr.erased Expr.written := by
  refine .bind nameReference_reads fun name _ same => .ofCheck (by simp) ?_ ?_
  · exact .bind (arguments_reads reads) fun found _ sameArguments => .pure
      (by simp [Expr.writtens_eq_map])
      (by simp only [Expr.erased, Expr.allErased_eq_map, same, sameArguments])
  · refine .mapped (suffixes_reads reads _ _ ?_) (fun _ => rfl) fun _ _ same => ?_
    · simp only [Reference.erased, same]
    · simp only [Expr.erased, same]

omit reads in
theorem plainLiteral_reads : Reads calm plainLiteral Expr.erased Expr.written :=
  literalToken_reads (fun _ _ => rfl) fun _ _ _ => rfl

omit reads in
theorem template_reads : Reads calm template Expr.erased Expr.written :=
  .bind (.text (by simp) rfl fun _ => rfl) fun _ _ same => .pure rfl
    (by simp only [Expr.erased, same])

theorem primary_reads : Reads calm (primary parts) Expr.erased Expr.written := by
  refine .bind .peek fun token other same => ?_
  rw [same]
  split
  case h_1 | h_2 | h_3 | h_4 | h_5 => exact plainLiteral_reads
  · exact template_reads
  · exact arrayLiteral_reads reads
  · exact mapLiteral_reads reads
  · exact named_reads reads
  · exact .fail _
  · exact .ite (fun _ => typeMember_reads reads) fun _ => .failAt _

/-! ### Forms with an operator in front -/

theorem castForm_reads : Reads calm (castForm parts) Expr.erased Expr.written := by
  refine .bind (.symbol _ rfl) fun _ _ _ => .bind reads.typeName fun target _ same => ?_
  refine .bind (.symbol _ rfl) fun _ _ _ => .bind (reads.expr _) fun operand _ sameOperand => ?_
  exact .pure (by simp [inParens]) (by simp only [Expr.erased, same, sameOperand])

theorem convertForm_reads : Reads calm (convertForm parts) Expr.erased Expr.written := by
  refine .bind (.symbol _ rfl) fun _ _ _ => .bind reads.typeName fun target _ same => ?_
  refine .bind (.symbol _ rfl) fun _ _ _ => .bind (reads.expr _) fun operand _ sameOperand => ?_
  exact .pure (by simp [inAngles]) (by simp only [Expr.erased, same, sameOperand])

theorem parenForm_reads : Reads calm (parenForm parts) Expr.erased Expr.written := by
  refine .bind (.symbol _ rfl) fun _ _ _ => .bind (anyExpr_reads reads) fun inner _ same => ?_
  exact .bind (.symbol _ rfl) fun _ _ _ => .pure (by simp [inParens])
    (by simp only [Expr.erased, same])

omit reads [Calm calm] in
/-- A minus sign is seen in front of a number again. -/
theorem startsNegativeLiteral_again {parser other : Parser}
    (agree : Agree parser.cursor.kinds other.cursor.kinds) :
    (other.cursor.peek.kind == .symbol .minus && (other.cursor.peekNth 1).kind.isNumber) =
      (parser.cursor.peek.kind == .symbol .minus &&
        (parser.cursor.peekNth 1).kind.isNumber) := by
  rw [kind_peek_of_head? agree.1]
  by_cases here : parser.cursor.peek.kind = .symbol .minus
  · rw [Rereads.looksAlike rfl agree here]
  · rw [beq_eq_false_iff_ne.mpr here, Bool.false_and, Bool.false_and]

omit reads in
theorem negativeLiteral_reads : Reads calm negativeLiteral Literal.erased Literal.written :=
  .bind (.symbolLooking _) fun _ _ _ => literalToken_reads (fun _ _ => rfl) fun _ _ _ => rfl

theorem unaryForm_reads (operator : UnaryOperator) :
    Reads calm (unaryForm parts operator) Expr.erased Expr.written := by
  have sign : Rereads calm True Agree (fun _ => Agree) [] (expectSymbol operator.symbol)
      (expectSymbol operator.symbol) Token.word (fun _ => [.symbol operator.symbol]) :=
    .symbolLooking _
  exact sign.bind fun _ _ _ => .bind (reads.expr _) fun operand _ same => .pure
    (by simp) (by simp only [Expr.erased, same])

omit reads [Calm calm] in
/-- Both forms in parentheses are written with their closing one. -/
theorem closing_of_castOrParen {parser later : Parser} {value : Expr}
    (ran : castOrParen parts parser = .ok value later) :
    .symbol .rightParen ∈ value.written.map Word.kind := by
  rw [castOrParen, look_bind (isCast_eq parser)] at ran
  split at ran
  · obtain ⟨_, _, -, ran⟩ := bind_ok ran
    obtain ⟨_, _, -, ran⟩ := bind_ok ran
    obtain ⟨_, _, -, ran⟩ := bind_ok ran
    obtain ⟨_, _, -, ran⟩ := bind_ok ran
    cases ran
    simp [inParens, Word.symbol]
  · obtain ⟨_, _, -, ran⟩ := bind_ok ran
    obtain ⟨_, _, -, ran⟩ := bind_ok ran
    obtain ⟨_, _, -, ran⟩ := bind_ok ran
    cases ran
    simp [inParens, Word.symbol]

theorem castOrParen_reads : Reads calm (castOrParen parts) Expr.erased Expr.written := by
  refine .choose
    (fun parser => startsCast (parser.options.maxDepth + 1) parser.cursor.kinds)
    (fun parser => look_bind (isCast_eq parser)) (fun parser => look_bind (isCast_eq parser))
    ?_ (castForm_reads reads) (parenForm_reads reads)
  intro parser value later added other rest ran whole passed ahead quiet calmOther follows _
  have closing := closing_of_castOrParen ran
  rw [whole, List.nil_append] at closing
  rw [Calm.sameOptions other parser calmOther quiet, other.kinds_eq, ahead, List.map_append,
    parser.kinds_eq, passed trivial, List.map_append, ← later.kinds_eq]
  exact startsCast_shared _ closing follows.1.symm

theorem operand_reads : Reads calm (operand parts) Expr.erased Expr.written := by
  refine .choose (fun parser => parser.cursor.peek.kind == .symbol .minus &&
      (parser.cursor.peekNth 1).kind.isNumber)
    (fun parser => look_bind (startsNegativeLiteral_eq parser))
    (fun parser => look_bind (startsNegativeLiteral_eq parser)) ?_ ?_ ?_
  · intro parser value later added other rest _ _ _ _ _ _ _ agree
    exact startsNegativeLiteral_again agree
  · exact .mapped negativeLiteral_reads (fun _ => rfl) fun _ _ same => by
      simp only [Expr.erased, same]
  · refine .bind .current fun kind _ same => ?_
    cases same
    split
    · exact unaryForm_reads reads _
    · split
      · exact convertForm_reads reads
      · exact castOrParen_reads reads
      · exact primary_reads reads

/-! ### Binary operators -/

theorem binaryForm_reads (operator : BinaryOperator) {left other : Expr}
    (same : other.erased = left.erased) :
    Rereads calm True Agree (fun _ => Agree) left.written (binaryForm parts operator left)
      (binaryForm parts operator other) Expr.erased Expr.written := by
  have sign : Rereads calm True Agree (fun _ => Agree) [] (expectSymbol operator.symbol)
      (expectSymbol operator.symbol) Token.word (fun _ => [.symbol operator.symbol]) :=
    .symbolLooking _
  exact sign.bind fun _ _ _ => .bind (reads.expr _) fun right _ sameRight => .pure
    (by simp) (by simp only [Expr.erased, same, sameRight])

theorem extend_reads (power : Nat) (left other : Expr) (same : other.erased = left.erased) :
    Rereads calm True Agree (Rereads.behindTurn Agree Agree) left.written
      (extend parts power left) (extend parts power other) (Rereads.decided Expr.erased)
      (Rereads.soFar Expr.written Expr.written) := by
  refine .bind .current fun kind _ sameKind => ?_
  cases sameKind
  rw [List.append_nil]
  split
  · exact .done rfl same
  · exact .ite (fun _ => .done rfl same) fun _ => .yielded (binaryForm_reads reads _ same)

theorem operation_reads (power : Nat) :
    Reads calm (operation parts power) Expr.erased Expr.written :=
  .bind (operand_reads reads) fun left other same =>
    .loop (advancing_of_turn (extend_turn reads.eager power)) (extend_reads reads power) left
      other same

omit reads in
theorem within_areReread (room : Nat) : (ExprParts.within room).AreReread calm := by
  refine ⟨within_areEager room, typeName_reads room, ?_⟩
  induction room with
  | zero => exact fun _ => .tooDeep
  | succ room ih =>
      exact operation_reads ⟨within_areEager room, typeName_reads room, ih⟩

omit reads in
theorem expr_reads (room power : Nat) : Reads calm (expr room power) Expr.erased Expr.written :=
  (within_areReread room).expr power

/-! ### Initializers -/

theorem creation_reads : Reads calm (creation parts) Expr.erased Expr.written := by
  refine .bind (.keyword _ (by simp)) fun _ _ _ => .bind nameReference_reads fun connector _ same => ?_
  exact .bind (arguments_reads reads) fun found _ sameArguments => .pure
    (by simp [Expr.writtens_eq_map])
    (by simp only [Expr.erased, Expr.allErased_eq_map, same, sameArguments])

/-- What is kept of an invocation: all but its span. -/
theorem invocation_reads : Reads calm (invocation parts)
    (fun found => (found.1.erased, found.2.1.erased, found.2.2.1.map Expr.erased))
    (fun found => found.1.written ++ .symbol .dot :: .name found.2.1 ::
      inParens (listed (found.2.2.1.map Expr.written))) := by
  refine .bind nameReference_reads fun connector _ same => .bind (.symbolLooking _) fun _ _ _ => ?_
  refine .bind .identifier fun action _ sameAction => ?_
  exact .bind (arguments_reads reads) fun found _ sameArguments => .pure (by simp)
    (by simp only [same, sameAction, sameArguments])

theorem invocationForm_reads : Reads calm (invocationForm parts) Expr.erased Expr.written := by
  refine .bind (invocation_reads reads) fun found other same => .pure ?_ ?_
  · simp [Expr.writtens_eq_map]
  · simp only [Prod.mk.injEq] at same
    simp only [Expr.erased, Expr.allErased_eq_map, same]

/-- An initializer ends at a semicolon, so looking for an invocation does not go
beyond. -/
theorem initializer_reads : Rereads calm True Agree (fun _ => BothStart (.symbol .semicolon)) []
    (initializer parts) (initializer parts) Expr.erased Expr.written := by
  have ended (left right : List Kind) (both : BothStart (.symbol .semicolon) left right) :
      Agree left right :=
    .of_bothStart rfl both
  refine .ofCheck (by simp) ((creation_reads reads).strengthenBehind fun _ => ended) ?_
  refine .choose (fun parser => startsInvocation parser.cursor.kinds)
    (fun parser => look_bind (isInvocation_eq parser))
    (fun parser => look_bind (isInvocation_eq parser)) ?_
    ((invocationForm_reads reads).strengthenBehind fun _ => ended)
    ((anyExpr_reads reads).strengthenBehind fun _ => ended)
  intro parser value later added other rest _ _ passed ahead _ _ follows _
  obtain ⟨left, leftIs⟩ := List.head?_eq_some_iff.mp follows.1
  obtain ⟨right, rightIs⟩ := List.head?_eq_some_iff.mp follows.2
  rw [other.kinds_eq, ahead, List.map_append, rightIs, parser.kinds_eq, passed trivial,
    List.map_append, ← later.kinds_eq, leftIs, List.append_cons, List.append_cons _ _ left]
  exact startsInvocation_shared (.inl rfl) (by simp) right left

end Parts

end ServiceLang.Grammar
