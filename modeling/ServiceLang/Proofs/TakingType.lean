import ServiceLang.Grammar.TypeName
import ServiceLang.Proofs.OrderlyExpr
import ServiceLang.Proofs.Taking
import ServiceLang.Tree.Depth
import ServiceLang.Tree.Erased
import ServiceLang.Tree.Writable

set_option autoImplicit false

/-! The rules for names and types take what is written of a name or type, and looking
ahead passes over just that. -/

namespace ServiceLang

open Word (inParens inBraces inBrackets inAngles)

theorem TypeName.depth_lt_nodes (type : TypeName) : type.depth < type.nodes := by
  induction type with
  | mapOf constraint span ih => exact Nat.succ_lt_succ ih
  | array element span ih => exact Nat.lt_succ_of_lt ih
  | _ => exact Nat.zero_lt_one

/-! ### What may stand behind -/

def EndsName (kinds : List Kind) : Prop :=
  Kind.next kinds ≠ .symbol .colon

def EndsBase (kinds : List Kind) : Prop :=
  Kind.next kinds ≠ .symbol .colon ∧ Kind.next kinds ≠ .symbol .less

def EndsType (kinds : List Kind) : Prop :=
  EndsBase kinds ∧ Kind.next kinds ≠ .symbol .leftBracket

theorem EndsType.of_symbol {sign : Symbol} (closes : sign ∈ [.rightParen, .greater, .dot])
    (rest : List Kind) : EndsType (.symbol sign :: rest) := by
  simp only [List.mem_cons, List.not_mem_nil, or_false] at closes
  rcases closes with rfl | rfl | rfl <;> simp [EndsType, EndsBase, Kind.next]

namespace Grammar

open Step

variable {options : Options} {behind : List Kind → Prop}

abbrev Takes (options : Options) {α ε : Type} (rule : Step α) (written : α → List Word)
    (erased : α → ε) (value : α) (behind : List Kind → Prop) : Prop :=
  Step.Takes options rule (written value) (fun found => erased found = erased value) behind

theorem identifier_takes (name : Identifier) :
    Step.Takes options expectIdentifier [.name name] (fun found => found.erased = name.erased)
      behind :=
  (Takes.identifier name).weaken (fun found same => by rw [Identifier.erased, same]; rfl)
    fun _ follows => follows

theorem nameReference_takes (name : NameReference) :
    Takes options nameReference NameReference.written NameReference.erased name EndsName := by
  obtain ⟨package, last⟩ := name
  cases package with
  | some package =>
      refine .andThen (identifier_takes package) rfl fun first same => ?_
      refine .pair true (fun _ _ => rfl) (.andThen (.symbol .colon) rfl fun _ _ => ?_)
      refine .map (identifier_takes last) fun name sameName => ?_
      simp only [NameReference.erased, Option.map, same, sameName]
  | none =>
      refine .bind (identifier_takes last) rfl (fun _ ends => ends) fun first same => ?_
      refine .pair false (fun rest ends => ?_) (.pure ?_)
      · rw [List.map_nil, List.nil_append, beq_eq_false_iff_ne.mpr ends, Bool.false_and]
      · simp only [NameReference.erased, Option.map, same]

/-- A token that is known by its text. -/
theorem text_takes {kind : Kind} {text : String}
    (free : ∀ lexeme, Word.normal ⟨kind, lexeme⟩ = ⟨kind, lexeme⟩) :
    Step.Takes options (expect kind) [⟨kind, text⟩] (fun token => token.lexeme = text) behind := by
  refine .token fun parser here => ?_
  have kindHere : parser.cursor.peek.kind = kind := Token.kind_of_word here
  rw [Token.word, kindHere, free] at here
  exact ⟨_, expect_of_kind kindHere, (Word.mk.inj here).2⟩

theorem bracedString_takes (text : String) :
    Takes options bracedString (fun text => inBraces [.string text]) id text behind := by
  refine .andThen (.symbol .leftBrace) rfl fun _ _ => ?_
  refine .andThen (text_takes fun _ => rfl) rfl fun token same => ?_
  exact .andThen (.symbol .rightBrace) rfl fun _ _ => .pure same

theorem uri_takes (uri : Option String) :
    Step.Takes options (ifAt (.symbol .leftBrace) bracedString)
      (Word.behind [] (fun uri => inBraces [.string uri]) uri) (fun found => found = uri)
      (fun kinds => Kind.next kinds = .identifier) := by
  cases uri with
  | none =>
      refine .ifAt_of_other rfl fun rest sees brace => ?_
      rw [sees] at brace
      cases brace
  | some uri =>
      refine .ifAt_of_next (fun _ _ => rfl) ?_
      exact (bracedString_takes uri).weaken (fun _ same => congrArg some same) fun _ sees => sees

theorem xmlConstraintBehind_takes (constraint : XmlConstraint) (start : Token) :
    Step.Takes options (xmlConstraintBehind start)
      (Word.behind [] (fun uri => inBraces [.string uri]) constraint.uri ++
        [.name constraint.element, .symbol .greater])
      (fun found => found.erased = constraint.erased) behind := by
  refine .bind (uri_takes constraint.uri) rfl (fun _ _ => rfl) fun uri sameUri => ?_
  refine .andThen (identifier_takes constraint.element) rfl fun element same => ?_
  refine .map (.symbol .greater) fun _ _ => ?_
  simp only [XmlConstraint.erased, sameUri, same]

theorem xmlConstraint_takes (constraint : Option XmlConstraint) :
    Takes options xmlConstraint (Word.behind [] XmlConstraint.written)
      (Option.map XmlConstraint.erased) constraint EndsBase := by
  cases constraint with
  | none =>
      refine .bind (.eat?_of_next fun _ ends => ends.2) rfl (fun _ ends => ends) fun found none => ?_
      rw [none]
      exact .pure rfl
  | some constraint =>
      have split : Word.behind [] XmlConstraint.written (some constraint) =
          [.symbol .less] ++ (Word.behind [] (fun uri => inBraces [.string uri]) constraint.uri ++
            [.name constraint.element, .symbol .greater]) := by
        simp [Word.behind, XmlConstraint.written, inAngles]
      refine .andThen (.eat?_of_word rfl) split fun found isSome => ?_
      obtain ⟨start, rfl⟩ := Option.isSome_iff_exists.mp isSome
      exact .map (xmlConstraintBehind_takes constraint start) fun _ same => congrArg some same

theorem schemaReference_takes (schema : Option SchemaReference) :
    Takes options schemaReference (Word.behind [] SchemaReference.written)
      (Option.map SchemaReference.erased) schema EndsBase := by
  cases schema with
  | none =>
      refine .bind (.eat?_of_next fun _ ends => ends.2) rfl (fun _ ends => ends) fun found none => ?_
      rw [none]
      exact .pure rfl
  | some schema =>
      have split : Word.behind [] SchemaReference.written (some schema) =
          [.symbol .less] ++ (inBraces [.string schema.location] ++ [.symbol .greater]) := by
        simp [Word.behind, SchemaReference.written, inAngles]
      refine .andThen (.eat?_of_word rfl) split fun found isSome => ?_
      obtain ⟨start, rfl⟩ := Option.isSome_iff_exists.mp isSome
      refine .map ?_ fun _ same => congrArg some same
      refine .andThen (bracedString_takes schema.location) rfl fun location same => ?_
      refine .map (.symbol .greater) fun _ _ => ?_
      exact congrArg (SchemaReference.mk · .nowhere) same

/-! ### Types -/

theorem map_takes (inner : Step TypeName) (span : Span) :
    Takes options (mapType inner) TypeName.written TypeName.erased (.map span) EndsBase := by
  refine .bind (.expect rfl) rfl (fun _ ends => ends) fun word _ => ?_
  refine .bind (.eat_of_next fun _ ends => ends.2) rfl (fun _ ends => ends) fun found none => ?_
  rw [none]
  exact .spanned fun _ => rfl

theorem mapOf_takes {inner : Step TypeName} {constraint : TypeName} (span : Span)
    (takes : Takes options inner TypeName.written TypeName.erased constraint EndsType) :
    Takes options (mapType inner) TypeName.written TypeName.erased (.mapOf constraint span)
      behind := by
  refine .andThen (.expect rfl) rfl fun word _ => ?_
  refine .andThen (.eat_of_word rfl) rfl fun found less => ?_
  rw [less]
  refine .bind takes rfl (fun _ _ => .of_symbol (by decide) _) fun found same => ?_
  refine .andThen (.symbol .greater) rfl fun _ _ => .spanned fun _ => ?_
  simp only [TypeName.erased, same]

theorem constrainedType_takes {α ε : Type} {word : Keyword} {constraint : Step (Option α)}
    {make : Option α → Span → TypeName} {written : α → List Word} {erased : α → ε}
    {value : Option α} {span : Span}
    (takes : Takes options constraint (Word.behind [] written) (Option.map erased) value EndsBase)
    (whole : (make value span).written = .keyword word :: Word.behind [] written value)
    (same : ∀ other otherSpan, other.map erased = value.map erased →
      (make other otherSpan).erased = (make value span).erased) :
    Takes options (constrainedType word constraint make) TypeName.written TypeName.erased
      (make value span) EndsBase := by
  change Step.Takes options _ (make value span).written _ _
  rw [whole]
  refine .andThen (.expect rfl) rfl fun _ _ => ?_
  refine .bind takes (List.append_nil _).symm (fun _ ends => ends) fun found sameFound => ?_
  exact .spanned fun otherSpan => same found otherSpan sameFound

theorem kind_next_name (name : NameReference) (rest : List Kind) :
    Kind.next (name.written.map Word.kind ++ rest) = .identifier := by
  obtain ⟨package, last⟩ := name
  cases package <;> rfl

theorem named_takes (name : NameReference) (span : Span) :
    Takes options namedType TypeName.written TypeName.erased (.named name span) EndsName := by
  refine .peek .identifier (fun rest _ => kind_next_name name rest) fun first _ => ?_
  · refine .bind (nameReference_takes name) (List.append_nil _).symm (fun _ ends => ends) ?_
    intro reference same
    refine .spanned fun _ => ?_
    simp only [TypeName.erased, same]

theorem simpleType_takes {type : TypeName} {word : Word} (written : type.written = [word])
    (simple : ∀ token : Token, token.kind = word.kind →
      ∃ found, simpleType? token.span token.kind = some found ∧ found.erased = type.erased) :
    Takes options simpleType TypeName.written TypeName.erased type behind := by
  change Step.Takes options simpleType type.written _ behind
  rw [written]
  refine .token fun parser here => ?_
  obtain ⟨found, isSimple, same⟩ := simple _ (Token.kind_of_word here)
  refine ⟨found, ?_, same⟩
  rw [simpleType, look_bind (peek_eq parser)]
  simp only [isSimple]
  exact bind_of_ok (advance_eq parser)

theorem baseType_takes {inner : Step TypeName} {type : TypeName} (notArray : type.isArray = false)
    (takes : ∀ constraint span, type = .mapOf constraint span →
      Takes options inner TypeName.written TypeName.erased constraint EndsType) :
    Takes options (baseType inner) TypeName.written TypeName.erased type EndsBase := by
  have word {type : TypeName} (found : Span → TypeName) {reserved : Keyword}
      (written : type.written = [.keyword reserved])
      (simple : ∀ span, simpleType? span (.keyword reserved) = some (found span))
      (same : ∀ span, (found span).erased = type.erased) :
      Takes options simpleType TypeName.written TypeName.erased type EndsBase := by
    refine simpleType_takes written fun token here => ?_
    rw [here]
    exact ⟨_, simple _, same _⟩
  cases type with
  | any span => exact .current _ (fun _ _ => rfl) (word .any rfl (fun _ => rfl) fun _ => rfl)
  | value type span =>
      cases type <;>
        exact .current _ (fun _ _ => rfl) (word (.value _) rfl (fun _ => rfl) fun _ => rfl)
  | message span => exact .current _ (fun _ _ => rfl) (word .message rfl (fun _ => rfl) fun _ => rfl)
  | datatable span =>
      exact .current _ (fun _ _ => rfl) (word .datatable rfl (fun _ => rfl) fun _ => rfl)
  | map span => exact .current _ (fun _ _ => rfl) (map_takes inner span)
  | mapOf constraint span =>
      exact .current _ (fun _ _ => rfl) (mapOf_takes span (takes constraint span rfl))
  | xml constraint span =>
      refine .current _ (fun _ _ => rfl) (constrainedType_takes (xmlConstraint_takes constraint) rfl ?_)
      intro other otherSpan same
      simp only [TypeName.erased, same]
  | xmlDocument constraint span =>
      refine .current _ (fun _ _ => rfl) (constrainedType_takes (xmlConstraint_takes constraint) rfl ?_)
      intro other otherSpan same
      simp only [TypeName.erased, same]
  | json schema span =>
      refine .current _ (fun _ _ => rfl) (constrainedType_takes (schemaReference_takes schema) rfl ?_)
      intro other otherSpan same
      simp only [TypeName.erased, same]
  | named name span =>
      refine .current .identifier (fun rest _ => kind_next_name name rest) ?_
      exact (named_takes name span).weaken (fun _ same => same) fun _ ends => ends.1
  | array element span => cases notArray

/-- A type, and the loop over its brackets behind it. -/
theorem typeName_reaches {inner : Step TypeName} {type : TypeName}
    (takes : ∀ constraint span, type.base = .mapOf constraint span →
      Takes options inner TypeName.written TypeName.erased constraint EndsType) :
    Reaches options (do dimensions (← baseType inner)) dimension type.written
      (fun found => found.erased = type.erased) EndsBase := by
  induction type with
  | array element span ih =>
      refine .go (ih takes) (advancing_of_turn dimension_turn) rfl (fun _ _ => ?_) ?_
      · simp [EndsBase, Kind.next, Word.symbol]
      · intro found same
        refine .pair true (fun _ _ => rfl) (.andThen (.symbol .leftBracket) rfl fun _ _ => ?_)
        refine .map (.symbol .rightBracket) fun _ _ => ?_
        change TypeName.erased (.array found _) = _
        simp only [TypeName.erased, same]
  | _ => exact .of_takes (baseType_takes rfl takes)

/-- The constraint of a map type nests one level less. -/
theorem depth_lt_of_base {type constraint : TypeName} {span : Span}
    (isMap : type.base = .mapOf constraint span) : constraint.depth < type.depth := by
  induction type with
  | mapOf inner innerSpan =>
      cases isMap
      exact Nat.lt_succ_self _
  | array element _ ih => exact ih isMap
  | _ => cases isMap

/-- A type with room for the constraints in it; brackets need none. -/
theorem typeName_takes {room : Nat} (type : TypeName) (shallow : type.depth < room) :
    Takes options (typeName room) TypeName.written TypeName.erased type EndsType := by
  induction room generalizing type with
  | zero => exact absurd shallow (Nat.not_lt_zero _)
  | succ room ih =>
      have reaches : Reaches options (typeName (room + 1)) dimension type.written
          (fun found => found.erased = type.erased) EndsBase :=
        typeName_reaches fun constraint span isMap =>
          ih constraint (by have nests := depth_lt_of_base isMap; omega)
      refine reaches.stop (List.append_nil _).symm (fun _ ends => ends.1) fun found same => ?_
      refine .pair false (fun rest ends => ?_) (.pure same)
      rw [List.map_nil, List.nil_append, beq_eq_false_iff_ne.mpr ends.2, Bool.false_and]

end Grammar

/-! ### Passing over -/

theorem skipDimensions_of_next {kinds : List Kind}
    (other : Kind.next kinds ≠ .symbol .leftBracket) : skipDimensions kinds = kinds := by
  unfold skipDimensions
  split
  · exact absurd rfl other
  · rfl

theorem skipBase?_name (inner : List Kind → Option (List Kind)) (name : NameReference)
    {rest : List Kind} (ends : EndsName rest) :
    skipBase? inner (name.written.map Word.kind ++ rest) = some rest := by
  obtain ⟨package, last⟩ := name
  cases package with
  | some package => rfl
  | none =>
      change skipBase? inner (.identifier :: rest) = some rest
      unfold skipBase?
      split <;> rename_i same <;> cases same
      · exact absurd rfl ends
      · rfl

/-- A word that may have a constraint, without one. -/
theorem skipBase?_word (inner : List Kind → Option (List Kind)) {word : Keyword}
    (starts : (Kind.keyword word).startsType = true) {rest : List Kind} (ends : EndsBase rest) :
    skipBase? inner (.keyword word :: rest) = some rest := by
  unfold skipBase?
  split <;> rename_i same <;> cases same
  all_goals first | exact absurd rfl ends.2 | exact if_pos starts

theorem skipElement?_written (constraint : XmlConstraint) (rest : List Kind) :
    skipElement? ((constraint.written.map Word.kind).tail ++ rest) = some rest := by
  obtain ⟨uri, element, span⟩ := constraint
  cases uri <;> rfl

/-- Looking ahead passes over what is written of a type, up to its brackets. -/
theorem skipType?_written {room : Nat} (type : TypeName) (small : type.nodes ≤ room)
    {rest : List Kind} (ends : EndsBase rest) :
    skipType? room (type.written.map Word.kind ++ rest) = some (skipDimensions rest) := by
  induction room generalizing type rest with
  | zero => exact absurd small (by cases type <;> simp [TypeName.nodes])
  | succ room ih =>
      induction type generalizing rest with
      | any span => rfl
      | value type span => cases type <;> rfl
      | message span => rfl
      | datatable span => rfl
      | map span => exact congrArg (Option.map _) (skipBase?_word _ rfl ends)
      | mapOf constraint span =>
          have closes : EndsBase (.symbol .greater :: rest) :=
            (EndsType.of_symbol (by decide) rest).1
          have inside := ih constraint (Nat.le_of_succ_le_succ small) closes
          have split : (TypeName.mapOf constraint span).written.map Word.kind ++ rest =
              .keyword .mapKw :: .symbol .less ::
                (constraint.written.map Word.kind ++ .symbol .greater :: rest) := by
            simp [inAngles, Word.keyword, Word.symbol]
          rw [split, skipType?, skipBase?, inside]
          rfl
      | xml constraint span =>
          cases constraint with
          | none => exact congrArg (Option.map _) (skipBase?_word _ rfl ends)
          | some constraint =>
              exact congrArg (Option.map _) (skipElement?_written constraint rest)
      | xmlDocument constraint span =>
          cases constraint with
          | none => exact congrArg (Option.map _) (skipBase?_word _ rfl ends)
          | some constraint =>
              exact congrArg (Option.map _) (skipElement?_written constraint rest)
      | json schema span =>
          cases schema with
          | none => exact congrArg (Option.map _) (skipBase?_word _ rfl ends)
          | some schema => rfl
      | named name span => exact congrArg (Option.map _) (skipBase?_name _ name ends.1)
      | array element span inner =>
          have opens : EndsBase (.symbol .leftBracket :: .symbol .rightBracket :: rest) := by
            simp [EndsBase, Kind.next]
          have inside := inner (Nat.le_of_succ_le small) opens
          rw [TypeName.written, List.map_append, List.append_assoc]
          exact inside

end ServiceLang
