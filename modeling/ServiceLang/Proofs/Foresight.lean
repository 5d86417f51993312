import ServiceLang.Grammar.Stmt
import ServiceLang.Proofs.Looking
import ServiceLang.Proofs.Words

set_option autoImplicit false

/-! Looking ahead passes over a type name just where the rule for type names reads one.
The two know different limits on nesting, so the rule may still fail where looking ahead
has seen a type, but for no other reason. -/

namespace ServiceLang

namespace Step

variable {α β : Type} {parser : Parser}

/-- The kinds that are left where a step stops are the ones that have been foreseen. If
none have, it fails; else it can fail by nesting too deep only. -/
def Foreseen (seen : Option (List Kind)) (step : Step α) (parser : Parser) : Prop :=
  match step parser with
  | .ok _ later => seen = some later.cursor.kinds
  | .error diagnostic _ => diagnostic.problem = .nestingTooDeep ∨ seen = none

/-- Nesting too deep is what a step fails by. -/
def FailsTooDeep (step : Step α) (parser : Parser) : Prop :=
  ∃ diagnostic later, step parser = .error diagnostic later ∧ diagnostic.problem = .nestingTooDeep

theorem head_kinds (kind : Kind) (notEnd : kind ≠ .endOfFile) :
    parser.cursor.kinds.head? = some kind ↔ parser.cursor.peek.kind = kind := by
  constructor
  · intro head
    rw [Cursor.kind_peek, head, Option.getD_some]
  · intro here
    rw [kinds_of_peek here notEnd, List.head?_cons]

namespace Foreseen

theorem iff_of_ok {seen : Option (List Kind)} {step : Step α} {later : Parser} {value : α}
    (ran : step parser = .ok value later) :
    Foreseen seen step parser ↔ seen = some later.cursor.kinds := by
  rw [Foreseen, ran]

theorem iff_of_error {seen : Option (List Kind)} {step : Step α} {later : Parser}
    {diagnostic : Diagnostic} (failed : step parser = .error diagnostic later) :
    Foreseen seen step parser ↔ diagnostic.problem = .nestingTooDeep ∨ seen = none := by
  rw [Foreseen, failed]

theorem pure (value : α) : Foreseen (some parser.cursor.kinds) (Pure.pure value) parser :=
  rfl

theorem fails {step : Step α} (never : ∀ value later, step parser ≠ .ok value later) :
    Foreseen none step parser := by
  cases ran : step parser with
  | ok value later => exact absurd ran (never value later)
  | error diagnostic later => exact (iff_of_error ran).mpr (.inr rfl)

theorem bind {seen : Option (List Kind)} {skip? : List Kind → Option (List Kind)}
    {first : Step α} {next : α → Step β} (sees : Foreseen seen first parser)
    (behind : ∀ value later, Foreseen (skip? later.cursor.kinds) (next value) later) :
    Foreseen (seen.bind skip?) (first >>= next) parser := by
  cases ran : first parser with
  | ok value later =>
      rw [(iff_of_ok ran).mp sees, Option.bind_some, Foreseen, bind_of_ok ran]
      exact behind value later
  | error diagnostic later =>
      refine (iff_of_error (bind_of_error ran)).mpr (((iff_of_error ran).mp sees).imp_right ?_)
      intro nothing
      rw [nothing, Option.bind_none]

theorem behind {seen : Option (List Kind)} {first : Step α} {next : α → Step β}
    (sees : Foreseen seen first parser)
    (stays : ∀ value later, Foreseen (some later.cursor.kinds) (next value) later) :
    Foreseen seen (first >>= next) parser := by
  have whole := sees.bind stays
  rwa [Option.bind_fun_some] at whole

theorem look {seen : Option (List Kind)} {look : Step α} {next : α → Step β} {value : α}
    (looks : look parser = .ok value parser) (sees : Foreseen seen (next value) parser) :
    Foreseen seen (look >>= next) parser := by
  rwa [Foreseen, look_bind looks]

theorem after {seen : Option (List Kind)} {first : Step α} {next : α → Step β} {value : α}
    {later : Parser} (ran : first parser = .ok value later)
    (sees : Foreseen seen (next value) later) : Foreseen seen (first >>= next) parser := by
  rwa [Foreseen, bind_of_ok ran]

theorem expect (kind : Kind) (notEnd : kind ≠ .endOfFile) :
    Foreseen (skipKind? kind parser.cursor.kinds) (Step.expect kind) parser := by
  by_cases here : parser.cursor.peek.kind = kind
  · exact (iff_of_ok (expect_of_kind here)).mpr (skipKind?_eq_some.mpr (kinds_of_peek here notEnd))
  · exact (iff_of_error (expect_of_other here)).mpr (.inr (skipKind?_of_other here))

theorem identifier : Foreseen (skipKind? .identifier parser.cursor.kinds) expectIdentifier parser := by
  by_cases here : parser.cursor.peek.kind = .identifier
  · exact (iff_of_ok (expectIdentifier_of_kind here)).mpr
      (skipKind?_eq_some.mpr (kinds_of_peek here nofun))
  · rw [skipKind?_of_other here]
    exact fails fun name later ran => here (expectIdentifier_ok ran).1

end Foreseen

end Step

namespace Grammar

open Step

variable {parser : Parser}

/-! ### Constraints -/

theorem bracedString_foreseen :
    Foreseen (skipBraced? parser.cursor.kinds) bracedString parser := by
  rw [skipBraced?, Option.bind_assoc]
  refine (Foreseen.expect (.symbol .leftBrace) (by decide)).bind fun _ _ => ?_
  refine (Foreseen.expect .string (by decide)).bind fun _ _ => ?_
  exact (Foreseen.expect (.symbol .rightBrace) (by decide)).behind fun _ _ => .pure _

theorem xmlConstraintBehind_foreseen (start : Token) :
    Foreseen (skipElement? parser.cursor.kinds) (xmlConstraintBehind start) parser := by
  rw [skipElement?_eq, Option.bind_assoc]
  have uri : Foreseen
      (if parser.cursor.kinds.head? = some (.symbol .leftBrace) then
        skipBraced? parser.cursor.kinds else some parser.cursor.kinds)
      (ifAt (.symbol .leftBrace) bracedString) parser := by
    refine .look (check_eq parser _) ?_
    by_cases here : parser.cursor.peek.kind = .symbol .leftBrace
    · rw [if_pos ((head_kinds (.symbol .leftBrace) nofun).mpr here), if_pos (by simpa using here)]
      exact bracedString_foreseen.behind fun _ _ => .pure _
    · rw [if_neg (mt (head_kinds (.symbol .leftBrace) nofun).mp here), if_neg (by simpa using here)]
      exact .pure _
  refine uri.bind fun _ _ => ?_
  refine Foreseen.identifier.bind fun _ _ => ?_
  exact (Foreseen.expect (.symbol .greater) nofun).behind fun _ _ => .pure _

theorem schemaBehind_foreseen (start : Token) :
    Foreseen (skipSchema? parser.cursor.kinds) (schemaBehind start) parser := by
  rw [skipSchema?_eq]
  refine bracedString_foreseen.bind fun _ _ => ?_
  exact (Foreseen.expect (.symbol .greater) nofun).behind fun _ _ => .pure _

theorem constraint_foreseen {α : Type} {skip? : List Kind → Option (List Kind)}
    {part : Token → Step α}
    (sees : ∀ start parser, Foreseen (skip? parser.cursor.kinds) (part start) parser) :
    Foreseen (skipConstraint? skip? parser.cursor.kinds)
      (do
        match ← eat? (.symbol .less) with
        | none => return none
        | some start => return some (← part start)) parser := by
  by_cases here : parser.cursor.peek.kind = .symbol .less
  · refine .after (eat?_of_kind here) ?_
    rw [kinds_of_peek here nofun]
    exact (sees _ _).behind fun _ _ => .pure _
  · refine .after (eat?_of_other here) ?_
    have other : skipConstraint? skip? parser.cursor.kinds = some parser.cursor.kinds := by
      unfold skipConstraint?
      split
      · rename_i rest ahead
        exact absurd (peek_of_kinds ahead).1 here
      · rfl
    rw [other]
    exact .pure _

theorem constrainedType_foreseen {α : Type} {inner skip? : List Kind → Option (List Kind)}
    {word : Keyword} {constraint : Step (Option α)} {make : Option α → Span → TypeName}
    (starts : (Kind.keyword word).startsType = true)
    (bound : ∀ rest, skipBase? inner (.keyword word :: .symbol .less :: rest) = skip? rest)
    (sees : ∀ parser, Foreseen (skipConstraint? skip? parser.cursor.kinds) constraint parser)
    (here : parser.cursor.peek.kind = .keyword word) :
    Foreseen (skipBase? inner parser.cursor.kinds) (constrainedType word constraint make)
      parser := by
  rw [kinds_of_peek here nofun, skipBase?_constrained starts bound]
  refine .after (expect_of_kind here) ?_
  refine (sees _).behind fun _ later => ?_
  exact .look (spanFrom_eq later _) (.pure _)

/-! ### Types -/

section BaseType

variable {inner : List Kind → Option (List Kind)} {rule : Step TypeName}

theorem mapType_foreseen
    (sees : ∀ parser, Foreseen (inner parser.cursor.kinds) rule parser)
    (here : parser.cursor.peek.kind = .keyword .mapKw) :
    Foreseen (skipBase? inner parser.cursor.kinds) (mapType rule) parser := by
  rw [kinds_of_peek here nofun, skipBase?_constrained rfl skipBase?_map]
  refine .after (expect_of_kind here) ?_
  by_cases less : parser.advance.cursor.peek.kind = .symbol .less
  · refine .after (eat_of_kind less) ?_
    rw [kinds_of_peek less nofun]
    refine (sees _).bind fun _ _ => ?_
    refine (Foreseen.expect (.symbol .greater) nofun).behind fun _ later => ?_
    exact .look (spanFrom_eq later _) (.pure _)
  · refine .after (eat_of_other less) ?_
    have bare (skip? : List Kind → Option (List Kind)) :
        skipConstraint? skip? parser.advance.cursor.kinds = some parser.advance.cursor.kinds := by
      unfold skipConstraint?
      split
      · rename_i ahead
        exact absurd (peek_of_kinds ahead).1 less
      · rfl
    rw [bare]
    exact .look (spanFrom_eq _ _) (.pure _)

theorem nameReference_of_kind (here : parser.cursor.peek.kind = .identifier) :
    ∃ name later, nameReference parser = .ok name later ∧
      skipName? parser.cursor.kinds = some later.cursor.kinds := by
  rw [nameReference, bind_of_ok (expectIdentifier_of_kind here), look_bind (check_eq _ _),
    look_bind (kindNth_eq _ 1), kinds_of_peek here nofun]
  by_cases qualified : parser.advance.cursor.peek.kind = .symbol .colon ∧
      (parser.advance.cursor.peekNth 1).kind = .identifier
  · obtain ⟨colon, second⟩ := qualified
    have name : parser.advance.advance.cursor.peek.kind = .identifier := by
      rw [← second, ← Cursor.peek_advance]
      rfl
    rw [if_pos (by simp [colon, second]), expectSymbol, bind_of_ok (expect_of_kind colon),
      bind_of_ok (expectIdentifier_of_kind name), kinds_of_peek colon nofun,
      kinds_of_peek name nofun]
    exact ⟨_, _, rfl, rfl⟩
  · rw [if_neg (by simpa using qualified)]
    refine ⟨_, _, rfl, ?_⟩
    unfold skipName?
    split <;> rename_i same
    · have behind := (List.cons.inj same).2
      refine absurd ⟨(peek_of_kinds behind).1, ?_⟩ qualified
      rw [Cursor.kind_peekNth, behind]
      rfl
    · exact congrArg some (List.cons.inj same).2.symm
    · exact absurd rfl (same _)

theorem namedType_foreseen (here : parser.cursor.peek.kind = .identifier) :
    Foreseen (skipBase? inner parser.cursor.kinds) namedType parser := by
  obtain ⟨name, later, ran, seen⟩ := nameReference_of_kind here
  refine .look (peek_eq parser) (.after ran (.look (spanFrom_eq later _) ?_))
  rw [kinds_of_peek here nofun, skipBase?_identifier, ← kinds_of_peek here nofun, seen]
  exact .pure _

theorem simpleType?_isSome (span : Span) {kind : Kind}
    (notWord : kind ∉
      [.keyword .mapKw, .keyword .xmlKw, .keyword .xmlDocumentKw, .keyword .jsonKw, .identifier]) :
    (simpleType? span kind).isSome = kind.startsType := by
  cases kind with
  | keyword word => cases word <;> first | rfl | exact absurd (by decide) notWord
  | identifier => exact absurd (by decide) notWord
  | _ => rfl

theorem simpleType_foreseen
    (notWord : parser.cursor.peek.kind ∉
      [.keyword .mapKw, .keyword .xmlKw, .keyword .xmlDocumentKw, .keyword .jsonKw, .identifier]) :
    Foreseen (skipBase? inner parser.cursor.kinds) simpleType parser := by
  have simple := simpleType?_isSome parser.cursor.peek.span notWord
  refine .look (peek_eq parser) ?_
  have skipped : skipBase? inner parser.cursor.kinds =
      if parser.cursor.peek.kind.startsType then some parser.cursor.kinds.tail else none := by
    cases ahead : parser.cursor.kinds with
    | nil =>
        rw [Cursor.kind_peek, ahead]
        rfl
    | cons kind rest =>
        rw [(peek_of_kinds ahead).1] at notWord ⊢
        exact skipBase?_simple rest notWord
  rw [skipped, ← simple]
  cases found : simpleType? parser.cursor.peek.span parser.cursor.peek.kind with
  | some type =>
      refine .after (advance_eq parser) ?_
      have passed : parser.cursor.kinds.tail = parser.advance.cursor.kinds :=
        parser.cursor.kinds_advance.symm
      rw [Option.isSome_some, if_pos rfl, passed]
      exact .pure _
  | none => exact .fails fun _ _ => failAt_ne_ok

theorem baseType_foreseen (sees : ∀ parser, Foreseen (inner parser.cursor.kinds) rule parser) :
    Foreseen (skipBase? inner parser.cursor.kinds) (baseType rule) parser := by
  refine .look (current_eq parser) ?_
  split
  · exact mapType_foreseen sees ‹_›
  · exact constrainedType_foreseen rfl (fun _ => rfl)
      (fun _ => constraint_foreseen fun _ _ => xmlConstraintBehind_foreseen _) ‹_›
  · exact constrainedType_foreseen rfl (fun _ => rfl)
      (fun _ => constraint_foreseen fun _ _ => xmlConstraintBehind_foreseen _) ‹_›
  · exact constrainedType_foreseen rfl (fun _ => rfl)
      (fun _ => constraint_foreseen fun _ _ => schemaBehind_foreseen _) ‹_›
  · exact namedType_foreseen ‹_›
  · refine simpleType_foreseen fun isWord => ?_
    simp only [List.mem_cons, List.not_mem_nil, or_false] at isWord
    rcases isWord with here | here | here | here | here <;> contradiction

end BaseType

theorem dimensions_foreseen (element : TypeName) (parser : Parser) :
    Foreseen (some (skipDimensions parser.cursor.kinds)) (dimensions element) parser := by
  by_cases brackets : parser.cursor.peek.kind = .symbol .leftBracket ∧
      (parser.cursor.peekNth 1).kind = .symbol .rightBracket
  · obtain ⟨opens, second⟩ := brackets
    have closes : parser.advance.cursor.peek.kind = .symbol .rightBracket := by
      rw [← second, ← Cursor.peek_advance]
      rfl
    have ran : dimension element parser =
        .ok (.yield (.array element (element.span.merge parser.advance.cursor.peek.span)))
          parser.advance.advance := by
      rw [dimension, look_bind (check_eq parser _), look_bind (kindNth_eq parser 1),
        if_pos (by simp [opens, second]), expectSymbol, bind_of_ok (expect_of_kind opens), expectSymbol,
        bind_of_ok (expect_of_kind closes), pure_eq]
    have shorter := parser.remaining_advance_advance (by rw [opens]; nofun)
    rw [kinds_of_peek opens nofun, kinds_of_peek closes nofun, skipDimensions, dimensions, Foreseen,
      loop_of_yield ran shorter]
    exact dimensions_foreseen _ _
  · have ran : dimension element parser = .ok (.done element) parser := by
      rw [dimension, look_bind (check_eq parser _), look_bind (kindNth_eq parser 1),
        if_neg (by simpa using brackets), pure_eq]
    exact (Foreseen.iff_of_ok (loop_of_done ran)).mpr
      (by rw [Parser.skipDimensions_of_other brackets])
termination_by parser.cursor.remaining

/-- What looking ahead passes over is a type name, as long as it knows no more levels of
nesting to be too many than the rule does. -/
theorem typeName_foreseen {room look : Nat} (within : room ≤ look) :
    Foreseen (skipType? look parser.cursor.kinds) (typeName room) parser := by
  induction room generalizing look parser with
  | zero =>
      have failed : typeName 0 parser = .error _ parser := rfl
      exact (Foreseen.iff_of_error failed).mpr (.inl rfl)
  | succ room ih =>
      cases look with
      | zero => exact absurd within (Nat.not_succ_le_zero room)
      | succ look =>
          have behind (element : TypeName) (later : Parser) :
              Foreseen ((some ∘ skipDimensions) later.cursor.kinds) (dimensions element) later :=
            dimensions_foreseen element later
          rw [skipType?, Option.map_eq_bind]
          exact (baseType_foreseen fun _ => ih (Nat.le_of_succ_le_succ within)).bind behind

/-! ### Shapes -/

/-- Where a type is seen it is read, unless it nests too deep. -/
theorem typeName_of_skipType? {room look : Nat} (within : room ≤ look) {left : List Kind}
    (seen : skipType? look parser.cursor.kinds = some left) :
    FailsTooDeep (typeName room) parser ∨
      ∃ type later, typeName room parser = .ok type later ∧ later.cursor.kinds = left := by
  have foreseen : Foreseen (some left) (typeName room) parser := by
    rw [← seen]
    exact typeName_foreseen within
  cases ran : typeName room parser with
  | ok type later =>
      exact .inr ⟨type, later, rfl, (Option.some.inj ((Foreseen.iff_of_ok ran).mp foreseen)).symm⟩
  | error diagnostic later =>
      exact .inl ⟨diagnostic, later, ran,
        ((Foreseen.iff_of_error ran).mp foreseen).resolve_right (by simp)⟩

theorem skipType?_of_typeName {room look : Nat} (within : room ≤ look) {type : TypeName}
    {later : Parser} (ran : typeName room parser = .ok type later) :
    skipType? look parser.cursor.kinds = some later.cursor.kinds :=
  (Foreseen.iff_of_ok ran).mp (typeName_foreseen within)

theorem startsVarDef_iff {look : Nat} {kinds : List Kind} :
    startsVarDef look kinds = true ↔ ∃ rest, skipType? look kinds = some (.identifier :: rest) := by
  constructor
  · intro starts
    unfold startsVarDef at starts
    split at starts
    · exact ⟨_, ‹_›⟩
    · cases starts
  · rintro ⟨rest, seen⟩
    rw [startsVarDef, seen]

/-- The type and the name of a variable stand here. -/
def ReadsVariable (room : Nat) (parser : Parser) : Prop :=
  ∃ type between name later, typeName room parser = .ok type between ∧
    expectIdentifier between = .ok name later

theorem variable_of_starts {room look : Nat} (within : room ≤ look)
    (starts : startsVarDef look parser.cursor.kinds = true) :
    FailsTooDeep (typeName room) parser ∨ ReadsVariable room parser := by
  obtain ⟨rest, seen⟩ := startsVarDef_iff.mp starts
  refine (typeName_of_skipType? within seen).imp_right ?_
  rintro ⟨type, between, ran, left⟩
  exact ⟨type, between, _, _, ran, expectIdentifier_of_kind (peek_of_kinds left).1⟩

theorem skipType?_of_startsCast {look : Nat} {kinds : List Kind}
    (starts : startsCast look kinds = true) :
    ∃ inside next rest, kinds = .symbol .leftParen :: inside ∧
      skipType? look inside = some (.symbol .rightParen :: next :: rest) := by
  unfold startsCast at starts
  split at starts
  · split at starts
    · exact ⟨_, _, _, rfl, ‹_›⟩
    · cases starts
  · cases starts

/-- The rule for casts gets past the target in parentheses, and has the operand left. -/
def ReadsTarget (room : Nat) (parser : Parser) : Prop :=
  ∃ sign first target second close third,
    expectSymbol .leftParen parser = .ok sign first ∧ typeName room first = .ok target second ∧
      expectSymbol .rightParen second = .ok close third ∧
      castForm (.within room) parser =
        (do
          let operand ← expr room UnaryOperator.power
          return Expr.cast target operand (sign.span.merge operand.span)) third

theorem target_of_starts {room look : Nat} (within : room ≤ look)
    (starts : startsCast look parser.cursor.kinds = true) :
    FailsTooDeep (castForm (.within room)) parser ∨ ReadsTarget room parser := by
  obtain ⟨inside, next, rest, ahead, seen⟩ := skipType?_of_startsCast starts
  obtain ⟨opens, rfl⟩ := peek_of_kinds ahead
  have ranOpen := expect_of_kind opens
  rcases typeName_of_skipType? within seen with ⟨diagnostic, later, failed, tooDeep⟩ |
    ⟨target, second, ranType, left⟩
  · refine .inl ⟨diagnostic, later, ?_, tooDeep⟩
    exact (bind_of_ok ranOpen).trans (bind_of_error failed)
  · have ranClose := expect_of_kind (peek_of_kinds left).1
    refine .inr ⟨_, _, target, second, _, _, ranOpen, ranType, ranClose, ?_⟩
    exact (bind_of_ok ranOpen).trans ((bind_of_ok ranType).trans (bind_of_ok ranClose))

/-- The rule for invocations gets past the opening parenthesis, and has the arguments
left. -/
def ReadsAction (parts : ExprParts) (parser : Parser) : Prop :=
  ∃ connector first dot second action third sign fourth,
    nameReference parser = .ok connector first ∧ expectSymbol .dot first = .ok dot second ∧
      expectIdentifier second = .ok action third ∧
      expectSymbol .leftParen third = .ok sign fourth ∧
      invocation parts parser =
        (do
          let (arguments, close) ← closedList .rightParen parts.anyExpr
          return (connector, action, arguments, connector.span.merge close.span)) fourth

theorem action_of_starts (parts : ExprParts)
    (starts : startsInvocation parser.cursor.kinds = true) : ReadsAction parts parser := by
  obtain ⟨rest, ahead⟩ := startsInvocation_iff.mp starts
  have isName : ∃ others, parser.cursor.kinds = .identifier :: others := by
    rcases ahead with ahead | ahead <;> exact ⟨_, ahead⟩
  obtain ⟨others, headName⟩ := isName
  obtain ⟨connector, first, ranName, seen⟩ := nameReference_of_kind (peek_of_kinds headName).1
  have left : first.cursor.kinds =
      .symbol .dot :: .identifier :: .symbol .leftParen :: rest := by
    rcases ahead with ahead | ahead <;>
      · rw [ahead] at seen
        exact (Option.some.inj seen).symm
  obtain ⟨dotHere, left⟩ := peek_of_kinds left
  obtain ⟨actionHere, left⟩ := peek_of_kinds left
  have ranDot := expect_of_kind dotHere
  have ranAction := expectIdentifier_of_kind actionHere
  have ranOpen := expect_of_kind (peek_of_kinds left).1
  refine ⟨_, _, _, _, _, _, _, _, ranName, ranDot, ranAction, ranOpen, ?_⟩
  refine (bind_of_ok ranName).trans ((bind_of_ok ranDot).trans ((bind_of_ok ranAction).trans ?_))
  rw [arguments, bind_assoc, expectSymbol, bind_of_ok ranOpen, bind_assoc]
  rfl

/-! ### Looking and reading -/

/-- Looking ahead agrees with the rules and leaves no trace, as deep as a parse can be.
A type is passed over where the rule reads one, up to where the rule stops, unless the rule
has fewer levels left than the type nests. What looks like a variable, a cast or an
invocation is read as one up to where it was looked at. -/
theorem looks_agree (parser : Parser) {room : Nat} (inside : room ≤ parser.options.maxDepth) :
    (∀ passed, passType (parser.options.maxDepth + 1) parser = .ok true passed →
        FailsTooDeep (typeName room) parser ∨
          ∃ type later, typeName room parser = .ok type later ∧
            later.cursor.kinds = passed.cursor.kinds) ∧
      (∀ type later, typeName room parser = .ok type later →
        ∃ passed, passType (parser.options.maxDepth + 1) parser = .ok true passed ∧
          passed.cursor.kinds = later.cursor.kinds) ∧
      (isVarDef parser = .ok true parser →
        FailsTooDeep (typeName room) parser ∨ ReadsVariable room parser) ∧
      (isCast parser = .ok true parser →
        FailsTooDeep (castForm (.within room)) parser ∨ ReadsTarget room parser) ∧
      (isInvocation parser = .ok true parser → ∀ parts, ReadsAction parts parser) ∧
      (∃ answer, isVarDef parser = .ok answer parser) ∧
      (∃ answer, isCast parser = .ok answer parser) ∧
      (∃ answer, isInvocation parser = .ok answer parser) := by
  have within : room ≤ parser.options.maxDepth + 1 := Nat.le_succ_of_le inside
  have answered {answer : Bool} (same : (.ok answer parser : EStateM.Result Diagnostic _ _) =
      .ok true parser) : answer = true := (EStateM.Result.ok.inj same).1
  obtain ⟨count, ran, left⟩ := passType_passes (parser.options.maxDepth + 1) parser
  refine ⟨fun passed passes => ?_, fun type later read => ?_, ?_, ?_, ?_,
    ⟨_, isVarDef_eq parser⟩, ⟨_, isCast_eq parser⟩, ⟨_, isInvocation_eq parser⟩⟩
  · obtain ⟨isSome, rfl⟩ := EStateM.Result.ok.inj (ran.symm.trans passes)
    obtain ⟨kinds, seen⟩ := Option.isSome_iff_exists.mp isSome
    rw [left kinds seen]
    exact typeName_of_skipType? within seen
  · have seen := skipType?_of_typeName within read
    rw [seen] at ran
    exact ⟨_, ran, left _ seen⟩
  · intro looks
    rw [isVarDef_eq] at looks
    exact variable_of_starts within (answered looks)
  · intro looks
    rw [isCast_eq] at looks
    exact target_of_starts within (answered looks)
  · intro looks parts
    rw [isInvocation_eq] at looks
    exact action_of_starts parts (answered looks)

/-- `map<int> counts` -/
def mapVariable : List Token :=
  [⟨.keyword .mapKw, "map", ⟨0, 3, 1, 1⟩⟩, ⟨.symbol .less, "<", ⟨3, 4, 1, 4⟩⟩,
    ⟨.keyword .intKw, "int", ⟨4, 7, 1, 5⟩⟩, ⟨.symbol .greater, ">", ⟨7, 8, 1, 8⟩⟩,
    ⟨.identifier, "counts", ⟨9, 15, 1, 10⟩⟩]

theorem looks_agree_mapVariable :
    64 ≤ (Parser.ofTokens mapVariable [] {}).options.maxDepth ∧
      isVarDef (Parser.ofTokens mapVariable [] {}) =
        .ok true (Parser.ofTokens mapVariable [] {}) ∧
      (FailsTooDeep (typeName 64) (Parser.ofTokens mapVariable [] {}) ∨
        ReadsVariable 64 (Parser.ofTokens mapVariable [] {})) := by
  have looks : isVarDef (Parser.ofTokens mapVariable [] {}) =
      .ok true (Parser.ofTokens mapVariable [] {}) :=
    (isVarDef_eq _).trans rfl
  exact ⟨Nat.le_refl 64, looks,
    (looks_agree (Parser.ofTokens mapVariable [] {}) (Nat.le_refl 64)).2.2.1 looks⟩

end Grammar

end ServiceLang
