import ServiceLang.Proofs.Outcome

set_option autoImplicit false

/-! What looking ahead finds out, told from the kinds of the tokens ahead alone. Passing over a type
name does nothing but move the parser, and so going back leaves no trace. -/

namespace ServiceLang

/-! ### Passing over a type name -/

def skipElement? : List Kind → Option (List Kind)
  | .symbol .leftBrace :: .string :: .symbol .rightBrace :: .identifier :: .symbol .greater ::
      rest => some rest
  | .identifier :: .symbol .greater :: rest => some rest
  | _ => none

def skipSchema? : List Kind → Option (List Kind)
  | .symbol .leftBrace :: .string :: .symbol .rightBrace :: .symbol .greater :: rest => some rest
  | _ => none

def skipDimensions : List Kind → List Kind
  | .symbol .leftBracket :: .symbol .rightBracket :: rest => skipDimensions rest
  | kinds => kinds

def skipBase? (inner : List Kind → Option (List Kind)) : List Kind → Option (List Kind)
  | .keyword .mapKw :: .symbol .less :: rest =>
      match inner rest with
      | some (.symbol .greater :: rest) => some rest
      | _ => none
  | .keyword .xmlKw :: .symbol .less :: rest => skipElement? rest
  | .keyword .xmlDocumentKw :: .symbol .less :: rest => skipElement? rest
  | .keyword .jsonKw :: .symbol .less :: rest => skipSchema? rest
  | .identifier :: .symbol .colon :: .identifier :: rest => some rest
  | kind :: rest => if kind.startsType then some rest else none
  | [] => none

def skipType? : (room : Nat) → List Kind → Option (List Kind)
  | 0, _ => none
  | room + 1, kinds => (skipBase? (skipType? room) kinds).map skipDimensions

/-! ### Shapes -/

def startsVarDef (room : Nat) (kinds : List Kind) : Bool :=
  match skipType? room kinds with
  | some (.identifier :: _) => true
  | _ => false

def closesBareName : List Kind → Bool
  | .identifier :: .symbol .rightParen :: _ => true
  | .identifier :: .symbol .colon :: .identifier :: .symbol .rightParen :: _ => true
  | _ => false

def startsCast (room : Nat) : List Kind → Bool
  | .symbol .leftParen :: inside =>
      match skipType? room inside with
      | some (.symbol .rightParen :: next :: _) =>
          next.startsOperand &&
            !(closesBareName inside &&
              next ∈ [.symbol .plus, .symbol .minus, .symbol .less])
      | _ => false
  | _ => false

/-! ### What is passed over -/

def skipKind? (kind : Kind) : List Kind → Option (List Kind)
  | first :: rest => if first = kind then some rest else none
  | [] => none

theorem skipKind?_eq_some {kind : Kind} {kinds rest : List Kind} :
    skipKind? kind kinds = some rest ↔ kinds = kind :: rest := by
  cases kinds with
  | nil => simp [skipKind?]
  | cons first others => by_cases same : first = kind <;> simp [skipKind?, same]

theorem skipElement?_eq_some {kinds rest : List Kind} :
    skipElement? kinds = some rest ↔
      kinds = [.symbol .leftBrace, .string, .symbol .rightBrace, .identifier, .symbol .greater] ++
          rest ∨
        kinds = [.identifier, .symbol .greater] ++ rest := by
  constructor
  · intro skipped
    unfold skipElement? at skipped
    split at skipped <;> cases skipped
    · exact .inl rfl
    · exact .inr rfl
  · rintro (rfl | rfl) <;> rfl

theorem skipSchema?_eq_some {kinds rest : List Kind} :
    skipSchema? kinds = some rest ↔
      kinds = [.symbol .leftBrace, .string, .symbol .rightBrace, .symbol .greater] ++ rest := by
  constructor
  · intro skipped
    unfold skipSchema? at skipped
    split at skipped <;> cases skipped
    rfl
  · rintro rfl
    rfl

def skipBraced? (kinds : List Kind) : Option (List Kind) :=
  ((skipKind? (.symbol .leftBrace) kinds).bind (skipKind? .string)).bind
    (skipKind? (.symbol .rightBrace))

theorem skipElement?_eq (kinds : List Kind) :
    skipElement? kinds =
      ((if kinds.head? = some (.symbol .leftBrace) then skipBraced? kinds else some kinds).bind
        (skipKind? .identifier)).bind (skipKind? (.symbol .greater)) := by
  refine Option.ext fun rest => ?_
  by_cases brace : kinds.head? = some (.symbol .leftBrace)
  · obtain ⟨others, rfl⟩ := List.head?_eq_some_iff.mp brace
    simp [skipElement?_eq_some, skipBraced?, Option.bind_eq_some_iff, skipKind?_eq_some]
  · have notBrace (others : List Kind) : kinds ≠ .symbol .leftBrace :: others := by
      rintro rfl
      exact brace rfl
    simp [skipElement?_eq_some, Option.bind_eq_some_iff, skipKind?_eq_some, brace, notBrace]

theorem skipSchema?_eq (kinds : List Kind) :
    skipSchema? kinds = (skipBraced? kinds).bind (skipKind? (.symbol .greater)) := by
  refine Option.ext fun rest => ?_
  simp [skipSchema?_eq_some, skipBraced?, Option.bind_eq_some_iff, skipKind?_eq_some]

def skipConstraint? (skip? : List Kind → Option (List Kind)) : List Kind → Option (List Kind)
  | .symbol .less :: rest => skip? rest
  | kinds => some kinds

variable {inner : List Kind → Option (List Kind)}

theorem skipBase?_constrained {skip? : List Kind → Option (List Kind)} {word : Keyword}
    (starts : (Kind.keyword word).startsType = true)
    (bound : ∀ rest, skipBase? inner (.keyword word :: .symbol .less :: rest) = skip? rest)
    (rest : List Kind) :
    skipBase? inner (.keyword word :: rest) = skipConstraint? skip? rest := by
  by_cases less : rest.head? = some (.symbol .less)
  · obtain ⟨others, rfl⟩ := List.head?_eq_some_iff.mp less
    exact bound others
  · have bare : skipConstraint? skip? rest = some rest := by
      unfold skipConstraint?
      split
      · exact absurd rfl less
      · rfl
    rw [bare]
    unfold skipBase?
    split <;> rename_i same <;> cases same
    all_goals first | exact absurd rfl less | exact if_pos starts

theorem skipBase?_map (rest : List Kind) :
    skipBase? inner (.keyword .mapKw :: .symbol .less :: rest) =
      (inner rest).bind (skipKind? (.symbol .greater)) := by
  rw [skipBase?]
  refine Option.ext fun left => ?_
  split <;> rename_i same <;> simp_all [Option.bind_eq_some_iff, skipKind?_eq_some]

def skipName? : List Kind → Option (List Kind)
  | .identifier :: .symbol .colon :: .identifier :: rest => some rest
  | .identifier :: rest => some rest
  | _ => none

theorem skipBase?_identifier (rest : List Kind) :
    skipBase? inner (.identifier :: rest) = skipName? (.identifier :: rest) := by
  unfold skipBase? skipName?
  split <;> rename_i same <;> cases same
  · rfl
  · rename_i plain
    change some rest = _
    split <;> rename_i same
    · exact absurd (List.cons.inj same).2 (plain _ rfl)
    · rw [(List.cons.inj same).2]
    · exact absurd rfl (same _)

theorem skipKind?_of_other {parser : Parser} {kind : Kind}
    (other : parser.cursor.peek.kind ≠ kind) : skipKind? kind parser.cursor.kinds = none :=
  Option.eq_none_iff_forall_ne_some.mpr fun _ skipped =>
    other (peek_of_kinds (skipKind?_eq_some.mp skipped)).1

/-- A single word names a type just if it starts one, unless it is one of the words that
have rules of their own. -/
theorem skipBase?_simple {kind : Kind} (rest : List Kind)
    (notWord : kind ∉
      [.keyword .mapKw, .keyword .xmlKw, .keyword .xmlDocumentKw, .keyword .jsonKw, .identifier]) :
    skipBase? inner (kind :: rest) = if kind.startsType then some rest else none := by
  unfold skipBase?
  split <;> rename_i same <;> cases same
  all_goals first | exact absurd (by decide) notWord | rfl

/-- Array suffixes, if there are some, begin and end with a bracket. -/
theorem skipDimensions_split (kinds : List Kind) :
    ∃ dimensions, kinds = dimensions ++ skipDimensions kinds ∧
      (dimensions = [] ∨ dimensions.head? = some (.symbol .leftBracket) ∧
        dimensions.getLast? = some (.symbol .rightBracket)) := by
  fun_induction skipDimensions kinds with
  | case1 rest ih =>
      obtain ⟨dimensions, split, ends⟩ := ih
      refine ⟨.symbol .leftBracket :: .symbol .rightBracket :: dimensions, ?_, .inr ⟨rfl, ?_⟩⟩
      · rw [List.cons_append, List.cons_append, ← split]
      · rcases ends with rfl | ⟨-, last⟩
        · rfl
        · rw [List.getLast?_cons_cons, List.getLast?_cons, last]
          rfl
  | case2 kinds => exact ⟨[], rfl, .inl rfl⟩

/-- No type is passed over where none starts. -/
theorem skipType?_of_head {kinds : List Kind}
    (other : ∀ kind, kinds.head? = some kind → kind.startsType = false) (room : Nat) :
    skipType? room kinds = none := by
  cases room with
  | zero => rfl
  | succ room =>
      have nothing : skipBase? (skipType? room) kinds = none := by
        unfold skipBase?
        split
        case h_6 kind rest _ _ _ _ _ =>
          rw [other kind rfl]
          rfl
        all_goals first | rfl | cases other _ rfl
      rw [skipType?, nothing, Option.map_none]

theorem startsVarDef_eq (room : Nat) (kinds : List Kind) :
    startsVarDef room kinds = ((skipType? room kinds).bind (skipKind? .identifier)).isSome := by
  unfold startsVarDef
  split
  · rename_i seen
    rw [seen]
    rfl
  · rename_i other
    cases seen : skipType? room kinds with
    | none => rfl
    | some left =>
        cases left with
        | nil => rfl
        | cons kind rest =>
            have notName : kind ≠ .identifier := by
              rintro rfl
              exact other rest seen
            rw [Option.bind_some, skipKind?, if_neg notName]
            rfl

theorem startsVarDef_of_head {kinds : List Kind}
    (other : ∀ kind, kinds.head? = some kind → kind.startsType = false) (room : Nat) :
    startsVarDef room kinds = false := by
  rw [startsVarDef, skipType?_of_head other]

/-- A name takes its part of the front, and array suffixes take what is left of it. -/
theorem closesBareName_of_name {front name dimensions rest : List Kind}
    (isName : name = [.identifier] ∨ name = [.identifier, .symbol .colon, .identifier])
    (ends : dimensions = [] ∨ dimensions.head? = some (.symbol .leftBracket) ∧
      dimensions.getLast? = some (.symbol .rightBracket))
    (whole : front ++ .symbol .rightParen :: rest =
      name ++ (dimensions ++ .symbol .rightParen :: rest)) :
    closesBareName (front ++ .symbol .rightParen :: rest) =
      (front.head? == some .identifier && front.getLast? == some .identifier) := by
  rw [← List.append_assoc] at whole
  obtain rfl := List.append_cancel_right whole
  rcases ends with rfl | ⟨opens, closes⟩
  · rcases isName with rfl | rfl <;> rfl
  · obtain ⟨others, rfl⟩ := List.head?_eq_some_iff.mp opens
    rw [List.getLast?_append, closes]
    rcases isName with rfl | rfl <;> rfl

/-- A type name is a bare name just if it begins and ends with an identifier. -/
theorem closesBareName_of_front {room : Nat} {front rest : List Kind}
    (skipped : skipType? room (front ++ .symbol .rightParen :: rest) =
      some (.symbol .rightParen :: rest)) :
    closesBareName (front ++ .symbol .rightParen :: rest) =
      (front.head? == some .identifier && front.getLast? == some .identifier) := by
  cases room with
  | zero => cases skipped
  | succ room =>
      rw [skipType?, Option.map_eq_some_iff] at skipped
      obtain ⟨middle, base, last⟩ := skipped
      obtain ⟨dimensions, split, ends⟩ := skipDimensions_split middle
      rw [last] at split
      subst split
      cases front with
      | nil =>
          rw [List.nil_append, skipBase?_simple rest (by decide)] at base
          cases base
      | cons kind others =>
          by_cases isName : kind = .identifier
          · subst isName
            rw [List.cons_append, skipBase?_identifier] at base
            unfold skipName? at base
            split at base
            · rename_i same
              cases base
              exact closesBareName_of_name (.inr rfl) ends same
            · rename_i same
              rw [Option.some.inj base] at same
              exact closesBareName_of_name (.inl rfl) ends same
            · cases base
          · have notBare : closesBareName (kind :: others ++ .symbol .rightParen :: rest) =
                false := by
              unfold closesBareName
              split <;> rename_i same <;> first | rfl | exact absurd (List.cons.inj same).1 isName
            rw [notBare]
            simp [isName]

theorem startsCast_of_closed {room : Nat} {inside rest : List Kind}
    (closed : (skipType? room inside).bind (skipKind? (.symbol .rightParen)) = some rest) :
    startsCast room (.symbol .leftParen :: inside) =
      ((rest.head?.getD .endOfFile).startsOperand &&
        !(closesBareName inside &&
          rest.head?.getD .endOfFile ∈ [.symbol .plus, .symbol .minus, .symbol .less])) := by
  obtain ⟨left, seen, closes⟩ := Option.bind_eq_some_iff.mp closed
  rw [startsCast, seen, skipKind?_eq_some.mp closes]
  cases rest <;> rfl

theorem startsCast_of_open {room : Nat} {inside : List Kind}
    (notClosed : (skipType? room inside).bind (skipKind? (.symbol .rightParen)) = none) :
    startsCast room (.symbol .leftParen :: inside) = false := by
  rw [startsCast]
  split
  · rename_i seen
    rw [seen] at notClosed
    cases notClosed
  · rfl

/-! ### Moving on and going back -/

def Parser.moved (parser : Parser) (count : Nat) : Parser :=
  { parser with cursor := parser.cursor.advanceBy count }

theorem Parser.moved_moved (parser : Parser) (first second : Nat) :
    (parser.moved first).moved second = parser.moved (first + second) := by
  rw [moved, moved, moved, Cursor.advanceBy_add]

theorem Parser.kinds_moved (parser : Parser) (count : Nat) :
    (parser.moved count).cursor.kinds = parser.cursor.kinds.drop count :=
  parser.cursor.kinds_advanceBy count

theorem Parser.remaining_advance_advance (parser : Parser)
    (more : parser.cursor.peek.kind ≠ .endOfFile) :
    parser.advance.advance.cursor.remaining < parser.cursor.remaining := by
  have first := parser.cursor.remaining_pos more
  change parser.cursor.advance.advance.remaining < _
  rw [Cursor.remaining_advance, Cursor.remaining_advance]
  omega

/-- A bracket that is not closed at once begins no array suffix. -/
theorem Parser.skipDimensions_of_other {parser : Parser}
    (other : ¬(parser.cursor.peek.kind = .symbol .leftBracket ∧
      (parser.cursor.peekNth 1).kind = .symbol .rightBracket)) :
    skipDimensions parser.cursor.kinds = parser.cursor.kinds := by
  unfold skipDimensions
  split
  · rename_i ahead
    refine absurd ⟨(peek_of_kinds ahead).1, ?_⟩ other
    rw [Cursor.kind_peekNth, ahead]
    rfl
  · rfl

namespace Step

variable {parser : Parser} {seen : Option (List Kind)} {skip? : List Kind → Option (List Kind)}

/-- What is to pass over something gives the answer that has been foreseen, and moves the parser
at most. If it passes over it, the kinds that are left then have been foreseen too. -/
def Passes (seen : Option (List Kind)) (step : Step Bool) (parser : Parser) : Prop :=
  ∃ count, step parser = .ok seen.isSome (parser.moved count) ∧
    ∀ left, seen = some left → (parser.moved count).cursor.kinds = left

namespace Passes

theorem yes : Passes (some parser.cursor.kinds) (pure true) parser :=
  ⟨0, rfl, fun _ same => Option.some.inj same⟩

theorem no : Passes none (pure false) parser :=
  ⟨0, rfl, fun _ same => by cases same⟩

theorem behind {α : Type} {first : Step α} {next : α → Step Bool} {value : α} {count : Nat}
    (ran : first parser = .ok value (parser.moved count))
    (passes : Passes seen (next value) (parser.moved count)) :
    Passes seen (first >>= next) parser := by
  obtain ⟨more, answers, left⟩ := passes
  rw [Parser.moved_moved] at answers left
  exact ⟨count + more, (bind_of_ok ran).trans answers, left⟩

theorem both {first second : Step Bool} (here : Passes seen first parser)
    (there : ∀ later, Passes (skip? later.cursor.kinds) second later) :
    Passes (seen.bind skip?) (both first second) parser := by
  obtain ⟨count, ran, left⟩ := here
  refine behind ran ?_
  cases seen with
  | none => exact no
  | some kinds =>
      rw [← left kinds rfl]
      exact there _

theorem eat (kind : Kind) (notEnd : kind ≠ .endOfFile) :
    Passes (skipKind? kind parser.cursor.kinds) (Step.eat kind) parser := by
  by_cases here : parser.cursor.peek.kind = kind
  · rw [kinds_of_peek here notEnd, skipKind?, if_pos rfl]
    exact ⟨1, eat_of_kind here, fun _ same => Option.some.inj same⟩
  · rw [skipKind?_of_other here]
    exact ⟨0, eat_of_other here, fun _ same => by cases same⟩

end Passes

theorem passBounds_passes {bounds : Step Bool}
    (passes : ∀ later, Passes (skip? later.cursor.kinds) bounds later) :
    Passes (skipConstraint? skip? parser.cursor.kinds) (passBounds bounds) parser := by
  by_cases less : parser.cursor.peek.kind = .symbol .less
  · have ran : Step.eat (.symbol .less) parser = .ok true (parser.moved 1) := eat_of_kind less
    rw [kinds_of_peek less nofun]
    exact .behind ran (passes _)
  · have ran : Step.eat (.symbol .less) parser = .ok false (parser.moved 0) := eat_of_other less
    have other : skipConstraint? skip? parser.cursor.kinds = some parser.cursor.kinds := by
      unfold skipConstraint?
      split
      · rename_i ahead
        exact absurd (peek_of_kinds ahead).1 less
      · rfl
    rw [other]
    exact .behind ran .yes

theorem braced_passes (brace : parser.cursor.peek.kind = .symbol .leftBrace) :
    Passes (skipBraced? parser.cursor.kinds)
      (both (Step.eat .string) (Step.eat (.symbol .rightBrace))) (parser.moved 1) := by
  rw [skipBraced?, kinds_of_peek brace nofun, skipKind?, if_pos rfl, Option.bind_some]
  exact (Passes.eat .string nofun).both fun _ => .eat (.symbol .rightBrace) nofun

theorem head_of_not_brace (notBrace : parser.cursor.peek.kind ≠ .symbol .leftBrace) :
    parser.cursor.kinds.head? ≠ some (.symbol .leftBrace) := by
  intro head
  rw [Cursor.kind_peek, head] at notBrace
  exact notBrace rfl

/-- Behind the braces, if there are some, stand a name and the closing bracket. -/
theorem passElement_passes :
    Passes (skipElement? parser.cursor.kinds) (passConstraint false) parser := by
  have name (later : Parser) :
      Passes ((skipKind? .identifier later.cursor.kinds).bind (skipKind? (.symbol .greater)))
        (both (Step.eat .identifier) (Step.eat (.symbol .greater))) later :=
    (Passes.eat .identifier nofun).both fun _ => .eat (.symbol .greater) nofun
  rw [skipElement?_eq, Option.bind_assoc]
  by_cases brace : parser.cursor.peek.kind = .symbol .leftBrace
  · have ran : Step.eat (.symbol .leftBrace) parser = .ok true (parser.moved 1) :=
      eat_of_kind brace
    rw [if_pos (by rw [kinds_of_peek brace nofun]; rfl)]
    exact .behind ran ((braced_passes brace).both name)
  · have ran : Step.eat (.symbol .leftBrace) parser = .ok false (parser.moved 0) :=
      eat_of_other brace
    rw [if_neg (head_of_not_brace brace)]
    exact .behind ran (Passes.yes.both name)

/-- The text in braces cannot be missing, and only the closing bracket stands behind it. -/
theorem passSchema_passes :
    Passes (skipSchema? parser.cursor.kinds) (passConstraint true) parser := by
  rw [skipSchema?_eq]
  by_cases brace : parser.cursor.peek.kind = .symbol .leftBrace
  · have ran : Step.eat (.symbol .leftBrace) parser = .ok true (parser.moved 1) :=
      eat_of_kind brace
    exact .behind ran ((braced_passes brace).both fun _ => .eat (.symbol .greater) nofun)
  · have ran : Step.eat (.symbol .leftBrace) parser = .ok false (parser.moved 0) :=
      eat_of_other brace
    have nothing : skipBraced? parser.cursor.kinds = none := by
      refine Option.eq_none_iff_forall_ne_some.mpr fun rest skipped => ?_
      simp only [skipBraced?, Option.bind_eq_some_iff, skipKind?_eq_some] at skipped
      obtain ⟨_, ⟨_, ahead, -⟩, -⟩ := skipped
      exact brace (peek_of_kinds ahead).1
    rw [nothing]
    refine .behind ran ?_
    change Passes ((some parser.cursor.kinds).bind fun _ => none) _ _
    exact Passes.yes.both fun _ => Passes.no.both fun _ => .eat (.symbol .greater) nofun

theorem passName_passes (here : parser.cursor.peek.kind = .identifier) :
    Passes (skipName? parser.cursor.kinds)
      (do
        if (← check (.symbol .colon)) && (← kindNth 1) == .identifier then
          let _ ← advance
          let _ ← advance
          return true
        else return true)
      (parser.moved 1) := by
  rw [kinds_of_peek here nofun]
  change Passes (skipName? (.identifier :: (parser.moved 1).cursor.kinds)) _ _
  generalize parser.moved 1 = parser
  have looked : check (.symbol .colon) parser = .ok _ (parser.moved 0) := check_eq parser _
  have seen : kindNth 1 parser = .ok _ (parser.moved 0) := kindNth_eq parser 1
  refine .behind looked (.behind seen ?_)
  by_cases qualified : parser.cursor.peek.kind = .symbol .colon ∧
      (parser.cursor.peekNth 1).kind = .identifier
  · obtain ⟨colon, second⟩ := qualified
    have name : parser.advance.cursor.peek.kind = .identifier := by
      rw [← second, ← Cursor.peek_advance]
      rfl
    have first : advance parser = .ok _ (parser.moved 1) := advance_eq parser
    have next : advance (parser.moved 1) = .ok _ ((parser.moved 1).moved 1) := advance_eq _
    rw [if_pos (by simp [colon, second]), kinds_of_peek colon nofun, kinds_of_peek name nofun]
    exact .behind first (.behind next .yes)
  · have plain : skipName? (.identifier :: parser.cursor.kinds) = some parser.cursor.kinds := by
      unfold skipName?
      split <;> rename_i same
      · have behind := (List.cons.inj same).2
        refine absurd ⟨(peek_of_kinds behind).1, ?_⟩ qualified
        rw [Cursor.kind_peekNth, behind]
        rfl
      · exact congrArg some (List.cons.inj same).2.symm
      · exact absurd rfl (same _)
    rw [if_neg (by simpa using qualified), plain]
    exact .yes

/-- A type name without array suffixes is passed over as foreseen if a constraint in it is. -/
theorem passBase_passes {rule : Step Bool}
    (passes : ∀ later, Passes (inner later.cursor.kinds) rule later) :
    Passes (skipBase? inner parser.cursor.kinds) (passBase rule) parser := by
  have looked : current parser = .ok parser.cursor.peek.kind (parser.moved 0) := current_eq parser
  have consumed : advance parser = .ok parser.cursor.peek (parser.moved 1) := advance_eq parser
  refine .behind looked ?_
  split
  · rename_i here
    refine .behind consumed ?_
    rw [kinds_of_peek here nofun, skipBase?_identifier, ← kinds_of_peek here nofun]
    exact passName_passes here
  · rename_i here
    rw [kinds_of_peek here nofun, skipBase?_constrained rfl skipBase?_map]
    exact .behind consumed (passBounds_passes fun later =>
      (passes later).both fun _ => .eat (.symbol .greater) nofun)
  · rename_i here
    rw [kinds_of_peek here nofun, skipBase?_constrained rfl fun _ => rfl]
    exact .behind consumed (passBounds_passes fun _ => passElement_passes)
  · rename_i here
    rw [kinds_of_peek here nofun, skipBase?_constrained rfl fun _ => rfl]
    exact .behind consumed (passBounds_passes fun _ => passElement_passes)
  · rename_i here
    rw [kinds_of_peek here nofun, skipBase?_constrained rfl fun _ => rfl]
    exact .behind consumed (passBounds_passes fun _ => passSchema_passes)
  · rename_i notName notMap notXml notDocument notJson
    cases ahead : parser.cursor.kinds with
    | nil =>
        rw [Cursor.kind_peek, ahead]
        exact .no
    | cons kind rest =>
        obtain ⟨here, left⟩ := peek_of_kinds ahead
        rw [here] at notName notMap notXml notDocument notJson ⊢
        rw [skipBase?_simple rest (by simpa using ⟨notMap, notXml, notDocument, notJson, notName⟩)]
        split
        · rw [← left]
          exact .behind consumed .yes
        · exact .no

theorem passDimensions_ran (parser : Parser) :
    ∃ count, loop passDimension () parser = .ok () (parser.moved count) ∧
      (parser.moved count).cursor.kinds = skipDimensions parser.cursor.kinds := by
  by_cases brackets : parser.cursor.peek.kind = .symbol .leftBracket ∧
      (parser.cursor.peekNth 1).kind = .symbol .rightBracket
  · obtain ⟨opens, second⟩ := brackets
    have closes : parser.advance.cursor.peek.kind = .symbol .rightBracket := by
      rw [← second, ← Cursor.peek_advance]
      rfl
    have ran : passDimension () parser = .ok (.yield ()) parser.advance.advance := by
      rw [passDimension, look_bind (check_eq parser _), look_bind (kindNth_eq parser 1),
        if_pos (by simp [opens, second]), bind_of_ok (advance_eq parser),
        bind_of_ok (advance_eq parser.advance), pure_eq]
    have shorter := parser.remaining_advance_advance (by rw [opens]; nofun)
    obtain ⟨count, onwards, left⟩ := passDimensions_ran parser.advance.advance
    refine ⟨1 + (1 + count), ?_, ?_⟩
    · rw [loop_of_yield ran shorter, onwards, ← Parser.moved_moved, ← Parser.moved_moved]
      rfl
    · rw [kinds_of_peek opens nofun, kinds_of_peek closes nofun, skipDimensions, ← left,
        ← Parser.moved_moved, ← Parser.moved_moved]
      rfl
  · have ran : passDimension () parser = .ok (.done ()) parser := by
      rw [passDimension, look_bind (check_eq parser _), look_bind (kindNth_eq parser 1),
        if_neg (by simpa using brackets), pure_eq]
    exact ⟨0, loop_of_done ran, (Parser.skipDimensions_of_other brackets).symm⟩
termination_by parser.cursor.remaining

/-- A type name is passed over as its kinds tell. -/
theorem passType_passes (room : Nat) (parser : Parser) :
    Passes (skipType? room parser.cursor.kinds) (passType room) parser := by
  induction room generalizing parser with
  | zero => exact .no
  | succ room ih =>
      have base : Passes _ _ parser := passBase_passes ih
      obtain ⟨count, ran, left⟩ := base
      rw [skipType?]
      refine .behind ran ?_
      cases seen : skipBase? (skipType? room) parser.cursor.kinds with
      | none => exact .no
      | some kinds =>
          obtain ⟨more, onwards, last⟩ := passDimensions_ran (parser.moved count)
          rw [left kinds seen] at last
          refine .behind onwards ?_
          rw [Option.map_some, ← last]
          exact .yes

/-- Whatever is found out by moving on only, the parser is the same again behind it. -/
theorem lookAhead_eq {α : Type} {ahead : Step α} {value : α} {count : Nat}
    (ran : ahead parser = .ok value (parser.moved count)) :
    lookAhead ahead parser = .ok value parser := by
  rw [lookAhead, look_bind (cursor_eq parser), bind_of_ok ran]
  rfl

theorem lookRoom_eq (parser : Parser) :
    lookRoom parser = .ok (parser.options.maxDepth + 1) parser :=
  rfl

theorem check_eq_skipKind? (kind : Kind) (notEnd : kind ≠ .endOfFile) :
    check kind parser = .ok (skipKind? kind parser.cursor.kinds).isSome parser := by
  by_cases here : parser.cursor.peek.kind = kind
  · rw [check_eq, kinds_of_peek here notEnd, skipKind?, if_pos rfl, here]
    simp
  · rw [check_eq, skipKind?_of_other here]
    simp [here]

theorem Passes.check {step : Step Bool} (here : Passes seen step parser) (kind : Kind)
    (notEnd : kind ≠ .endOfFile) :
    ∃ count, Step.both step (Step.check kind) parser =
        .ok (seen.bind (skipKind? kind)).isSome (parser.moved count) ∧
      ∀ left, seen = some left → (parser.moved count).cursor.kinds = left := by
  obtain ⟨count, ran, left⟩ := here
  refine ⟨count, (bind_of_ok ran).trans ?_, left⟩
  cases seen with
  | none => rfl
  | some kinds =>
      rw [Option.bind_some, ← left kinds rfl]
      exact check_eq_skipKind? kind notEnd

/-- A variable definition is seen by its kinds, and looking for it leaves no trace. -/
theorem isVarDef_eq (parser : Parser) :
    isVarDef parser =
      .ok (startsVarDef (parser.options.maxDepth + 1) parser.cursor.kinds) parser := by
  rw [isVarDef, look_bind (current_eq parser)]
  split
  · rw [look_bind (lookRoom_eq parser), startsVarDef_eq]
    obtain ⟨count, ran, -⟩ := (passType_passes _ parser).check .identifier nofun
    exact lookAhead_eq ran
  · rename_i other
    rw [startsVarDef_of_head fun kind head => ?_]
    · rfl
    · rw [Cursor.kind_peek, head, Option.getD_some] at other
      exact Bool.not_eq_true _ ▸ other

/-- What stands behind a parenthesised type name decides, and what its last token is. -/
theorem castBehind_eq (first : Kind) (parser : Parser) :
    castBehind first parser =
      .ok (parser.advance.cursor.peek.kind.startsOperand &&
        !(first == .identifier && parser.cursor.previousToken.kind == .identifier &&
          parser.advance.cursor.peek.kind ∈ [.symbol .plus, .symbol .minus, .symbol .less]))
        parser.advance :=
  rfl

/-- Whether a bare name has been passed over shows at the first and the last of its tokens. -/
theorem closesBareName_of_moved {room count : Nat} {rest : List Kind}
    (seen : skipType? room parser.cursor.kinds = some (.symbol .rightParen :: rest))
    (left : (parser.moved count).cursor.kinds = .symbol .rightParen :: rest) :
    closesBareName parser.cursor.kinds = (parser.cursor.peek.kind == .identifier &&
      (parser.moved count).cursor.previousToken.kind == .identifier) := by
  have split : parser.cursor.kinds.take count ++ .symbol .rightParen :: rest =
      parser.cursor.kinds := by
    rw [← left, Parser.kinds_moved, List.take_append_drop]
  cases count with
  | zero =>
      change parser.cursor.kinds = _ at left
      rw [left, skipType?_of_head fun kind head => ?_] at seen
      · cases seen
      · cases head
        rfl
  | succ count =>
      have more : count < parser.cursor.kinds.length := by
        have lengths := congrArg List.length split
        rw [List.length_append, List.length_take, List.length_cons] at lengths
        omega
      have bare := closesBareName_of_front (split.symm ▸ seen)
      have last : some (parser.moved (count + 1)).cursor.previousToken.kind =
          parser.cursor.kinds[count]? :=
        parser.cursor.kind_previousToken_advanceBy (by rwa [Cursor.kinds, List.length_map] at more)
      have first : parser.cursor.kinds.head? = some parser.cursor.peek.kind := by
        rw [Cursor.kind_peek, List.head?_eq_getElem?, List.getElem?_eq_getElem (by omega),
          Option.getD_some]
      rw [split] at bare
      rw [bare, List.head?_take, if_neg (Nat.succ_ne_zero count), first, List.getLast?_take,
        if_neg (Nat.succ_ne_zero count), Nat.add_sub_cancel, ← last]
      rfl

theorem passTarget_ran (room : Nat) (parser : Parser) :
    ∃ count, passTarget room parser =
      .ok (startsCast room (.symbol .leftParen :: parser.advance.cursor.kinds))
        (parser.moved count) := by
  obtain ⟨count, ran, left⟩ :=
    (passType_passes room parser.advance).check (.symbol .rightParen) nofun
  rw [passTarget, bind_of_ok (advance_eq parser), look_bind (current_eq _), both, bind_of_ok ran]
  cases closed : (skipType? room parser.advance.cursor.kinds).bind
      (skipKind? (.symbol .rightParen)) with
  | none =>
      rw [startsCast_of_open closed]
      refine ⟨1 + count, ?_⟩
      rw [← Parser.moved_moved]
      rfl
  | some rest =>
      obtain ⟨kinds, seen, closes⟩ := Option.bind_eq_some_iff.mp closed
      obtain rfl := skipKind?_eq_some.mp closes
      have behind := (peek_of_kinds (left _ seen)).2
      have bare := closesBareName_of_moved seen (left _ seen)
      refine ⟨1 + (count + 1), ?_⟩
      rw [startsCast_of_closed closed, bare, ← behind, ← Cursor.kind_peek, ← Parser.moved_moved,
        ← Parser.moved_moved]
      exact castBehind_eq _ _

/-- A cast is seen by its kinds, and looking for it leaves no trace. -/
theorem isCast_eq (parser : Parser) :
    isCast parser =
      .ok (startsCast (parser.options.maxDepth + 1) parser.cursor.kinds) parser := by
  rw [isCast, look_bind (check_eq parser _)]
  by_cases opens : parser.cursor.peek.kind = .symbol .leftParen
  · rw [if_pos (by simpa using opens), look_bind (lookRoom_eq parser),
      kinds_of_peek opens nofun]
    obtain ⟨count, ran⟩ := passTarget_ran (parser.options.maxDepth + 1) parser
    exact lookAhead_eq ran
  · have nothing : startsCast (parser.options.maxDepth + 1) parser.cursor.kinds = false := by
      unfold startsCast
      split
      · rename_i ahead
        exact absurd (peek_of_kinds ahead).1 opens
      · rfl
    rw [if_neg (by simpa using opens), nothing, pure_eq]

end Step

end ServiceLang
