import ServiceLang.Proofs.Passing

set_option autoImplicit false

/-! How far looking ahead sees. No type name goes beyond a closing parenthesis or a
semicolon, so what stands behind the first one of them does not matter. -/

namespace ServiceLang

def Kind.endsType (kind : Kind) : Prop :=
  kind = .symbol .rightParen ∨ kind = .symbol .semicolon

/-- The kinds that end a definition or a directive. They stand in no shape. -/
def Kind.endsDefinition (kind : Kind) : Prop :=
  kind = .symbol .semicolon ∨ kind = .symbol .rightBrace

/-- The kinds at which no type, expression or clause goes on. -/
def Kind.isInert (kind : Kind) : Bool :=
  kind.startsStatement || kind.startsDefinition ||
    kind ∈ [.keyword .workerKw, .symbol .semicolon, .symbol .rightBrace]

theorem Kind.isInert_of_endsDefinition {kind : Kind} (ends : kind.endsDefinition) :
    kind.isInert = true := by
  rcases ends with rfl | rfl <;> rfl

theorem Kind.startsOperand_of_isInert {kind : Kind} (inert : kind.isInert = true) :
    kind.startsOperand = false := by
  cases kind with
  | keyword word => cases word <;> first | rfl | cases inert
  | symbol sign => cases sign <;> first | rfl | cases inert
  | _ => cases inert

def Kind.endsShape (kind : Kind) : Bool :=
  kind.isInert || kind == .symbol .atSign

theorem Kind.endsShape_of_isInert {kind : Kind} (inert : kind.isInert = true) :
    kind.endsShape = true := by
  rw [endsShape, inert, Bool.true_or]

theorem Kind.notMem_of_isInert {kind : Kind} {kinds : List Kind} (inert : kind.isInert = true)
    (away : kinds.all (fun other => !other.isInert) = true) : kind ∉ kinds := by
  intro member
  have isAway := List.all_eq_true.mp away kind member
  rw [inert] at isAway
  contradiction

theorem Kind.notMem_of_endsShape {kind : Kind} {kinds : List Kind} (ends : kind.endsShape = true)
    (away : kinds.all (fun other => !other.endsShape) = true) : kind ∉ kinds := by
  intro member
  have isAway := List.all_eq_true.mp away kind member
  rw [ends] at isAway
  contradiction

/-- What is passed over ends before a kind that is shared, or nothing is passed over,
whatever stands behind. -/
def StopsWithin (skip? : List Kind → Option (List Kind)) (stop : Kind) : Prop :=
  ∀ shared, stop ∈ shared →
    (∃ left, stop ∈ left ∧ ∀ rest, skip? (shared ++ rest) = some (left ++ rest)) ∨
      ∀ rest, skip? (shared ++ rest) = none

/-- A list that has a kind in common with another one up to somewhere, and starts with
kinds before it, has these in common too. -/
theorem prefix_of_shared {stop : Kind} {shared rest front behind : List Kind}
    (member : stop ∈ shared) (notFront : stop ∉ front)
    (same : shared ++ rest = front ++ behind) :
    ∃ others, shared = front ++ others ∧ stop ∈ others := by
  rcases List.append_eq_append_iff.mp same with ⟨others, frontIs, -⟩ | ⟨others, sharedIs, -⟩
  · rw [frontIs] at notFront
    exact absurd (List.mem_append_left others member) notFront
  · rw [sharedIs] at member
    rcases List.mem_append.mp member with inFront | inside
    · exact absurd inFront notFront
    · exact ⟨others, sharedIs, inside⟩

/-- What stands in front of a kind that is not in it is all shared. -/
theorem prefix_of_edge {edge : Kind} {shared rest front behind : List Kind}
    (notFront : edge ∉ front) (same : shared ++ edge :: rest = front ++ behind) :
    ∃ others, shared = front ++ others := by
  have whole : (shared ++ [edge]) ++ rest = front ++ behind := by
    rw [List.append_assoc, List.singleton_append, same]
  obtain ⟨others, split, member⟩ := prefix_of_shared (by simp) notFront whole
  have nonempty := List.ne_nil_of_mem member
  refine ⟨others.dropLast, ?_⟩
  have front := congrArg List.dropLast split
  rwa [List.dropLast_concat, List.dropLast_append_of_ne_nil nonempty] at front

section Skipping

variable {stop : Kind} (ends : stop.endsType)

include ends

theorem mem_of_ends {kind : Kind} {others : List Kind} (other : ¬kind.endsType)
    (member : stop ∈ kind :: others) : stop ∈ others := by
  refine List.mem_of_ne_of_mem ?_ member
  rintro rfl
  exact other ends

theorem skipElement?_stopsWithin : StopsWithin skipElement? stop := by
  intro shared member
  by_cases qualified : ∃ others, shared =
      [.symbol .leftBrace, .string, .symbol .rightBrace, .identifier, .symbol .greater] ++ others
  · obtain ⟨others, rfl⟩ := qualified
    have inside : stop ∈ others := by
      rcases ends with rfl | rfl <;> simpa using member
    exact .inl ⟨others, inside, fun rest => rfl⟩
  by_cases plain : ∃ others, shared = [.identifier, .symbol .greater] ++ others
  · obtain ⟨others, rfl⟩ := plain
    have inside : stop ∈ others := by
      rcases ends with rfl | rfl <;> simpa using member
    exact .inl ⟨others, inside, fun rest => rfl⟩
  refine .inr fun rest => ?_
  cases skipped : skipElement? (shared ++ rest) with
  | none => rfl
  | some left =>
      rcases skipElement?_eq_some.mp skipped with same | same
      · obtain ⟨others, is, -⟩ := prefix_of_shared member
          (by rcases ends with rfl | rfl <;> simp) same
        exact absurd ⟨others, is⟩ qualified
      · obtain ⟨others, is, -⟩ := prefix_of_shared member
          (by rcases ends with rfl | rfl <;> simp) same
        exact absurd ⟨others, is⟩ plain

theorem skipSchema?_stopsWithin : StopsWithin skipSchema? stop := by
  intro shared member
  by_cases schema : ∃ others, shared =
      [.symbol .leftBrace, .string, .symbol .rightBrace, .symbol .greater] ++ others
  · obtain ⟨others, rfl⟩ := schema
    have inside : stop ∈ others := by
      rcases ends with rfl | rfl <;> simpa using member
    exact .inl ⟨others, inside, fun rest => rfl⟩
  refine .inr fun rest => ?_
  cases skipped : skipSchema? (shared ++ rest) with
  | none => rfl
  | some left =>
      obtain ⟨others, is, -⟩ := prefix_of_shared member
        (by rcases ends with rfl | rfl <;> simp) (skipSchema?_eq_some.mp skipped)
      exact absurd ⟨others, is⟩ schema

theorem skipDimensions_shared {shared : List Kind} (member : stop ∈ shared) :
    ∃ left, stop ∈ left ∧ ∀ rest, skipDimensions (shared ++ rest) = left ++ rest := by
  match shared with
  | [] => cases member
  | [kind] =>
      obtain rfl := List.mem_singleton.mp member
      refine ⟨[stop], member, fun rest => ?_⟩
      rcases ends with rfl | rfl <;> rfl
  | first :: second :: others =>
      by_cases brackets : first = .symbol .leftBracket ∧ second = .symbol .rightBracket
      · obtain ⟨rfl, rfl⟩ := brackets
        have inside : stop ∈ others := by
          rcases ends with rfl | rfl <;> simpa using member
        obtain ⟨left, memberLeft, skipped⟩ := skipDimensions_shared inside
        exact ⟨left, memberLeft, fun rest => (skipped rest)⟩
      · refine ⟨first :: second :: others, member, fun rest => ?_⟩
        rw [skipDimensions]
        intro _ same
        simp only [List.cons_append, List.cons.injEq] at same
        exact brackets ⟨same.1, same.2.1⟩

omit ends in
theorem skipBase?_single {inner : List Kind → Option (List Kind)} {kind second : Kind}
    {rest : List Kind} (notBound : second ≠ .symbol .less ∨ kind ∉
      [.keyword .mapKw, .keyword .xmlKw, .keyword .xmlDocumentKw, .keyword .jsonKw])
    (notQualified : second ≠ .symbol .colon ∨ kind ≠ .identifier ∨
      rest.head? ≠ some .identifier) :
    skipBase? inner (kind :: second :: rest) =
      if kind.startsType then some (second :: rest) else none := by
  unfold skipBase?
  split <;> simp_all

theorem mapBase_stopsWithin {inner : List Kind → Option (List Kind)} {others : List Kind}
    (within : StopsWithin inner stop) (member : stop ∈ others) :
    (∃ left, stop ∈ left ∧ ∀ rest,
        skipBase? inner (.keyword .mapKw :: .symbol .less :: others ++ rest) =
          some (left ++ rest)) ∨
      ∀ rest, skipBase? inner (.keyword .mapKw :: .symbol .less :: others ++ rest) = none := by
  rcases within others member with ⟨left, memberLeft, skipped⟩ | nothing
  · obtain ⟨next, left, rfl⟩ := List.exists_cons_of_ne_nil (List.ne_nil_of_mem memberLeft)
    by_cases closes : next = .symbol .greater
    · subst closes
      have insideLeft : stop ∈ left := mem_of_ends ends (by simp [Kind.endsType]) memberLeft
      exact .inl ⟨left, insideLeft, fun rest => by simp [skipBase?, skipped]⟩
    · exact .inr fun rest => by simp [skipBase?, skipped, closes]
  · exact .inr fun rest => by simp [skipBase?, nothing]

theorem singleBase_stopsWithin {inner : List Kind → Option (List Kind)} {kind : Kind}
    {others : List Kind} (member : stop ∈ kind :: others)
    (single : ∀ rest, skipBase? inner (kind :: others ++ rest) =
      if kind.startsType then some (others ++ rest) else none) :
    (∃ left, stop ∈ left ∧
        ∀ rest, skipBase? inner (kind :: others ++ rest) = some (left ++ rest)) ∨
      ∀ rest, skipBase? inner (kind :: others ++ rest) = none := by
  by_cases starts : kind.startsType = true
  · have notStop : ¬kind.endsType := by
      rintro (rfl | rfl) <;> cases starts
    exact .inl ⟨others, mem_of_ends ends notStop member, fun rest => by
      rw [single, if_pos starts]⟩
  · exact .inr fun rest => by rw [single, if_neg starts]

theorem skipBase?_stopsWithin {inner : List Kind → Option (List Kind)}
    (within : StopsWithin inner stop) : StopsWithin (skipBase? inner) stop := by
  intro shared member
  match shared with
  | [] => cases member
  | [kind] =>
      obtain rfl := List.mem_singleton.mp member
      exact .inr fun rest => by rcases ends with rfl | rfl <;> rfl
  | kind :: second :: others =>
      have inside (notKind : ¬kind.endsType) (notSecond : ¬second.endsType) : stop ∈ others :=
        mem_of_ends ends notSecond (mem_of_ends ends notKind member)
      by_cases angle : second = .symbol .less
      · subst angle
        have notAngle : ¬(Kind.symbol .less).endsType := by simp [Kind.endsType]
        by_cases isMap : kind = .keyword .mapKw
        · subst isMap
          exact mapBase_stopsWithin ends within (inside (by simp [Kind.endsType]) notAngle)
        by_cases isXml : kind = .keyword .xmlKw
        · subst isXml
          exact skipElement?_stopsWithin ends others (inside (by simp [Kind.endsType]) notAngle)
        by_cases isDocument : kind = .keyword .xmlDocumentKw
        · subst isDocument
          exact skipElement?_stopsWithin ends others (inside (by simp [Kind.endsType]) notAngle)
        by_cases isJson : kind = .keyword .jsonKw
        · subst isJson
          exact skipSchema?_stopsWithin ends others (inside (by simp [Kind.endsType]) notAngle)
        exact singleBase_stopsWithin ends member fun rest =>
          skipBase?_single (.inr (by simp [*])) (.inl (by simp))
      · by_cases qualified : second = .symbol .colon ∧ kind = .identifier ∧
          others.head? = some .identifier
        · obtain ⟨rfl, rfl, third⟩ := qualified
          have isOthers : stop ∈ others :=
            inside (by simp [Kind.endsType]) (by simp [Kind.endsType])
          obtain ⟨others, rfl⟩ := List.head?_eq_some_iff.mp third
          exact .inl ⟨others, mem_of_ends ends (by simp [Kind.endsType]) isOthers, fun rest => rfl⟩
        · refine singleBase_stopsWithin ends member fun rest => skipBase?_single (.inl angle) ?_
          by_cases colon : second = .symbol .colon ∧ kind = .identifier
          · -- With nothing shared behind the colon, one of these two would be the stop.
            have isOthers : stop ∈ others :=
              inside (by simp [colon, Kind.endsType]) (by simp [colon, Kind.endsType])
            obtain ⟨third, others, rfl⟩ := List.exists_cons_of_ne_nil (List.ne_nil_of_mem isOthers)
            refine .inr (.inr fun same => qualified ⟨colon.1, colon.2, ?_⟩)
            simpa using same
          · rcases Decidable.not_and_iff_or_not.mp colon with notColon | notName
            · exact .inl notColon
            · exact .inr (.inl notName)

theorem skipType?_stopsWithin (room : Nat) : StopsWithin (skipType? room) stop := by
  induction room with
  | zero => exact fun _ _ => .inr fun _ => rfl
  | succ room ih =>
      intro shared member
      rcases skipBase?_stopsWithin ends ih shared member with ⟨left, inside, skipped⟩ | nothing
      · obtain ⟨last, insideLast, skippedAll⟩ := skipDimensions_shared ends inside
        refine .inl ⟨last, insideLast, fun rest => ?_⟩
        rw [skipType?, skipped, Option.map_some, skippedAll]
      · exact .inr fun rest => by rw [skipType?, nothing, Option.map_none]

/-! ### Shapes -/

theorem startsVarDef_shared (room : Nat) {shared : List Kind} (member : stop ∈ shared)
    (left right : List Kind) :
    startsVarDef room (shared ++ left) = startsVarDef room (shared ++ right) := by
  rcases skipType?_stopsWithin ends room shared member with ⟨behind, inside, skipped⟩ | nothing
  · obtain ⟨kind, others, rfl⟩ := List.exists_cons_of_ne_nil (List.ne_nil_of_mem inside)
    by_cases isName : kind = .identifier
    · subst isName
      simp only [startsVarDef, skipped, List.cons_append]
    · simp [startsVarDef, skipped, isName]
  · simp only [startsVarDef, nothing]

end Skipping

theorem startsInvocation_iff {kinds : List Kind} :
    startsInvocation kinds = true ↔
      ∃ rest, kinds = [.identifier, .symbol .colon, .identifier, .symbol .dot, .identifier,
            .symbol .leftParen] ++ rest ∨
          kinds = [.identifier, .symbol .dot, .identifier, .symbol .leftParen] ++ rest := by
  constructor
  · intro starts
    unfold startsInvocation at starts
    split at starts
    · exact ⟨_, .inl rfl⟩
    · exact ⟨_, .inr rfl⟩
    · cases starts
  · rintro ⟨rest, rfl | rfl⟩ <;> rfl

theorem startsInvocation_shared {stop : Kind} (ends : stop.endsDefinition) {shared : List Kind}
    (member : stop ∈ shared) (left right : List Kind) :
    startsInvocation (shared ++ left) = startsInvocation (shared ++ right) := by
  have inert := Kind.isInert_of_endsDefinition ends
  have onwards (left right : List Kind) (starts : startsInvocation (shared ++ left) = true) :
      startsInvocation (shared ++ right) = true := by
    obtain ⟨rest, same | same⟩ := startsInvocation_iff.mp starts
    · obtain ⟨others, rfl, -⟩ :=
        prefix_of_shared member (Kind.notMem_of_isInert inert rfl) same
      exact startsInvocation_iff.mpr ⟨others ++ right, .inl (List.append_assoc _ _ _)⟩
    · obtain ⟨others, rfl, -⟩ :=
        prefix_of_shared member (Kind.notMem_of_isInert inert rfl) same
      exact startsInvocation_iff.mpr ⟨others ++ right, .inr (List.append_assoc _ _ _)⟩
  exact Bool.eq_iff_iff.mpr ⟨onwards left right, onwards right left⟩

/-- Where the shared kinds end, it does not matter which kind that ends a shape stands behind
them. -/
theorem startsInvocation_edge (shared : List Kind) {left right : Kind}
    (leftEnds : left.endsShape = true) (rightEnds : right.endsShape = true)
    (behindLeft behindRight : List Kind) :
    startsInvocation (shared ++ left :: behindLeft) =
      startsInvocation (shared ++ right :: behindRight) := by
  have onwards {left right : Kind} (ends : left.endsShape = true)
      {behindLeft : List Kind} (behindRight : List Kind)
      (starts : startsInvocation (shared ++ left :: behindLeft) = true) :
      startsInvocation (shared ++ right :: behindRight) = true := by
    obtain ⟨rest, same | same⟩ := startsInvocation_iff.mp starts
    · obtain ⟨others, rfl⟩ := prefix_of_edge (Kind.notMem_of_endsShape ends rfl) same
      exact startsInvocation_iff.mpr ⟨others ++ _, .inl (List.append_assoc _ _ _)⟩
    · obtain ⟨others, rfl⟩ := prefix_of_edge (Kind.notMem_of_endsShape ends rfl) same
      exact startsInvocation_iff.mpr ⟨others ++ _, .inr (List.append_assoc _ _ _)⟩
  exact Bool.eq_iff_iff.mpr ⟨onwards leftEnds _, onwards rightEnds _⟩

theorem startsJoinCondition_iff {kinds : List Kind} :
    startsJoinCondition kinds = true ↔
      ∃ rest, kinds = [.symbol .leftParen, .keyword .someKw] ++ rest ∨
        kinds = [.symbol .leftParen, .keyword .allKw] ++ rest ∨
        kinds = [.symbol .leftParen, .keyword .anyKw, .integer] ++ rest := by
  constructor
  · intro starts
    unfold startsJoinCondition at starts
    split at starts
    · exact ⟨_, .inl rfl⟩
    · exact ⟨_, .inr (.inl rfl)⟩
    · exact ⟨_, .inr (.inr rfl)⟩
    · cases starts
  · rintro ⟨rest, rfl | rfl | rfl⟩ <;> rfl

theorem startsJoinCondition_shared {stop : Kind} (ends : stop.endsDefinition)
    {shared : List Kind} (member : stop ∈ shared) (left right : List Kind) :
    startsJoinCondition (shared ++ left) = startsJoinCondition (shared ++ right) := by
  have inert := Kind.isInert_of_endsDefinition ends
  have onwards (left right : List Kind) (starts : startsJoinCondition (shared ++ left) = true) :
      startsJoinCondition (shared ++ right) = true := by
    obtain ⟨rest, same | same | same⟩ := startsJoinCondition_iff.mp starts
    · obtain ⟨others, rfl, -⟩ :=
        prefix_of_shared member (Kind.notMem_of_isInert inert rfl) same
      exact startsJoinCondition_iff.mpr ⟨others ++ right, .inl (List.append_assoc _ _ _)⟩
    · obtain ⟨others, rfl, -⟩ :=
        prefix_of_shared member (Kind.notMem_of_isInert inert rfl) same
      exact startsJoinCondition_iff.mpr
        ⟨others ++ right, .inr (.inl (List.append_assoc _ _ _))⟩
    · obtain ⟨others, rfl, -⟩ :=
        prefix_of_shared member (Kind.notMem_of_isInert inert rfl) same
      exact startsJoinCondition_iff.mpr
        ⟨others ++ right, .inr (.inr (List.append_assoc _ _ _))⟩
  exact Bool.eq_iff_iff.mpr ⟨onwards left right, onwards right left⟩

theorem startsJoinCondition_edge (shared : List Kind) {left right : Kind}
    (leftEnds : left.endsShape = true) (rightEnds : right.endsShape = true)
    (behindLeft behindRight : List Kind) :
    startsJoinCondition (shared ++ left :: behindLeft) =
      startsJoinCondition (shared ++ right :: behindRight) := by
  have onwards {left right : Kind} (ends : left.endsShape = true)
      {behindLeft : List Kind} (behindRight : List Kind)
      (starts : startsJoinCondition (shared ++ left :: behindLeft) = true) :
      startsJoinCondition (shared ++ right :: behindRight) = true := by
    obtain ⟨rest, same | same | same⟩ := startsJoinCondition_iff.mp starts
    · obtain ⟨others, rfl⟩ := prefix_of_edge (Kind.notMem_of_endsShape ends rfl) same
      exact startsJoinCondition_iff.mpr ⟨others ++ _, .inl (List.append_assoc _ _ _)⟩
    · obtain ⟨others, rfl⟩ := prefix_of_edge (Kind.notMem_of_endsShape ends rfl) same
      exact startsJoinCondition_iff.mpr ⟨others ++ _, .inr (.inl (List.append_assoc _ _ _))⟩
    · obtain ⟨others, rfl⟩ := prefix_of_edge (Kind.notMem_of_endsShape ends rfl) same
      exact startsJoinCondition_iff.mpr ⟨others ++ _, .inr (.inr (List.append_assoc _ _ _))⟩
  exact Bool.eq_iff_iff.mpr ⟨onwards leftEnds _, onwards rightEnds _⟩

theorem closesBareName_iff {kinds : List Kind} :
    closesBareName kinds = true ↔
      ∃ rest, kinds = [.identifier] ++ .symbol .rightParen :: rest ∨
          kinds = [.identifier, .symbol .colon, .identifier] ++ .symbol .rightParen :: rest := by
  constructor
  · intro closes
    unfold closesBareName at closes
    split at closes
    · exact ⟨_, .inl rfl⟩
    · exact ⟨_, .inr rfl⟩
    · cases closes
  · rintro ⟨rest, rfl | rfl⟩ <;> rfl

theorem closesBareName_shared {shared : List Kind} (member : .symbol .rightParen ∈ shared)
    (left right : List Kind) :
    closesBareName (shared ++ left) = closesBareName (shared ++ right) := by
  -- The parenthesis behind the name is shared, since one is.
  have closing {front left rest : List Kind} (notFront : .symbol .rightParen ∉ front)
      (same : shared ++ left = front ++ .symbol .rightParen :: rest) :
      ∃ others, shared = front ++ .symbol .rightParen :: others := by
    obtain ⟨others, rfl, inside⟩ := prefix_of_shared member notFront same
    obtain ⟨kind, others, rfl⟩ := List.exists_cons_of_ne_nil (List.ne_nil_of_mem inside)
    rw [List.append_assoc] at same
    have head := (List.cons.inj (List.append_cancel_left same)).1
    exact ⟨others, by rw [head]⟩
  have onwards (left right : List Kind) (closes : closesBareName (shared ++ left) = true) :
      closesBareName (shared ++ right) = true := by
    obtain ⟨rest, same | same⟩ := closesBareName_iff.mp closes
    · obtain ⟨others, rfl⟩ := closing (by simp) same
      exact closesBareName_iff.mpr ⟨others ++ right, .inl rfl⟩
    · obtain ⟨others, rfl⟩ := closing (by simp) same
      exact closesBareName_iff.mpr ⟨others ++ right, .inr rfl⟩
  exact Bool.eq_iff_iff.mpr ⟨onwards left right, onwards right left⟩

def opensOperand (kinds : List Kind) : Bool :=
  match kinds with
  | kind :: _ => kind.startsOperand
  | [] => false

theorem startsCast_within (room : Nat) {shared : List Kind}
    (member : .symbol .rightParen ∈ shared) {left right : List Kind}
    (sameHead : left.head? = right.head? ∨
      opensOperand left = false ∧ opensOperand right = false) :
    startsCast room (shared ++ left) = startsCast room (shared ++ right) := by
  cases shared with
  | nil => cases member
  | cons kind others =>
      by_cases opens : kind = .symbol .leftParen
      · subst opens
        have inside : .symbol .rightParen ∈ others := by simpa using member
        have bare := closesBareName_shared inside left right
        simp only [startsCast, List.cons_append]
        rcases skipType?_stopsWithin (.inl rfl) room others inside with
          ⟨behind, insideBehind, skipped⟩ | nothing
        · rw [skipped, skipped]
          obtain ⟨closing, behind, rfl⟩ :=
            List.exists_cons_of_ne_nil (List.ne_nil_of_mem insideBehind)
          cases behind with
          | nil =>
              obtain rfl := List.mem_singleton.mp insideBehind
              rcases sameHead with sameHead | ⟨leftOpens, rightOpens⟩
              · cases left with
                | nil =>
                    cases right with
                    | nil => rfl
                    | cons next right => cases sameHead
                | cons next left =>
                    cases right with
                    | nil => cases sameHead
                    | cons other right =>
                        cases sameHead
                        simp only [List.cons_append, List.nil_append, bare]
              · -- No operand follows on either side.
                cases left <;> cases right <;> simp_all [opensOperand]
          | cons next behind =>
              by_cases closes : closing = .symbol .rightParen
              · subst closes
                simp only [List.cons_append, bare]
              · simp [closes]
        · rw [nothing, nothing]
      · simp [startsCast, opens]

theorem startsCast_shared (room : Nat) {shared : List Kind}
    (member : .symbol .rightParen ∈ shared) {left right : List Kind}
    (sameHead : left.head? = right.head?) :
    startsCast room (shared ++ left) = startsCast room (shared ++ right) :=
  startsCast_within room member (.inl sameHead)

end ServiceLang
