import ServiceLang.Proofs.Balance
import ServiceLang.Proofs.Place

set_option autoImplicit false

/-! Skipping inside a body never leaves it. No brace is closed that has not been skipped, no
definition is entered, and where no skipped brace is open, the first semicolon and the first block
are the last that is skipped, and no token is that opens what can be read next. -/

namespace ServiceLang

/-! ### Braces with partners -/

/-- Every brace among the tokens has its partner among them. -/
inductive BracesMatch : List Kind → Prop
  | nil : BracesMatch []
  | other {kind : Kind} {rest : List Kind} (notOpening : kind ≠ .symbol .leftBrace)
      (notClosing : kind ≠ .symbol .rightBrace) (behind : BracesMatch rest) :
      BracesMatch (kind :: rest)
  | block {inner rest : List Kind} (inside : BracesMatch inner) (behind : BracesMatch rest) :
      BracesMatch (.symbol .leftBrace :: (inner ++ .symbol .rightBrace :: rest))

namespace BracesMatch

variable {kinds others : List Kind}

theorem append (here : BracesMatch kinds) (there : BracesMatch others) :
    BracesMatch (kinds ++ others) := by
  induction here with
  | nil => exact there
  | other notOpening notClosing _ ih => exact .other notOpening notClosing ih
  | block inside _ _ ih =>
      rw [List.cons_append, List.append_assoc]
      exact .block inside ih

theorem surplus (here : BracesMatch kinds) : braceSurplus kinds = 0 := by
  induction here with
  | nil => rfl
  | other notOpening notClosing _ ih =>
      rw [braceSurplus.other notOpening notClosing]
      exact ih
  | block _ _ inside behind =>
      rw [braceSurplus.opening, braceSurplus.append, braceSurplus.closing]
      omega

end BracesMatch

/-- So many opening braces among the tokens have no partner, and all others have one. -/
inductive LeavesOpen : Nat → List Kind → Prop
  | none {kinds : List Kind} (all : BracesMatch kinds) : LeavesOpen 0 kinds
  | more {depth : Nat} {outer inner : List Kind} (outside : LeavesOpen depth outer)
      (inside : BracesMatch inner) :
      LeavesOpen (depth + 1) (outer ++ .symbol .leftBrace :: inner)

namespace LeavesOpen

variable {depth : Nat} {kinds others : List Kind}

theorem surplus (leaves : LeavesOpen depth kinds) : braceSurplus kinds = depth := by
  induction leaves with
  | none all => exact all.surplus
  | more _ inside ih =>
      rw [braceSurplus.append, braceSurplus.opening, inside.surplus, ih]
      omega

theorem depth_eq_zero (leaves : LeavesOpen depth kinds) (all : BracesMatch kinds) : depth = 0 := by
  have here := leaves.surplus
  rw [all.surplus] at here
  omega

theorem append (leaves : LeavesOpen depth kinds) (all : BracesMatch others) :
    LeavesOpen depth (kinds ++ others) := by
  cases leaves with
  | none allToo => exact .none (allToo.append all)
  | more outside inside =>
      rw [List.append_assoc, List.cons_append]
      exact .more outside (inside.append all)

theorem opening (leaves : LeavesOpen depth kinds) :
    LeavesOpen (depth + 1) (kinds ++ [.symbol .leftBrace]) :=
  .more leaves .nil

theorem other {kind : Kind} (leaves : LeavesOpen depth kinds)
    (notOpening : kind ≠ .symbol .leftBrace) (notClosing : kind ≠ .symbol .rightBrace) :
    LeavesOpen depth (kinds ++ [kind]) :=
  leaves.append (.other notOpening notClosing .nil)

theorem partner (leaves : LeavesOpen (depth + 1) kinds) :
    ∃ outer inner, kinds = outer ++ .symbol .leftBrace :: inner ∧ LeavesOpen depth outer ∧
      BracesMatch inner := by
  cases leaves with
  | more outside inside => exact ⟨_, _, rfl, outside, inside⟩

theorem closing (leaves : LeavesOpen (depth + 1) kinds) :
    LeavesOpen depth (kinds ++ [.symbol .rightBrace]) := by
  obtain ⟨outer, inner, rfl, outside, inside⟩ := leaves.partner
  rw [List.append_assoc, List.cons_append]
  exact outside.append (.block inside .nil)

end LeavesOpen

/-! ### Where reading resumes -/

/-- The tokens that reading resumes at: a word that opens a statement, a worker, and among
members also what opens a resource, an action or an attachment. -/
inductive SyncPoint.Resumes : SyncPoint → Kind → Prop
  | statement (sync : SyncPoint) {word : Keyword}
      (opens : word ∈ [.varKw, .ifKw, .iterateKw, .whileKw, .continueKw, .breakKw, .forkKw,
        .tryKw, .throwKw, .returnKw, .replyKw, .transformKw, .transactionKw, .abortKw,
        .xmlnsKw]) : Resumes sync (.keyword word)
  | worker (sync : SyncPoint) : Resumes sync (.keyword .workerKw)
  | member {kind : Kind}
      (opens : kind ∈ [.keyword .resourceKw, .keyword .actionKw, .symbol .atSign]) :
      Resumes .member kind

theorem SyncPoint.resumesAt_iff {sync : SyncPoint} {kind : Kind} :
    sync.resumesAt kind = true ↔ sync.Resumes kind := by
  constructor
  · intro resumes
    rw [resumesAt, Bool.or_eq_true, Bool.or_eq_true, Bool.and_eq_true] at resumes
    rcases resumes with (opens | isWorker) | ⟨isMember, opens⟩
    · cases kind with
      | keyword word =>
          refine .statement sync ?_
          cases word <;> first | exact absurd opens (by decide) | decide
      | _ => cases opens
    · cases beq_iff_eq.mp isWorker
      exact .worker sync
    · cases beq_iff_eq.mp isMember
      exact .member (of_decide_eq_true opens)
  · intro resumes
    cases resumes with
    | statement _ opens =>
        have listed : ∀ word ∈ [Keyword.varKw, .ifKw, .iterateKw, .whileKw, .continueKw, .breakKw,
            .forkKw, .tryKw, .throwKw, .returnKw, .replyKw, .transformKw, .transactionKw, .abortKw,
            .xmlnsKw], word.startsStatement = true := by
          decide
        simp [resumesAt, Kind.startsStatement, listed _ opens]
    | worker => simp [resumesAt]
    | member opens => simp [resumesAt, opens]

/-! ### What is skipped -/

/-- What may be skipped in a body behind the tokens in `front`, which have been skipped already.
`past` says whether this is behind the place where the broken part began. -/
structure IsSkip (sync : SyncPoint) (past : Prop) (front passed : List Kind) : Prop where
  /-- A closing brace is the partner of one that has been skipped. -/
  closes : ∀ before behind, passed = before ++ .symbol .rightBrace :: behind →
    ∃ outer inner, front ++ before = outer ++ .symbol .leftBrace :: inner ∧ BracesMatch inner
  entersNothing : ∀ kind ∈ passed, kind.startsDefinition = false
  /-- A semicolon in no skipped brace is the last token. -/
  endsStatement : ∀ before behind, passed = before ++ .symbol .semicolon :: behind →
    BracesMatch (front ++ before) → behind = []
  /-- A brace that closes the outermost skipped one is the last token. -/
  endsBlock : ∀ before behind outer inner, passed = before ++ .symbol .rightBrace :: behind →
    front ++ before = outer ++ .symbol .leftBrace :: inner → BracesMatch outer →
    BracesMatch inner → behind = []
  /-- In no skipped brace is a token that reading resumes at, but where the broken part began. -/
  resumesNowhere : ∀ before kind behind, passed = before ++ kind :: behind →
    BracesMatch (front ++ before) → past ∨ before ≠ [] → ¬sync.Resumes kind

namespace IsSkip

variable {sync : SyncPoint} {past : Prop} {front passed : List Kind}

theorem nil (front : List Kind) : IsSkip sync past front [] := by
  constructor <;> simp

theorem congr {others : Prop} (same : past ↔ others) (skip : IsSkip sync past front passed) :
    IsSkip sync others front passed :=
  propext same ▸ skip

theorem cons {kind : Kind} (free : kind.startsDefinition = false)
    (closes : kind = .symbol .rightBrace →
      ∃ outer inner, front = outer ++ .symbol .leftBrace :: inner ∧ BracesMatch inner)
    (endsStatement : kind = .symbol .semicolon → BracesMatch front → passed = [])
    (endsBlock : kind = .symbol .rightBrace → ∀ outer inner,
      front = outer ++ .symbol .leftBrace :: inner → BracesMatch outer → BracesMatch inner →
        passed = [])
    (noPlace : BracesMatch front → past → ¬sync.Resumes kind)
    (rest : IsSkip sync True (front ++ [kind]) passed) :
    IsSkip sync past front (kind :: passed) where
  closes before behind split := by
    cases before with
    | nil =>
        rw [List.append_nil]
        exact closes (List.cons.inj split).1
    | cons first before =>
        obtain ⟨rfl, later⟩ := List.cons.inj split
        rw [List.append_cons]
        exact rest.closes before behind later
  entersNothing := List.forall_mem_cons.mpr ⟨free, rest.entersNothing⟩
  endsStatement before behind split closed := by
    cases before with
    | nil =>
        obtain ⟨isSemicolon, rfl⟩ := List.cons.inj split
        rw [List.append_nil] at closed
        exact endsStatement isSemicolon closed
    | cons first before =>
        obtain ⟨rfl, later⟩ := List.cons.inj split
        rw [List.append_cons] at closed
        exact rest.endsStatement before behind later closed
  endsBlock before behind outer inner split opened outside inside := by
    cases before with
    | nil =>
        obtain ⟨isBrace, rfl⟩ := List.cons.inj split
        rw [List.append_nil] at opened
        exact endsBlock isBrace outer inner opened outside inside
    | cons first before =>
        obtain ⟨rfl, later⟩ := List.cons.inj split
        rw [List.append_cons] at opened
        exact rest.endsBlock before behind outer inner later opened outside inside
  resumesNowhere before other behind split closed isPast := by
    cases before with
    | nil =>
        obtain ⟨rfl, -⟩ := List.cons.inj split
        rw [List.append_nil] at closed
        exact noPlace closed (isPast.resolve_right fun more => more rfl)
    | cons first before =>
        obtain ⟨rfl, later⟩ := List.cons.inj split
        rw [List.append_cons] at closed
        exact rest.resumesNowhere before other behind later closed (.inl trivial)

/-- Reading does not resume at a brace or a semicolon. -/
theorem not_resumes_symbol {symbol : Symbol} (notAt : symbol ≠ .atSign) :
    ¬sync.Resumes (.symbol symbol) := by
  intro resumes
  cases resumes with
  | member opens =>
      simp only [List.mem_cons, List.not_mem_nil, reduceCtorEq, false_or, or_false] at opens
      exact notAt (Kind.symbol.inj opens)

theorem cons_other {kind : Kind} {depth : Nat} (leaves : LeavesOpen depth front)
    (free : kind.startsDefinition = false) (notClosing : kind ≠ .symbol .rightBrace)
    (level : ¬(kind = .symbol .semicolon ∧ depth = 0))
    (noPlace : depth = 0 → past → ¬sync.Resumes kind)
    (rest : IsSkip sync True (front ++ [kind]) passed) : IsSkip sync past front (kind :: passed) :=
  cons free (fun isBrace => absurd isBrace notClosing)
    (fun isSemicolon closed => absurd ⟨isSemicolon, leaves.depth_eq_zero closed⟩ level)
    (fun isBrace => absurd isBrace notClosing)
    (fun closed => noPlace (leaves.depth_eq_zero closed)) rest

theorem cons_closing {depth : Nat} (leaves : LeavesOpen (depth + 1) front)
    (last : depth = 0 → passed = [])
    (rest : IsSkip sync True (front ++ [.symbol .rightBrace]) passed) :
    IsSkip sync past front (.symbol .rightBrace :: passed) := by
  refine cons rfl (fun _ => ?_) nofun (fun _ outer inner split outside inside => ?_)
    (fun _ _ => not_resumes_symbol (by decide)) rest
  · obtain ⟨outer, inner, split, -, inside⟩ := leaves.partner
    exact ⟨outer, inner, split, inside⟩
  · have opened := leaves.surplus
    rw [split, braceSurplus.append, braceSurplus.opening, outside.surplus, inside.surplus] at opened
    exact last (by omega)

end IsSkip

/-- Where skipping in a body stops: what has been skipped, and what stands next. `past` says
whether this is behind the place where the broken part began. -/
inductive SyncStop (sync : SyncPoint) (past : Prop) : List Kind → Kind → Prop
  | endOfFile (passed : List Kind) : SyncStop sync past passed .endOfFile
  | definition (passed : List Kind) {next : Kind} (starts : next.startsDefinition = true) :
      SyncStop sync past passed next
  | unmatched {passed : List Kind} (closed : BracesMatch passed) :
      SyncStop sync past passed (.symbol .rightBrace)
  | semicolon {passed : List Kind} (closed : BracesMatch passed) (next : Kind) :
      SyncStop sync past (passed ++ [.symbol .semicolon]) next
  | block {outer inner : List Kind} (outside : BracesMatch outer) (inside : BracesMatch inner)
      (next : Kind) :
      SyncStop sync past (outer ++ .symbol .leftBrace :: inner ++ [.symbol .rightBrace]) next
  | resumes {passed : List Kind} {next : Kind} (closed : BracesMatch passed) (isPast : past)
      (resumes : sync.Resumes next) : SyncStop sync past passed next

/-- The loop, from any of its turns on: `depth` braces of what has been skipped are open. -/
theorem isSkip_of_syncLength (sync : SyncPoint) (moved : Bool) (depth : Nat) (kinds : List Kind)
    {front : List Kind} (leaves : LeavesOpen depth front) {past : Prop}
    (isPast : moved = true ∨ 0 < syncLength sync moved depth kinds → past) :
    IsSkip sync (moved = true) front (kinds.take (syncLength sync moved depth kinds)) ∧
      SyncStop sync past (front ++ kinds.take (syncLength sync moved depth kinds))
        ((kinds.drop (syncLength sync moved depth kinds)).head?.getD .endOfFile) := by
  -- By induction along the loop: what has been skipped so far leaves `depth` braces open.
  fun_induction syncLength sync moved depth kinds generalizing front with
  | case1 => exact ⟨.nil front, .endOfFile _⟩
  | case2 moved depth kind rest semicolon =>
      obtain ⟨rfl, rfl⟩ := semicolon
      have noBrace : Kind.symbol .semicolon ≠ .symbol .rightBrace := by decide
      cases leaves with
      | none closed =>
          exact ⟨.cons rfl (absurd · noBrace) (fun _ _ => rfl) (absurd · noBrace)
            (fun _ _ => IsSkip.not_resumes_symbol (by decide)) (.nil _), .semicolon closed _⟩
  | case3 moved depth rest notSemicolon ih =>
      obtain ⟨skip, stop⟩ := ih leaves.opening fun _ => isPast (.inr (by omega))
      rw [Nat.add_comm, List.take_succ_cons, List.drop_succ_cons, List.append_cons]
      exact ⟨.cons_other leaves rfl (by decide) notSemicolon
        (fun _ _ => IsSkip.not_resumes_symbol (by decide)) (skip.congr (iff_true_intro rfl)), stop⟩
  | case4 moved rest =>
      cases leaves with
      | none closed =>
          refine ⟨.nil front, ?_⟩
          rw [List.take_zero, List.append_nil]
          exact .unmatched closed
  | case5 moved rest =>
      refine ⟨.cons_closing leaves (fun _ => rfl) (.nil _), ?_⟩
      obtain ⟨outer, inner, rfl, outside, inside⟩ := leaves.partner
      cases outside with
      | none closed => exact .block closed inside _
  | case6 moved rest depth notSemicolon notOpening ih =>
      obtain ⟨skip, stop⟩ := ih leaves.closing fun _ => isPast (.inr (by omega))
      rw [Nat.add_comm, List.take_succ_cons, List.drop_succ_cons, List.append_cons]
      exact ⟨.cons_closing leaves (absurd · (Nat.succ_ne_zero depth))
        (skip.congr (iff_true_intro rfl)), stop⟩
  | case7 moved depth kind rest _ _ _ starts =>
      exact ⟨.nil front, .definition _ starts⟩
  | case8 moved depth kind rest _ _ _ _ resumes =>
      obtain ⟨rfl, isMoved, resumes⟩ := resumes
      cases leaves with
      | none closed =>
          refine ⟨.nil front, ?_⟩
          rw [List.take_zero, List.append_nil]
          exact .resumes closed (isPast (.inl isMoved)) (SyncPoint.resumesAt_iff.mp resumes)
  | case9 moved depth kind rest notSemicolon notOpening notClosing free passes ih =>
      obtain ⟨skip, stop⟩ := ih (leaves.other notOpening notClosing)
        fun _ => isPast (.inr (by omega))
      rw [Nat.add_comm, List.take_succ_cons, List.drop_succ_cons, List.append_cons]
      have noPlace : depth = 0 → moved = true → ¬sync.Resumes kind :=
        fun level isMoved resumes =>
          passes ⟨level, isMoved, SyncPoint.resumesAt_iff.mpr resumes⟩
      exact ⟨.cons_other leaves (Bool.not_eq_true _ ▸ free) notClosing notSemicolon noPlace
        (skip.congr (iff_true_intro rfl)), stop⟩

/-! ### Skipping from a place -/

namespace Cursor

variable {buffer : List Slot} {position : Nat} {cursor : Cursor}

theorem At.advanceBy (place : cursor.At buffer position) {count : Nat}
    (within : count ≤ cursor.remaining) :
    (cursor.advanceBy count).At buffer (position + count) := by
  induction count generalizing cursor position with
  | zero => exact place
  | succ count ih =>
      have further : cursor.advance.At buffer (position + 1) := place.advance (by omega)
      have left : count ≤ cursor.advance.remaining := by
        rw [remaining_advance]
        omega
      rw [← Nat.add_assoc, Nat.add_right_comm]
      exact ih further left

/-- The kinds of the tokens from a place on, as long as the source does not end. -/
theorem At.kinds_take (place : cursor.At buffer position) {count : Nat}
    (within : count ≤ cursor.remaining) :
    cursor.kinds.take count = ((buffer.drop position).take count).map (·.token.kind) := by
  rw [← place.rest, List.take_append_of_le_length within, kinds, List.map_take]

/-- Skipping in a body from any place of any tokens, for a part that began there or before. The
number of tokens counted is that of the tokens passed over; these stay within the body, reading
could resume at none of them, and skipping stops where it should. -/
theorem sync_isSkip {tokens : List Token} {start : Cursor} {first : Nat}
    (stands : cursor.At (Slot.buffer tokens) position)
    (began : start.At (Slot.buffer tokens) first) (behind : first ≤ position) (point : SyncPoint) :
    let count := syncLength point (cursor.remaining < start.remaining) 0 cursor.kinds
    let passed := (((Slot.buffer tokens).drop position).take count).map (·.token.kind)
    let later := cursor.sync start point
    later.At (Slot.buffer tokens) (position + count) ∧
      IsSkip point (first < position) [] passed ∧
      SyncStop point (first < position + count) passed later.peek.kind := by
  intro count passed later
  have within : count ≤ cursor.remaining := by
    have bounded := syncLength_le point (cursor.remaining < start.remaining) 0 cursor.kinds
    rwa [kinds, List.length_map] at bounded
  -- The loop is told by the number of tokens ahead whether it is past the start.
  have moved : decide (cursor.remaining < start.remaining) = true ↔ first < position := by
    have here := stands.length_eq
    have there := began.length_eq
    rw [decide_eq_true_eq]
    omega
  have isPast : decide (cursor.remaining < start.remaining) = true ∨ 0 < count →
      first < position + count := by
    rw [moved]
    omega
  obtain ⟨skip, stop⟩ := isSkip_of_syncLength point (cursor.remaining < start.remaining) 0
    cursor.kinds (.none .nil) isPast
  rw [stands.kinds_take within] at skip stop
  refine ⟨stands.advanceBy within, skip.congr moved, ?_⟩
  rw [kind_peek]
  change SyncStop _ _ _ ((cursor.advanceBy count).kinds.head?.getD _)
  rw [kinds_advanceBy]
  exact stop

def nestedBlocks : List Token :=
  (tokenize "if junk \x7b a; \x7b b; \x7d \x7d next = 1;").1

/-- The inner block and the semicolons in it are passed over, and the outer block is the last. -/
theorem sync_isSkip_nestedBlocks :
    let start := Cursor.ofTokens nestedBlocks
    let later := start.advance.sync start .statement
    later.At (Slot.buffer nestedBlocks) 10 ∧ later.peek.lexeme = "next" ∧
      IsSkip .statement (0 < 1) [] [.identifier, .symbol .leftBrace, .identifier, .symbol .semicolon,
        .symbol .leftBrace, .identifier, .symbol .semicolon, .symbol .rightBrace,
        .symbol .rightBrace] := by
  intro start later
  have began : start.At (Slot.buffer nestedBlocks) 0 := .ofTokens _
  have stands : start.advance.At (Slot.buffer nestedBlocks) 1 := began.advance (by decide +kernel)
  have count : syncLength .statement (start.advance.remaining < start.remaining) 0
      start.advance.kinds = 9 := by
    decide +kernel
  obtain ⟨place, skip, -⟩ := sync_isSkip stands began (Nat.zero_le 1) .statement
  rw [count] at place skip
  refine ⟨place, by decide +kernel, ?_⟩
  have passed : (((Slot.buffer nestedBlocks).drop 1).take 9).map (·.token.kind) =
      [.identifier, .symbol .leftBrace, .identifier, .symbol .semicolon, .symbol .leftBrace,
        .identifier, .symbol .semicolon, .symbol .rightBrace, .symbol .rightBrace] := by
    decide +kernel
  rwa [passed] at skip

end Cursor

end ServiceLang
