import ServiceLang.Proofs.Orderly

set_option autoImplicit false

/-! Skipping behind an error. No more tokens are skipped than there are, and the
skipped ones open no definition; only the token at which the broken part began
may do that. -/

namespace ServiceLang

/-! ### What is skipped -/

/-- Skipping one more token, which opens no definition. -/
theorem startsDefinition_of_take_succ {kind : Kind} {rest : List Kind} (count : Nat)
    (here : kind.startsDefinition = false)
    (others : ∀ other ∈ rest.take count, other.startsDefinition = false) :
    ∀ other ∈ (kind :: rest).take (1 + count), other.startsDefinition = false := by
  rw [Nat.add_comm, List.take_succ_cons]
  intro other member
  rcases List.mem_cons.mp member with rfl | member
  · exact here
  · exact others other member

theorem syncLength_le (sync : SyncPoint) (moved : Bool) (depth : Nat) (kinds : List Kind) :
    syncLength sync moved depth kinds ≤ kinds.length := by
  fun_induction syncLength sync moved depth kinds with
  | case1 => exact Nat.le_refl 0
  | case2 | case5 => exact Nat.le_add_left 1 _
  | case4 | case7 | case8 => exact Nat.zero_le _
  | case3 moved depth rest notSemicolon ih => rw [List.length_cons]; omega
  | case6 moved rest depth notBrace notSemicolon ih => rw [List.length_cons]; omega
  | case9 moved depth kind rest _ _ _ _ _ ih => rw [List.length_cons]; omega

theorem startsDefinition_of_syncLength (sync : SyncPoint) (moved : Bool) (depth : Nat)
    (kinds : List Kind) :
    ∀ kind ∈ kinds.take (syncLength sync moved depth kinds), kind.startsDefinition = false := by
  fun_induction syncLength sync moved depth kinds with
  | case1 | case4 | case7 | case8 => intro kind member; cases member
  | case2 moved depth kind rest semicolon =>
      exact startsDefinition_of_take_succ 0 (by rw [semicolon.1]; rfl)
        (fun _ member => by cases member)
  | case5 moved rest =>
      exact startsDefinition_of_take_succ 0 rfl (fun _ member => by cases member)
  | case3 moved depth rest notSemicolon ih => exact startsDefinition_of_take_succ _ rfl ih
  | case6 moved rest depth notBrace notSemicolon ih => exact startsDefinition_of_take_succ _ rfl ih
  | case9 moved depth kind rest _ _ _ inside _ ih =>
      exact startsDefinition_of_take_succ _ (Bool.not_eq_true _ ▸ inside) ih

theorem definitionSyncLength_le (depth : Nat) (kinds : List Kind) :
    definitionSyncLength depth kinds ≤ kinds.length := by
  fun_induction definitionSyncLength depth kinds with
  | case1 => exact Nat.le_refl 0
  | case2 | case5 => exact Nat.le_add_left 1 _
  | case4 rest =>
      have braces := (List.takeWhile_prefix (l := rest) (· == Kind.symbol .rightBrace)).length_le
      rw [List.length_cons]
      omega
  | case7 | case8 => exact Nat.zero_le _
  | case3 depth rest notSemicolon ih => rw [List.length_cons]; omega
  | case6 rest depth notBrace notSemicolon ih => rw [List.length_cons]; omega
  | case9 depth kind rest _ _ _ _ _ ih => rw [List.length_cons]; omega

theorem eq_rightBrace_of_mem_takeWhile {kind : Kind} {kinds : List Kind}
    (member : kind ∈ kinds.takeWhile (· == .symbol .rightBrace)) : kind = .symbol .rightBrace :=
  beq_iff_eq.mp
    (List.all_eq_true.mp (List.all_takeWhile (p := (· == Kind.symbol .rightBrace))) kind member)

theorem startsDefinition_of_definitionSyncLength (depth : Nat) (kinds : List Kind) :
    ∀ kind ∈ kinds.take (definitionSyncLength depth kinds), kind.startsDefinition = false := by
  fun_induction definitionSyncLength depth kinds with
  | case1 | case7 | case8 => intro kind member; cases member
  | case2 depth kind rest semicolon =>
      exact startsDefinition_of_take_succ 0 (by rw [semicolon.1]; rfl)
        (fun _ member => by cases member)
  | case4 rest =>
      refine startsDefinition_of_take_succ _ rfl fun other member => ?_
      rw [← List.prefix_iff_eq_take.mp (List.takeWhile_prefix _)] at member
      have brace := eq_rightBrace_of_mem_takeWhile member
      rw [brace]
      rfl
  | case5 rest =>
      exact startsDefinition_of_take_succ 0 rfl (fun _ member => by cases member)
  | case3 depth rest notSemicolon ih => exact startsDefinition_of_take_succ _ rfl ih
  | case6 rest depth notBrace notSemicolon ih => exact startsDefinition_of_take_succ _ rfl ih
  | case9 depth kind rest _ _ _ inside _ ih =>
      exact startsDefinition_of_take_succ _ (Bool.not_eq_true _ ▸ inside) ih

/-! ### The count of open braces -/

/-- With so many braces open, no closing brace in a list is one too many at its
end. -/
def BracesWithin (depth : Nat) (kinds : List Kind) : Prop :=
  kinds.count (.symbol .rightBrace) ≤ depth + kinds.count (.symbol .leftBrace)

namespace BracesWithin

theorem nil (depth : Nat) : BracesWithin depth [] :=
  Nat.zero_le _

theorem opening {depth : Nat} {kinds : List Kind} (rest : BracesWithin (depth + 1) kinds) :
    BracesWithin depth (.symbol .leftBrace :: kinds) := by
  unfold BracesWithin at *
  rw [List.count_cons_self, List.count_cons_of_ne (by simp)]
  omega

theorem closing {depth : Nat} {kinds : List Kind} (rest : BracesWithin depth kinds) :
    BracesWithin (depth + 1) (.symbol .rightBrace :: kinds) := by
  unfold BracesWithin at *
  rw [List.count_cons_self, List.count_cons_of_ne (by simp)]
  omega

theorem other {depth : Nat} {kind : Kind} {kinds : List Kind}
    (notOpening : kind ≠ .symbol .leftBrace) (notClosing : kind ≠ .symbol .rightBrace)
    (rest : BracesWithin depth kinds) : BracesWithin depth (kind :: kinds) := by
  unfold BracesWithin at *
  rwa [List.count_cons_of_ne notOpening, List.count_cons_of_ne notClosing]

end BracesWithin

/-- In a body a closing brace is passed over only while one is open, so that the
count of open braces is never taken below zero. -/
theorem bracesWithin_of_syncLength (sync : SyncPoint) (moved : Bool) (depth : Nat)
    (kinds : List Kind) (taken : Nat) (passed : taken ≤ syncLength sync moved depth kinds) :
    BracesWithin depth (kinds.take taken) := by
  fun_induction syncLength sync moved depth kinds generalizing taken with
  | case1 | case4 | case7 | case8 =>
      obtain rfl : taken = 0 := Nat.le_zero.mp passed
      exact .nil _
  | case2 moved depth kind rest semicolon =>
      rw [semicolon.1]
      rcases Nat.le_one_iff_eq_zero_or_eq_one.mp passed with rfl | rfl
      · exact .nil _
      · exact .other (by simp) (by simp) (.nil _)
  | case5 moved rest =>
      rcases Nat.le_one_iff_eq_zero_or_eq_one.mp passed with rfl | rfl
      · exact .nil _
      · exact .closing (.nil _)
  | case3 moved depth rest notSemicolon ih =>
      cases taken with
      | zero => exact .nil _
      | succ taken => exact .opening (ih taken (by omega))
  | case6 moved rest depth notBrace notSemicolon ih =>
      cases taken with
      | zero => exact .nil _
      | succ taken => exact .closing (ih taken (by omega))
  | case9 moved depth kind rest _ notOpening notClosing _ _ ih =>
      cases taken with
      | zero => exact .nil _
      | succ taken => exact .other notOpening notClosing (ih taken (by omega))

/-- Between definitions, too, except that a run of unmatched closing braces is
passed over without counting. -/
theorem bracesWithin_of_definitionSyncLength (depth : Nat) (kinds : List Kind) (taken : Nat)
    (passed : taken ≤ definitionSyncLength depth kinds) :
    BracesWithin depth (kinds.take taken) ∨
      ∃ counted, BracesWithin depth (kinds.take counted) ∧
        ∀ kind ∈ (kinds.take taken).drop counted, kind = .symbol .rightBrace := by
  fun_induction definitionSyncLength depth kinds generalizing taken with
  | case1 | case7 | case8 =>
      obtain rfl : taken = 0 := Nat.le_zero.mp passed
      exact .inl (.nil _)
  | case2 depth kind rest semicolon =>
      left
      rw [semicolon.1]
      rcases Nat.le_one_iff_eq_zero_or_eq_one.mp passed with rfl | rfl
      · exact .nil _
      · exact .other (by simp) (by simp) (.nil _)
  | case5 rest =>
      left
      rcases Nat.le_one_iff_eq_zero_or_eq_one.mp passed with rfl | rfl
      · exact .nil _
      · exact .closing (.nil _)
  | case4 rest =>
      refine .inr ⟨0, .nil _, fun kind member => ?_⟩
      have inRun := List.take_subset_take_left _ passed member
      rw [Nat.add_comm, List.take_succ_cons,
        ← List.prefix_iff_eq_take.mp (List.takeWhile_prefix _)] at inRun
      rcases List.mem_cons.mp inRun with rfl | inRun
      · rfl
      · exact eq_rightBrace_of_mem_takeWhile inRun
  | case3 depth rest notSemicolon ih =>
      cases taken with
      | zero => exact .inl (.nil _)
      | succ taken =>
          rcases ih taken (by omega) with within | ⟨counted, within, braces⟩
          · exact .inl (.opening within)
          · exact .inr ⟨counted + 1, .opening within, braces⟩
  | case6 rest depth notBrace notSemicolon ih =>
      cases taken with
      | zero => exact .inl (.nil _)
      | succ taken =>
          rcases ih taken (by omega) with within | ⟨counted, within, braces⟩
          · exact .inl (.closing within)
          · exact .inr ⟨counted + 1, .closing within, braces⟩
  | case9 depth kind rest _ notOpening notClosing _ _ ih =>
      cases taken with
      | zero => exact .inl (.nil _)
      | succ taken =>
          rcases ih taken (by omega) with within | ⟨counted, within, braces⟩
          · exact .inl (.other notOpening notClosing within)
          · exact .inr ⟨counted + 1, .other notOpening notClosing within, braces⟩

/-! ### Skipping as a run -/

namespace Cursor

theorem advanceIfStill_eq (cursor start : Cursor) :
    cursor.advanceIfStill start =
      cursor.advanceBy (if cursor.remaining = start.remaining then 1 else 0) := by
  rw [advanceIfStill]
  split <;> rfl

/-- A place before a token that opens no definition is open. -/
theorem IsOpen.of_startsDefinition {cursor : Cursor}
    (free : cursor.peek.kind.startsDefinition = false) : cursor.IsOpen := by
  left
  cases barrier : cursor.peek.kind.isBarrier with
  | false => rfl
  | true =>
      rw [Kind.startsDefinition_of_isBarrier barrier] at free
      contradiction

end Cursor

namespace Step

variable {α σ : Type} {legal : Cursor → Prop} [permissive : Permissive legal]

namespace Run

variable {parser : Parser}

/-- Going to a place ahead, over one token if the step has not moved yet and then
over tokens that open no definition. -/
theorem skip {start target : Cursor} {count : Nat}
    (isTarget : target = (parser.cursor.advanceIfStill start).advanceBy count)
    (free : ∀ kind ∈ (parser.cursor.advanceIfStill start).kinds.take count,
      kind.startsDefinition = false)
    (isLegal : parser.cursor.remaining = start.remaining → legal parser.cursor) :
    RunsIn legal (modify fun parser => { parser with cursor := target } : Step Unit) parser := by
  rw [Cursor.advanceIfStill_eq] at isTarget free
  rw [← Cursor.advanceBy_add] at isTarget
  refine .move ((if parser.cursor.remaining = start.remaining then 1 else 0) + count)
    (fun other _ => ?_) trivial fun passed less more => ?_
  · rw [← isTarget]
    rfl
  · by_cases first : passed < if parser.cursor.remaining = start.remaining then 1 else 0
    · split at first
      · rename_i still
        obtain rfl : passed = 0 := by omega
        exact isLegal still
      · omega
    · obtain ⟨behind, rfl⟩ := Nat.exists_eq_add_of_le (Nat.le_of_not_lt first)
      rw [Cursor.advanceBy_add] at more ⊢
      exact permissive.ofIsOpen _ (.of_startsDefinition
        (free _ (Cursor.kind_mem_take _ (by omega) more)))

theorem recover {point : SyncPoint} {start : Cursor} {diagnostic : Diagnostic}
    (complains : diagnostic.IsComplaint)
    (isLegal : parser.cursor.remaining = start.remaining → legal parser.cursor) :
    RunsIn legal (Step.recover point start diagnostic) parser := by
  refine lookThen (fun _ alike => cursor_alike alike) ?_
  refine .bind (skip rfl ?_ isLegal) fun _ later _ => ?_
  · exact startsDefinition_of_syncLength _ _ _ _
  · exact Orderly.bind (.report (complains.withRecovery _)) (fun _ => .pure _) later

theorem recoverDefinition {start : Cursor} {diagnostic : Diagnostic}
    (complains : diagnostic.IsComplaint)
    (isLegal : parser.cursor.remaining = start.remaining → legal parser.cursor) :
    RunsIn legal (Step.recoverDefinition start diagnostic) parser := by
  refine lookThen (fun _ alike => cursor_alike alike) ?_
  refine .bind (skip rfl ?_ isLegal) fun _ later _ => ?_
  · exact startsDefinition_of_definitionSyncLength _ _
  · exact Orderly.bind (.report (complains.withRecovery _)) (fun _ => .pure _) later

/-- A place where a part has failed without moving is the one where it began. -/
theorem legal_of_still {part : Step α} {later : Parser} {diagnostic : Diagnostic}
    (run : RunsIn legal part parser) (failed : part parser = .error diagnostic later)
    (start : legal parser.cursor)
    (still : later.cursor.remaining = parser.cursor.remaining) : legal later.cursor := by
  have same := run.samePlace
  rw [after_of_error failed] at same
  exact permissive.ofSamePlace _ _ (same still) start

theorem orRecover {point : SyncPoint} {part : Step α} {instead : Span → α}
    (run : RunsIn legal part parser) (start : legal parser.cursor) :
    RunsIn legal (Step.orRecover point part instead) parser := by
  refine lookThen (fun _ alike => cursor_alike alike) ?_
  refine .tryCatch run fun diagnostic later failed => ?_
  exact .bind (recover (run.complains_of_error failed) (run.legal_of_still failed start))
    fun _ last _ => Orderly.pure _ last

theorem orSkip {part : Step α} {instead : Span → α}
    (run : RunsIn legal part parser) (start : legal parser.cursor) :
    RunsIn legal (Step.orSkip part instead) parser := by
  refine lookThen (fun _ alike => cursor_alike alike) ?_
  refine .tryCatch run fun diagnostic later failed => ?_
  exact .bind (recoverDefinition (run.complains_of_error failed) (run.legal_of_still failed start))
    fun _ last _ => Orderly.pure _ last

end Run

/-! ### Behind the skipped tokens -/

theorem recover_eq (point : SyncPoint) (start : Cursor) (diagnostic : Diagnostic)
    (parser : Parser) :
    ∃ span later, Step.recover point start diagnostic parser = .ok span later ∧
      later.cursor = (parser.cursor.advanceIfStill start).sync start point ∧ ¬later.Clean :=
  ⟨_, _, rfl, Parser.cursor_report _ _, Parser.not_clean_report _ _⟩

theorem recoverDefinition_eq (start : Cursor) (diagnostic : Diagnostic) (parser : Parser) :
    ∃ span later, Step.recoverDefinition start diagnostic parser = .ok span later ∧
      later.cursor = parser.cursor.syncDefinition start ∧ ¬later.Clean :=
  ⟨_, _, rfl, Parser.cursor_report _ _, Parser.not_clean_report _ _⟩

end Step

namespace Cursor

theorem remaining_advanceIfStill_lt {cursor start : Cursor}
    (behind : cursor.remaining ≤ start.remaining) (more : 0 < start.remaining) :
    (cursor.advanceIfStill start).remaining < start.remaining := by
  rw [advanceIfStill_eq, remaining_advanceBy]
  split <;> omega

theorem remaining_sync_lt {cursor start : Cursor} (point : SyncPoint)
    (behind : cursor.remaining ≤ start.remaining) (more : 0 < start.remaining) :
    ((cursor.advanceIfStill start).sync start point).remaining < start.remaining := by
  have moved := remaining_advanceIfStill_lt behind more
  rw [sync, remaining_advanceBy]
  omega

theorem remaining_syncDefinition_lt {cursor start : Cursor}
    (behind : cursor.remaining ≤ start.remaining) (more : 0 < start.remaining) :
    (cursor.syncDefinition start).remaining < start.remaining := by
  have moved := remaining_advanceIfStill_lt behind more
  rw [syncDefinition, remaining_advanceBy]
  omega

end Cursor

namespace Step

variable {α : Type}

/-- A part whose errors are recovered from never fails. What it gives is what the
part gives, or stands for skipped tokens; then something is reported. -/
theorem orRecover_cases (point : SyncPoint) (part : Step α) (instead : Span → α)
    (parser : Parser) :
    (∃ value later, part parser = .ok value later ∧
        orRecover point part instead parser = .ok value later) ∨
      ∃ diagnostic between span later, part parser = .error diagnostic between ∧
        orRecover point part instead parser = .ok (instead span) later ∧
        later.cursor =
          (between.cursor.advanceIfStill parser.cursor).sync parser.cursor point ∧
        ¬later.Clean := by
  rw [orRecover, look_bind (cursor_eq parser)]
  cases outcome : part parser with
  | ok value later => exact .inl ⟨value, later, rfl, tryCatch_of_ok outcome⟩
  | error diagnostic between =>
      obtain ⟨span, later, ran, place, reported⟩ :=
        recover_eq point parser.cursor diagnostic between
      refine .inr ⟨diagnostic, between, span, later, rfl, ?_, place, reported⟩
      rw [tryCatch_of_error outcome, bind_of_ok ran, pure_eq]

theorem orSkip_cases (part : Step α) (instead : Span → α) (parser : Parser) :
    (∃ value later, part parser = .ok value later ∧
        orSkip part instead parser = .ok value later) ∨
      ∃ diagnostic between span later, part parser = .error diagnostic between ∧
        orSkip part instead parser = .ok (instead span) later ∧
        later.cursor = between.cursor.syncDefinition parser.cursor ∧ ¬later.Clean := by
  rw [orSkip, look_bind (cursor_eq parser)]
  cases outcome : part parser with
  | ok value later => exact .inl ⟨value, later, rfl, tryCatch_of_ok outcome⟩
  | error diagnostic between =>
      obtain ⟨span, later, ran, place, reported⟩ :=
        recoverDefinition_eq parser.cursor diagnostic between
      refine .inr ⟨diagnostic, between, span, later, rfl, ?_, place, reported⟩
      rw [tryCatch_of_error outcome, bind_of_ok ran, pure_eq]

variable {legal : Cursor → Prop} {part : Step α} {parser : Parser}

/-- An eager part whose errors are recovered from passes over a token wherever
there is one. -/
theorem EagerAt.orRecover {point : SyncPoint} {instead : Span → α} [Permissive legal]
    (eager : EagerAt legal part parser) (start : legal parser.cursor)
    (more : parser.cursor.peek.kind ≠ .endOfFile) :
    EagerAt legal (Step.orRecover point part instead) parser := by
  refine ⟨Run.orRecover eager.run start, fun {later value} ran => ?_⟩
  rcases orRecover_cases point part instead parser with
    ⟨_, _, here, same⟩ | ⟨_, between, _, _, failed, same, place, _⟩
  · cases same.symm.trans ran
    exact eager.advances here
  · cases same.symm.trans ran
    have behind := eager.run.remaining_le
    rw [after_of_error failed] at behind
    rw [place]
    exact Cursor.remaining_sync_lt point behind (parser.cursor.remaining_pos more)

theorem EagerAt.orSkip {instead : Span → α} [Permissive legal]
    (eager : EagerAt legal part parser) (start : legal parser.cursor)
    (more : parser.cursor.peek.kind ≠ .endOfFile) :
    EagerAt legal (Step.orSkip part instead) parser := by
  refine ⟨Run.orSkip eager.run start, fun {later value} ran => ?_⟩
  rcases orSkip_cases part instead parser with
    ⟨_, _, here, same⟩ | ⟨_, between, _, _, failed, same, place, _⟩
  · cases same.symm.trans ran
    exact eager.advances here
  · cases same.symm.trans ran
    have behind := eager.run.remaining_le
    rw [after_of_error failed] at behind
    rw [place]
    exact Cursor.remaining_syncDefinition_lt behind (parser.cursor.remaining_pos more)

end Step

end ServiceLang
