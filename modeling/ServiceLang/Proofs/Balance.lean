import Mathlib.Data.List.Induction
import ServiceLang.Proofs.OrderlyDefinition

set_option autoImplicit false

/-! The braces behind an error. Skipping counts the braces that it passes over itself, and
stops inside none of them unless the source ends or a definition starts there. Between
definitions it also counts those that the broken part had opened before it failed; inside a
body it does not, and in neither place does it count the token that is passed only to get on. -/

namespace ServiceLang

/-! ### What has been passed over -/

namespace Cursor

theorem consumedSince_of_append {start later : Cursor} {passed : List Slot}
    (split : start.ahead = passed ++ later.ahead) :
    later.consumedSince start = passed.map Slot.token := by
  rw [consumedSince, remaining, remaining, split, List.length_append, Nat.add_sub_cancel,
    List.take_left]

/-- What has been passed over on the way to a place between, and what behind it. -/
theorem consumedSince_append {start between later : Cursor}
    (first : between.ahead <:+ start.ahead) (second : later.ahead <:+ between.ahead) :
    later.consumedSince start = between.consumedSince start ++ later.consumedSince between := by
  obtain ⟨front, split⟩ := first
  obtain ⟨back, otherSplit⟩ := second
  have whole : start.ahead = (front ++ back) ++ later.ahead := by
    rw [List.append_assoc, otherSplit, split]
  rw [consumedSince_of_append whole, consumedSince_of_append split.symm,
    consumedSince_of_append otherSplit.symm, List.map_append]

theorem ahead_advanceBy_suffix (cursor : Cursor) (count : Nat) :
    (cursor.advanceBy count).ahead <:+ cursor.ahead := by
  rw [ahead_advanceBy]
  exact List.drop_suffix count cursor.ahead

theorem ahead_advanceIfStill_suffix (cursor start : Cursor) :
    (cursor.advanceIfStill start).ahead <:+ cursor.ahead := by
  rw [advanceIfStill_eq]
  exact cursor.ahead_advanceBy_suffix _

theorem ahead_sync_suffix (cursor start : Cursor) (point : SyncPoint) :
    (cursor.sync start point).ahead <:+ cursor.ahead :=
  cursor.ahead_advanceBy_suffix _

def kindsSince (cursor start : Cursor) : List Kind :=
  (cursor.consumedSince start).map Token.kind

theorem kindsSince_append {start between later : Cursor}
    (first : between.ahead <:+ start.ahead) (second : later.ahead <:+ between.ahead) :
    later.kindsSince start = between.kindsSince start ++ later.kindsSince between := by
  rw [kindsSince, consumedSince_append first second, List.map_append]
  rfl

theorem kindsSince_of_drop {start later : Cursor} {count : Nat}
    (drops : later.ahead = start.ahead.drop count) :
    later.kindsSince start = start.kinds.take count := by
  have split : start.ahead = start.ahead.take count ++ later.ahead := by
    rw [drops, List.take_append_drop]
  rw [kindsSince, consumedSince_of_append split, List.map_map, kinds, List.map_take]
  rfl

theorem kindsSince_advanceBy (cursor : Cursor) (count : Nat) :
    (cursor.advanceBy count).kindsSince cursor = cursor.kinds.take count :=
  kindsSince_of_drop (cursor.ahead_advanceBy count)

theorem kinds_eq_cons {cursor : Cursor} (more : cursor.peek.kind ≠ .endOfFile) :
    ∃ others, cursor.kinds = cursor.peek.kind :: others := by
  rw [kinds, peek] at *
  cases ahead : cursor.ahead with
  | nil =>
      rw [ahead] at more
      exact absurd cursor.final_isEnd more
  | cons slot rest => exact ⟨rest.map fun slot => slot.token.kind, rfl⟩

end Cursor

/-- A run never goes back: what is ahead in the end was ahead before. -/
theorem Step.Run.ahead_suffix {α : Type} {safe : Parser → Prop} {legal : Cursor → Prop}
    {step : Step α} {parser : Parser} (run : Step.Run safe legal step parser) :
    (Step.after step parser).cursor.ahead <:+ parser.cursor.ahead :=
  (run.keeping (fun later => later.cursor.ahead <:+ parser.cursor.ahead)
    (fun later behind _ _ => by
      change later.cursor.advance.ahead <:+ _
      rw [Cursor.ahead_advance]
      exact (List.tail_suffix _).trans behind)
    (fun _ behind => behind)
    (fun later diagnostic behind => by
      rw [Parser.cursor_report]
      exact behind)
    (List.suffix_refl _)).2

/-! ### Inside a body -/

def braceSurplus (kinds : List Kind) : Int :=
  kinds.count (.symbol .leftBrace) - kinds.count (.symbol .rightBrace)

namespace braceSurplus

theorem append (front back : List Kind) :
    braceSurplus (front ++ back) = braceSurplus front + braceSurplus back := by
  unfold braceSurplus
  rw [List.count_append, List.count_append]
  omega

theorem opening (kinds : List Kind) :
    braceSurplus (.symbol .leftBrace :: kinds) = braceSurplus kinds + 1 := by
  unfold braceSurplus
  rw [List.count_cons_self, List.count_cons_of_ne (by decide)]
  omega

theorem closing (kinds : List Kind) :
    braceSurplus (.symbol .rightBrace :: kinds) = braceSurplus kinds - 1 := by
  unfold braceSurplus
  rw [List.count_cons_self, List.count_cons_of_ne (by decide)]
  omega

theorem other {kind : Kind} (notOpening : kind ≠ .symbol .leftBrace)
    (notClosing : kind ≠ .symbol .rightBrace) (kinds : List Kind) :
    braceSurplus (kind :: kinds) = braceSurplus kinds := by
  unfold braceSurplus
  rw [List.count_cons_of_ne notOpening, List.count_cons_of_ne notClosing]

end braceSurplus

/-- In a body, skipping closes what it has opened, unless it comes to the end of the source or
to a word that starts a definition. -/
theorem braceSurplus_of_syncLength (sync : SyncPoint) (moved : Bool) (depth : Nat)
    (kinds : List Kind) {next : Kind} {others : List Kind}
    (stops : kinds.drop (syncLength sync moved depth kinds) = next :: others)
    (inside : next.startsDefinition = false) :
    depth + braceSurplus (kinds.take (syncLength sync moved depth kinds)) = 0 := by
  fun_induction syncLength sync moved depth kinds with
  | case1 => cases stops
  | case2 moved depth kind rest semicolon =>
      obtain ⟨rfl, rfl⟩ := semicolon
      rfl
  | case3 moved depth rest _ ih =>
      rw [Nat.add_comm, List.drop_succ_cons] at stops
      rw [Nat.add_comm 1, List.take_succ_cons, braceSurplus.opening]
      have closed := ih stops
      omega
  | case4 => rfl
  | case5 => rfl
  | case6 moved rest depth _ _ ih =>
      rw [Nat.add_comm, List.drop_succ_cons] at stops
      rw [Nat.add_comm 1, List.take_succ_cons, braceSurplus.closing]
      have closed := ih stops
      omega
  | case7 moved depth kind rest _ _ _ starts =>
      cases stops
      rw [starts] at inside
      cases inside
  | case8 moved depth kind rest _ _ _ _ resumes =>
      rw [resumes.1]
      rfl
  | case9 moved depth kind rest _ notOpening notClosing _ _ ih =>
      rw [Nat.add_comm, List.drop_succ_cons] at stops
      rw [Nat.add_comm 1, List.take_succ_cons, braceSurplus.other notOpening notClosing]
      exact ih stops

namespace Cursor

def IsInside (cursor : Cursor) : Prop :=
  cursor.peek.kind ≠ .endOfFile ∧ cursor.peek.kind.startsDefinition = false

instance (cursor : Cursor) : Decidable cursor.IsInside :=
  inferInstanceAs (Decidable (_ ∧ _))

theorem braceSurplus_sync {cursor start : Cursor} {point : SyncPoint}
    (inside : (cursor.sync start point).IsInside) :
    braceSurplus ((cursor.sync start point).kindsSince cursor) = 0 := by
  obtain ⟨others, ahead⟩ := kinds_eq_cons inside.1
  rw [sync, kinds_advanceBy] at ahead
  rw [sync, kindsSince_advanceBy]
  have closed := braceSurplus_of_syncLength point _ 0 cursor.kinds ahead inside.2
  omega

end Cursor

namespace Step

variable {α : Type} {legal : Cursor → Prop}

/-- Wherever the part is broken and reading goes on inside the same definition, the tokens
skipped have the surplus of braces that the part has left behind where it failed, or that the
one token has which is passed when it has passed none. -/
def KeepsSurplus (point : SyncPoint) (part : Step α) (instead : Span → α) : Prop :=
  ∀ parser,
    (∃ value later, part parser = .ok value later ∧
        orRecover point part instead parser = .ok value later) ∨
      ∃ diagnostic between span later, part parser = .error diagnostic between ∧
        orRecover point part instead parser = .ok (instead span) later ∧
        (later.cursor.IsInside →
          braceSurplus (later.cursor.kindsSince parser.cursor) =
            braceSurplus
              ((between.cursor.advanceIfStill parser.cursor).kindsSince parser.cursor))

theorem Orderly.keepsSurplus {part : Step α} (orderly : Orderly legal part) (point : SyncPoint)
    (instead : Span → α) : KeepsSurplus point part instead := by
  intro parser
  refine (orRecover_cases point part instead parser).imp_right ?_
  rintro ⟨diagnostic, between, span, later, failed, ran, place, -⟩
  refine ⟨diagnostic, between, span, later, failed, ran, fun inside => ?_⟩
  have behind := (orderly parser).ahead_suffix
  rw [after_of_error failed] at behind
  have begun := (between.cursor.ahead_advanceIfStill_suffix parser.cursor).trans behind
  rw [place] at inside ⊢
  rw [Cursor.kindsSince_append begun (Cursor.ahead_sync_suffix _ _ point), braceSurplus.append,
    Cursor.braceSurplus_sync inside, Int.add_zero]

end Step

/-! ### Between definitions -/

/-- The number of braces left open behind tokens of these kinds when so many are open before
them, unmatched closing ones set aside. -/
def openAfter (depth : Nat) : List Kind → Nat
  | [] => depth
  | .symbol .leftBrace :: rest => openAfter (depth + 1) rest
  | .symbol .rightBrace :: rest => openAfter (depth - 1) rest
  | _ :: rest => openAfter depth rest

theorem openAfter_other {kind : Kind} (notOpening : kind ≠ .symbol .leftBrace)
    (notClosing : kind ≠ .symbol .rightBrace) (depth : Nat) (rest : List Kind) :
    openAfter depth (kind :: rest) = openAfter depth rest := by
  rw [openAfter]
  · exact notOpening
  · exact notClosing

theorem openAfter_append (depth : Nat) (front back : List Kind) :
    openAfter depth (front ++ back) = openAfter (openAfter depth front) back := by
  fun_induction openAfter depth front with
  | case1 => rfl
  | case2 depth rest ih => exact ih
  | case3 depth rest ih => exact ih
  | case4 depth kind rest notOpening notClosing ih =>
      rw [List.cons_append, openAfter_other notOpening notClosing]
      exact ih

theorem openBraces_eq (tokens : List Token) :
    openBraces tokens = openAfter 0 (tokens.map Token.kind) := by
  -- From the back, since the count is made from the front.
  induction tokens using List.reverseRecOn with
  | nil => rfl
  | append_singleton front token ih =>
      rw [List.map_append, openAfter_append, ← ih, openBraces, openBraces, List.foldl_append]
      generalize List.foldl _ 0 front = depth
      change _ = openAfter depth [token.kind]
      rw [List.foldl_cons, List.foldl_nil]
      split
      · rename_i here
        rw [here, openAfter, openAfter]
      · rename_i here
        rw [here, openAfter, openAfter]
      · rename_i notOpening notClosing
        rw [openAfter_other notOpening notClosing, openAfter]

inductive SkipEnd where
  /-- There are no more tokens. -/
  | endOfFile
  /-- A word that starts a definition stands next. -/
  | definition
  /-- An annotation stands next. -/
  | attachment
  /-- A semicolon has been passed over. -/
  | semicolon
  /-- The brace has been passed over that closes the last open one. -/
  | closed
  /-- A run of closing braces has been passed over that close nothing. -/
  | stray
deriving DecidableEq, Repr

/-- Skipping between definitions where so many braces are open: what is passed over, what is
left, and what ends it. -/
inductive DefinitionSkip : Nat → List Kind → List Kind → SkipEnd → Prop
  | endOfFile (depth : Nat) : DefinitionSkip depth [] [] .endOfFile
  | semicolon (left : List Kind) : DefinitionSkip 0 [.symbol .semicolon] left .semicolon
  | opening {depth : Nat} {passed left : List Kind} {stop : SkipEnd}
      (rest : DefinitionSkip (depth + 1) passed left stop) :
      DefinitionSkip depth (.symbol .leftBrace :: passed) left stop
  | stray {run left : List Kind} (braces : ∀ kind ∈ run, kind = .symbol .rightBrace)
      (last : left.head? ≠ some (.symbol .rightBrace)) :
      DefinitionSkip 0 (.symbol .rightBrace :: run) left .stray
  | closed (left : List Kind) : DefinitionSkip 1 [.symbol .rightBrace] left .closed
  | closing {depth : Nat} {passed left : List Kind} {stop : SkipEnd}
      (rest : DefinitionSkip (depth + 1) passed left stop) :
      DefinitionSkip (depth + 2) (.symbol .rightBrace :: passed) left stop
  | definition {kind : Kind} (starts : kind.startsDefinition = true) (depth : Nat)
      (others : List Kind) : DefinitionSkip depth [] (kind :: others) .definition
  | attachment (others : List Kind) :
      DefinitionSkip 0 [] (.symbol .atSign :: others) .attachment
  | other {kind : Kind} {depth : Nat} {passed left : List Kind} {stop : SkipEnd}
      (level : kind = .symbol .semicolon ∨ kind = .symbol .atSign → depth ≠ 0)
      (notOpening : kind ≠ .symbol .leftBrace) (notClosing : kind ≠ .symbol .rightBrace)
      (free : kind.startsDefinition = false) (rest : DefinitionSkip depth passed left stop) :
      DefinitionSkip depth (kind :: passed) left stop

theorem DefinitionSkip.ofRun {run left rest : List Kind} (split : run ++ left = rest)
    (braces : ∀ kind ∈ run, kind = .symbol .rightBrace)
    (last : left.head? ≠ some (.symbol .rightBrace)) :
    DefinitionSkip 0 ((.symbol .rightBrace :: rest).take (1 + run.length))
      ((.symbol .rightBrace :: rest).drop (1 + run.length)) .stray := by
  rw [← split, Nat.add_comm, List.take_succ_cons, List.drop_succ_cons, List.take_left,
    List.drop_left]
  exact .stray braces last

/-- A skip between definitions ends in one of these ways. -/
theorem definitionSkip (depth : Nat) (kinds : List Kind) :
    ∃ stop, DefinitionSkip depth (kinds.take (definitionSyncLength depth kinds))
      (kinds.drop (definitionSyncLength depth kinds)) stop := by
  fun_induction definitionSyncLength depth kinds with
  | case1 depth => exact ⟨_, .endOfFile depth⟩
  | case2 depth kind rest semicolon =>
      obtain ⟨rfl, rfl⟩ := semicolon
      exact ⟨_, .semicolon rest⟩
  | case3 depth rest _ ih =>
      rw [Nat.add_comm]
      exact ih.imp fun _ skip => .opening skip
  | case4 rest =>
      refine ⟨_, .ofRun List.takeWhile_append_dropWhile
        (fun _ => eq_rightBrace_of_mem_takeWhile) fun next => ?_⟩
      have more := List.head?_dropWhile_not (· == Kind.symbol .rightBrace) rest
      rw [next] at more
      cases more
  | case5 rest => exact ⟨_, .closed rest⟩
  | case6 rest depth _ _ ih =>
      rw [Nat.add_comm]
      exact ih.imp fun _ skip => .closing skip
  | case7 depth kind rest _ _ _ starts => exact ⟨_, .definition starts depth rest⟩
  | case8 depth kind rest _ _ _ _ attachment =>
      obtain ⟨rfl, rfl⟩ := attachment
      exact ⟨_, .attachment rest⟩
  | case9 depth kind rest notSemicolon notOpening notClosing free notAttachment ih =>
      rw [Nat.add_comm]
      refine ih.imp fun _ skip => .other ?_ notOpening notClosing (Bool.not_eq_true _ ▸ free) skip
      rintro (rfl | rfl) rfl
      · exact notSemicolon ⟨rfl, rfl⟩
      · exact notAttachment ⟨rfl, rfl⟩

/-- Where skipping between definitions has ended, seen from the tokens with so many braces open
before them. At a semicolon or an annotation no brace is open. A closing brace has closed the
last one, or belongs to a run that was met with none open. -/
structure IsSettled (depth : Nat) (kinds : List Kind) (stop : SkipEnd) : Prop where
  level : stop = .semicolon ∨ stop = .attachment → openAfter depth kinds = 0
  closed : stop = .closed →
    ∃ front, kinds = front ++ [.symbol .rightBrace] ∧ openAfter depth front = 1
  stray : stop = .stray →
    ∃ front run, kinds = front ++ run ∧ run ≠ [] ∧ (∀ kind ∈ run, kind = .symbol .rightBrace) ∧
      openAfter depth front = 0

/-- Tokens in front are counted by the braces that they leave open. -/
theorem IsSettled.behind {depth : Nat} {front kinds : List Kind} {stop : SkipEnd}
    (settled : IsSettled (openAfter depth front) kinds stop) :
    IsSettled depth (front ++ kinds) stop where
  level reason := by
    rw [openAfter_append]
    exact settled.level reason
  closed reason := by
    obtain ⟨before, rfl, one⟩ := settled.closed reason
    refine ⟨front ++ before, (List.append_assoc ..).symm, ?_⟩
    rw [openAfter_append]
    exact one
  stray reason := by
    obtain ⟨before, run, rfl, more, braces, none⟩ := settled.stray reason
    refine ⟨front ++ before, run, (List.append_assoc ..).symm, more, braces, ?_⟩
    rw [openAfter_append]
    exact none

theorem DefinitionSkip.isSettled {depth : Nat} {passed left : List Kind} {stop : SkipEnd}
    (skip : DefinitionSkip depth passed left stop) : IsSettled depth passed stop := by
  induction skip with
  | endOfFile | definition => exact ⟨by simp, by simp, by simp⟩
  | semicolon | attachment => exact ⟨fun _ => rfl, by simp, by simp⟩
  | closed => exact ⟨by simp, fun _ => ⟨[], rfl, rfl⟩, by simp⟩
  | @stray run left braces last =>
      refine ⟨by simp, by simp, fun _ => ⟨[], _, rfl, by simp, ?_, rfl⟩⟩
      exact List.forall_mem_cons.mpr ⟨rfl, braces⟩
  | @opening depth passed left stop rest ih =>
      exact @IsSettled.behind depth [.symbol .leftBrace] _ _ ih
  | @closing depth passed left stop rest ih =>
      exact @IsSettled.behind (depth + 2) [.symbol .rightBrace] _ _ ih
  | @other kind depth passed left stop level notOpening notClosing free rest ih =>
      refine @IsSettled.behind depth [kind] _ _ ?_
      rw [openAfter_other notOpening notClosing]
      exact ih

namespace Cursor

/-- The kinds of the tokens that the recovery from a part has passed over, which began at
`start` and failed at `failed`. An opening brace that is passed only to get on is left out. -/
def countedSince (cursor failed start : Cursor) : List Kind :=
  if failed.remaining = start.remaining ∧ start.peek.kind = .symbol .leftBrace then
    (cursor.kindsSince start).tail
  else cursor.kindsSince start

/-- A token alone leaves no brace open, unless it is an opening one. -/
theorem openAfter_take_one {cursor : Cursor} (notBrace : cursor.peek.kind ≠ .symbol .leftBrace) :
    openAfter 0 (cursor.kinds.take 1) = 0 := by
  by_cases more : cursor.peek.kind = .endOfFile
  · rw [kinds, cursor.peek_isEnd_iff.mp more]
    rfl
  · obtain ⟨others, ahead⟩ := kinds_eq_cons more
    rw [ahead, List.take_succ_cons, List.take_zero]
    by_cases brace : cursor.peek.kind = .symbol .rightBrace
    · rw [brace]
      rfl
    · exact openAfter_other notBrace brace 0 []

/-- Where a part has passed no token, one is passed before skipping begins. -/
theorem kindsSince_advanceIfStill {failed start : Cursor} (behind : failed.ahead <:+ start.ahead)
    (still : failed.remaining = start.remaining) :
    (failed.advanceIfStill start).kindsSince start = start.kinds.take 1 := by
  refine kindsSince_of_drop ?_
  rw [advanceIfStill, if_pos still, ahead_advance, behind.eq_of_length still, List.drop_one]

theorem isSettled_countedSince {failed start : Cursor} (behind : failed.ahead <:+ start.ahead)
    {stop : SkipEnd}
    (settled : IsSettled (openBraces (failed.consumedSince start))
      ((failed.syncDefinition start).kindsSince (failed.advanceIfStill start)) stop) :
    IsSettled 0 ((failed.syncDefinition start).countedSince failed start) stop := by
  have begun := (failed.ahead_advanceIfStill_suffix start).trans behind
  have skipped : (failed.syncDefinition start).ahead <:+ (failed.advanceIfStill start).ahead :=
    ahead_advanceBy_suffix _ _
  rw [openBraces_eq] at settled
  rw [countedSince, kindsSince_append begun skipped]
  by_cases still : failed.remaining = start.remaining
  · have nothing : failed.consumedSince start = [] := by
      rw [consumedSince, still, Nat.sub_self, List.take_zero, List.map_nil]
    rw [nothing] at settled
    rw [kindsSince_advanceIfStill behind still]
    by_cases brace : start.peek.kind = .symbol .leftBrace
    · have more : start.peek.kind ≠ .endOfFile := by simp [brace]
      obtain ⟨others, ahead⟩ := kinds_eq_cons more
      rw [if_pos ⟨still, brace⟩, ahead]
      exact settled
    · rw [if_neg fun both => brace both.2]
      refine .behind ?_
      rw [openAfter_take_one brace]
      exact settled
  · rw [if_neg fun both => still both.1]
    rw [advanceIfStill, if_neg still] at settled ⊢
    exact settled.behind

end Cursor

namespace Step

variable {α : Type} {legal : Cursor → Prop}

/-- Wherever the part is broken, skipping starts with the braces that the part has left open
and goes on to a place that is settled. -/
def StopsSettled (part : Step α) (instead : Span → α) : Prop :=
  ∀ parser,
    (∃ value later, part parser = .ok value later ∧
        orSkip part instead parser = .ok value later) ∨
      ∃ diagnostic between span later stop, part parser = .error diagnostic between ∧
        orSkip part instead parser = .ok (instead span) later ∧
        DefinitionSkip (openBraces (between.cursor.consumedSince parser.cursor))
          (later.cursor.kindsSince (between.cursor.advanceIfStill parser.cursor))
          later.cursor.kinds stop ∧
        IsSettled 0 (later.cursor.countedSince between.cursor parser.cursor) stop

theorem Orderly.stopsSettled {part : Step α} (orderly : Orderly legal part) (instead : Span → α) :
    StopsSettled part instead := by
  intro parser
  refine (orSkip_cases part instead parser).imp_right ?_
  rintro ⟨diagnostic, between, span, later, failed, ran, place, -⟩
  have behind := (orderly parser).ahead_suffix
  rw [after_of_error failed] at behind
  obtain ⟨stop, skip⟩ := definitionSkip (openBraces (between.cursor.consumedSince parser.cursor))
    (between.cursor.advanceIfStill parser.cursor).kinds
  rw [← Cursor.kindsSince_advanceBy, ← Cursor.kinds_advanceBy] at skip
  refine ⟨diagnostic, between, span, later, stop, failed, ran, ?_, ?_⟩
  · rw [place]
    exact skip
  · rw [place]
    exact Cursor.isSettled_countedSince behind skip.isSettled

end Step

namespace Grammar

open Step

/-- Recovery inside bodies, whatever the parser: for the statements and workers of each kind of
body, for the workers of a fork, and for the members of services, connectors, structs and
annotation definitions. The braces that it skips are balanced just if those are that the broken
part had passed when it failed. -/
theorem parts_keepSurplus (room : Nat) :
    (∀ kind items, KeepsSurplus .statement (bodyItem (.within room) kind items)
      (fun span => items.addStatement (.broken span))) ∧
    (∀ workers, KeepsSurplus .member (do return workers ++ [← forkWorker (.within room)])
      (fun _ => workers)) ∧
    (∀ found, KeepsSurplus .member (do return found ++ [← serviceMember room])
      (fun _ => found)) ∧
    (∀ found, KeepsSurplus .member (do return found ++ [← connectorMember room])
      (fun _ => found)) ∧
    ∀ found, KeepsSurplus .member (do return found ++ [← field room]) (fun _ => found) := by
  have listed {β : Type} {item : Step β} (eager : Eager (fun _ => True) item) (found : List β) :
      KeepsSurplus .member (do return found ++ [← item]) (fun _ => found) :=
    (eager.orderly.bind fun _ => .pure _).keepsSurplus _ _
  refine ⟨fun kind items => ?_, listed (forkWorker_eager (StmtParts.within_areEager room)),
    listed (serviceMember_eager room), listed (connectorMember_eager room),
    listed (field_eager room)⟩
  have eager : Eager (fun _ => True) (bodyItem (.within room) kind items) :=
    bodyItem_eager (StmtParts.within_areEager room) kind items
  exact eager.orderly.keepsSurplus _ _

/-- An assignment whose map breaks off before the map's closing brace. -/
def brokenMap : String :=
  "function f() \x7b x = \x7b\"a\": \x7d \x7d"

/-- The statement is given up at its own closing brace, behind the opening one, so that its
brace ends the body and the body's brace is left over. -/
theorem not_balanced_brokenMap :
    let parser := Parser.ofTokens (tokenize brokenMap).1 [] {}
    let start := parser.cursor.advanceBy 5
    let recovered := after
      (orRecover .statement (bodyItem (.within 63) .callable ⟨[], []⟩)
        (fun span => ⟨[.broken span], []⟩))
      { parser with cursor := start }
    recovered.cursor.IsInside ∧ braceSurplus (recovered.cursor.kindsSince start) = 1 ∧
      (parseTokens (tokenize brokenMap).1 {}).2.entries.map Diagnostic.problem =
        [.expectedExpression, .expectedDefinition] := by
  decide +kernel

/-- Recovery between definitions, whatever the parser: from the package declaration, from the
directives and from the definitions. -/
theorem parts_stopSettled (room : Nat) :
    StopsSettled (do return some (← packageDecl)) (fun _ => none) ∧
    (∀ found, StopsSettled (do return found ++ [← directive]) (fun _ => found)) ∧
    StopsSettled (definition room) (fun span => .broken span) := by
  have header : Eager (fun _ => True) packageDecl := packageDecl_eager
  have listed : Eager (fun _ => True) directive := directive_eager
  exact ⟨(header.orderly.bind fun _ => .pure _).stopsSettled _,
    fun found => (listed.orderly.bind fun _ => .pure _).stopsSettled _,
    (definition_eager room).orderly.stopsSettled _⟩

def strayBlock : String :=
  "\x7b int x; \x7d"

/-- The brace that is passed only to get on is not counted, so that recovery stops behind the
semicolon inside the block, and what is left of the block is a second error. -/
theorem not_settled_strayBlock :
    let parser := Parser.ofTokens (tokenize strayBlock).1 [] {}
    let recovered := after (orSkip (definition 64) (fun span => .broken span)) parser
    recovered.cursor.previousToken.kind = .symbol .semicolon ∧
      recovered.cursor.peek.kind = .symbol .rightBrace ∧
      openBraces (recovered.cursor.consumedSince parser.cursor) = 1 ∧
      (parseTokens (tokenize strayBlock).1 {}).2.entries.map Diagnostic.problem =
        [.expectedDefinition, .expectedDefinition] := by
  decide +kernel

end Grammar

end ServiceLang
