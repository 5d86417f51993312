import Mathlib.Data.List.Nodup
import ServiceLang.Proofs.HarvestDefinition

set_option autoImplicit false

/-! Comments are spent. A comment that has been taken as a statement cannot be taken again, and
passing over a token gives up the comments before it: what the bodies hold and what can still be
taken, together, never becomes more. -/

namespace ServiceLang

open Step

def Token.remark (token : Token) : Remark :=
  (token.lexeme, token.span)

/-- The comments that can still be taken: those left before the current token, and all behind
it. -/
def Cursor.pending (cursor : Cursor) : List Token :=
  cursor.comments ++ (cursor.ahead ++ [cursor.final]).tail.flatMap Slot.comments

theorem Cursor.pending_advance (cursor : Cursor) : cursor.advance.pending.Sublist cursor.pending := by
  cases split : cursor.ahead with
  | nil =>
      rw [cursor.advance_of_remaining_zero (List.length_eq_zero_iff.mpr split)]
  | cons slot rest =>
      have more : cursor.ahead ≠ [] := split ▸ nofun
      have same : cursor.advance.pending = (rest ++ [cursor.final]).flatMap Slot.comments := by
        rw [pending, comments_advance cursor more, ahead_advance, final_advance, split]
        cases rest <;> simp
      rw [same, pending, split]
      exact List.sublist_append_right _ _

def Parser.pending (parser : Parser) : List Remark :=
  parser.cursor.pending.map Token.remark

/-- From one parser to a later one, with these comments held at first and those in the end, no
comment has become more frequent. -/
def Spends (parser : Parser) (held : List Remark) (later : Parser) (holding : List Remark) : Prop :=
  ∀ remark, holding.count remark + later.pending.count remark ≤
    held.count remark + parser.pending.count remark

namespace Spends

variable {first second third : Parser} {held kept holding : List Remark}

theorem trans (here : Spends first held second kept) (onwards : Spends second kept third holding) :
    Spends first held third holding :=
  fun remark => Nat.le_trans (onwards remark) (here remark)

/-- What holds no more is held as well. -/
theorem of_count_le (here : Spends first held second kept)
    (fewer : ∀ remark, holding.count remark ≤ kept.count remark) :
    Spends first held second holding :=
  fun remark => Nat.le_trans (Nat.add_le_add_right (fewer remark) _) (here remark)

/-- What is held besides does not matter. -/
theorem beside (here : Spends first [] second kept) (held : List Remark) :
    Spends first held second (held ++ kept) := by
  intro remark
  have bound := here remark
  rw [List.count_nil] at bound
  rw [List.count_append]
  omega

/-- No run brings back a comment that could not be taken any more. -/
theorem of_run {α : Type} {step : Step α} {value : α} (run : RunsIn (fun _ => True) step first)
    (ran : step first = .ok value second) (held : List Remark) : Spends first held second held := by
  have fewer := (run.keeping
    (fun later => later.cursor.pending.Sublist first.cursor.pending)
    (fun later kept _ _ => later.cursor.pending_advance.trans kept)
    (fun later kept => (List.sublist_append_right _ _).trans kept)
    (fun later diagnostic kept => by rwa [Parser.cursor_report]) (.refl _)).2
  rw [after_of_ok ran] at fewer
  intro remark
  have bound := (fewer.map Token.remark).count_le remark
  exact Nat.add_le_add_left bound _

/-- What is taken can no longer be taken. -/
theorem takeComments {comments : List Token} (ran : Step.takeComments first = .ok comments second)
    (held : List Remark) : Spends first held second (held ++ comments.map Token.remark) := by
  intro remark
  rw [takeComments_eq] at ran
  split at ran
  · cases ran
    simp only [Parser.pending, Cursor.pending, List.nil_append, List.map_append, List.count_append]
    omega
  · cases ran
    exact Nat.le_of_eq (by rw [List.map_nil, List.append_nil])

theorem loop {σ : Type} {turn : σ → Step (ForInStep σ)} (load : σ → List Remark)
    (turns : ∀ {state parser decision later}, turn state parser = .ok decision later →
      Spends parser (load state) later (load decision.value)) {state final : σ}
    {parser later : Parser} (ran : Step.loop turn state parser = .ok final later) :
    Spends parser (load state) later (load final) := by
  rcases loop_ok ran with ran | ⟨next, between, ran, ⟨shorter, rest⟩ | ⟨-, rfl, rfl⟩⟩
  · exact turns ran
  · have here : Spends parser (load state) between (load next) := turns ran
    exact here.trans (loop load turns rest)
  · exact turns ran
termination_by parser.cursor.remaining

end Spends

def SpendsIn (parser : Parser) (found : List CallableBody) (later : Parser)
    (given : List CallableBody) : Prop :=
  Spends parser (remarksOf found) later (remarksOf given)

instance : Harvest SpendsIn where
  idle run ran found := Spends.of_run run ran (remarksOf found)
  trans := Spends.trans
  fewer here subperm := by
    obtain ⟨chosen, perm, sublist⟩ := subperm
    obtain ⟨others, whole⟩ := sublist.exists_perm_append
    refine here.of_count_le fun remark => ?_
    have counts := (whole.flatMap_right CallableBody.remarks).count_eq remark
    rw [List.flatMap_append, List.count_append] at counts
    have same := (perm.flatMap_right CallableBody.remarks).count_eq remark
    simp only [remarksOf]
    omega

namespace Grammar

/-- The comments that a body holds so far, those in bodies below included. -/
def BodyItems.load (items : BodyItems) : List Remark :=
  items.statements.filterMap Stmt.remark? ++ remarksOf items.bodies

namespace BodyItems

variable (items : BodyItems) (remark : Remark)

theorem remarks_addComments (comments : List Token) :
    (items.addComments comments).statements.filterMap Stmt.remark? =
      items.statements.filterMap Stmt.remark? ++ comments.map Token.remark := by
  rw [addComments, List.filterMap_append, List.filterMap_map]
  congr 1
  exact List.filterMap_eq_map ▸ rfl

theorem remarks_addStatement {statement : Stmt} (unremarked : statement.remark? = none) :
    (items.addStatement statement).statements.filterMap Stmt.remark? =
      items.statements.filterMap Stmt.remark? := by
  rw [addStatement, List.filterMap_append, List.filterMap_cons_none unremarked, List.filterMap_nil,
    List.append_nil]

theorem load_addComments (comments : List Token) :
    (items.addComments comments).load.count remark =
      (items.load ++ comments.map Token.remark).count remark := by
  rw [load, items.remarks_addComments, items.bodies_addComments]
  simp only [load, List.count_append]
  omega

theorem load_addStatement {statement : Stmt} (unremarked : statement.remark? = none) :
    (items.addStatement statement).load.count remark =
      (items.load ++ remarksOf statement.bodies).count remark := by
  have bodies := ((items.bodies_addStatement statement).flatMap_right CallableBody.remarks).count_eq
    remark
  rw [List.flatMap_append] at bodies
  rw [load, items.remarks_addStatement unremarked, load, List.append_assoc, List.count_append,
    List.count_append, remarksOf, bodies]

theorem load_addWorker (worker : Worker) :
    (items.addWorker worker).load = items.load ++ remarksOf worker.bodies := by
  rw [load, items.bodies_addWorker, remarksOf_append, ← List.append_assoc]
  rfl

end BodyItems

section Parts

variable {parts : StmtParts} (harvested : parts.AreHarvested SpendsIn)

include harvested

theorem bodyItem_spends {kind : BodyKind} {items next : BodyItems} {parser later : Parser}
    (ran : bodyItem parts kind items parser = .ok next later) :
    Spends parser items.load later next.load := by
  rcases bodyItem_ok ran with ⟨found, -, -, ranWorker, rfl⟩ | ⟨statement, -, ranItem, rfl⟩
  · have here : Spends parser [] later (remarksOf found.bodies) := worker_adds harvested [] ranWorker
    exact (here.beside items.load).of_count_le fun remark =>
      Nat.le_of_eq (congrArg _ (items.load_addWorker found))
  · have here : Spends parser [] later (remarksOf statement.bodies) :=
      itemRule_adds harvested kind [] ranItem
    exact (here.beside items.load).of_count_le fun remark =>
      Nat.le_of_eq (items.load_addStatement remark (itemRule_unremarked kind ranItem))

theorem nextBodyItem_spends {kind : BodyKind} {items : BodyItems} {decision : ForInStep BodyItems}
    {parser later : Parser} (ran : nextBodyItem parts kind items parser = .ok decision later) :
    Spends parser items.load later decision.value.load := by
  obtain ⟨comments, between, ranComments, ran⟩ := bind_ok ran
  have taken : Spends parser items.load between (items.addComments comments).load :=
    (Spends.takeComments ranComments _).of_count_le fun remark =>
      Nat.le_of_eq (items.load_addComments remark comments)
  rw [look_bind (current_eq between)] at ran
  split at ran
  · cases ran
    exact taken
  · obtain ⟨next, last, ranItem, ran⟩ := bind_ok ran
    cases ran
    refine taken.trans ?_
    rcases orRecover_cases .statement (bodyItem parts kind (items.addComments comments)) _ between
      with ⟨_, _, ranPart, same⟩ | ⟨_, _, span, _, -, same, -⟩
    · cases same.symm.trans ranItem
      exact bodyItem_spends harvested ranPart
    · cases same.symm.trans ranItem
      have orderly := (bodyItem_eager harvested.eager kind (items.addComments comments)).orderly
      have idle := Spends.of_run (.orRecover (orderly between) trivial) ranItem
        (items.addComments comments).load
      have broken : (Stmt.broken span).remark? = none := rfl
      refine idle.of_count_le fun remark => Nat.le_of_eq ?_
      have same := (items.addComments comments).load_addStatement remark broken
      exact same.trans (congrArg _ (List.append_nil _))

/-- A body holds only comments that could be taken before it. -/
theorem bodyWith_spends (kind : BodyKind) :
    Adds SpendsIn (bodyWith parts kind) CallableBody.bodies := by
  intro found parser later body ran
  obtain ⟨open_, inside, ranOpen, ran⟩ := bind_ok ran
  obtain ⟨items, behind, ranItems, ran⟩ := bind_ok ran
  obtain ⟨close, last, ranClose, ran⟩ := bind_ok ran
  cases ran
  have opens := Spends.of_run (Orderly.symbol .leftBrace parser) ranOpen []
  have fills : Spends inside [] behind items.load :=
    Spends.loop BodyItems.load (nextBodyItem_spends harvested) ranItems
  have closes := Spends.of_run (Orderly.closeBrace behind) ranClose items.load
  have whole := ((opens.trans fills).trans closes).beside (remarksOf found)
  refine whole.of_count_le fun remark => Nat.le_of_eq ?_
  change (remarksOf (found ++ CallableBody.bodies _)).count remark = _
  rw [CallableBody.bodies_eq, remarksOf_append]
  rfl

end Parts

/-- A source holds only comments that could be taken at its start, and none of them twice. -/
theorem sourceUnit_spends {room : Nat} {parser later : Parser} {unit : SourceUnit}
    (ran : sourceUnit room parser = .ok unit later) :
    Spends parser [] later (remarksOf unit.bodies) :=
  sourceUnit_adds (fun _ kind harvested => bodyWith_spends harvested kind) room [] ran

end Grammar

end ServiceLang
