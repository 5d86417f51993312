import ServiceLang.Tree.Written

set_option autoImplicit false

/-! Trees without damage: no part stands for tokens that were skipped, and no closing
brace was only assumed. Such damage is seen in what is written of a tree. -/

namespace ServiceLang

open Word (inParens inBraces behind)

/-! ### Statements -/

mutual

def Stmt.IsWhole : Stmt → Prop
  | .ifElse _ thenBlock elseIfs elseBlock _ =>
      thenBlock.IsWhole ∧ ElseIf.AllWhole elseIfs ∧ Block.WholeIfAny elseBlock
  | .iterate _ _ _ body _ => body.IsWhole
  | .whileLoop _ body _ => body.IsWhole
  | .forkJoin workers join timeout _ =>
      Worker.AllWhole workers ∧ Join.WholeIfAny join ∧ Timeout.WholeIfAny timeout
  | .tryCatch body catches finallyBlock _ =>
      body.IsWhole ∧ Catch.AllWhole catches ∧ Block.WholeIfAny finallyBlock
  | .transform body _ => body.IsWhole
  | .transaction body aborted committed _ =>
      body.IsWhole ∧ Block.WholeIfAny aborted ∧ Block.WholeIfAny committed
  | .broken _ => False
  | _ => True

def Stmt.AllWhole : List Stmt → Prop
  | [] => True
  | statement :: rest => statement.IsWhole ∧ Stmt.AllWhole rest

def Block.IsWhole : Block → Prop
  | ⟨statements, close, _⟩ => Stmt.AllWhole statements ∧ close.isPresent = true

def Block.WholeIfAny : Option Block → Prop
  | some block => block.IsWhole
  | none => True

def CallableBody.IsWhole : CallableBody → Prop
  | ⟨statements, workers, close, _⟩ =>
      Stmt.AllWhole statements ∧ Worker.AllWhole workers ∧ close.isPresent = true

def Worker.AllWhole : List Worker → Prop
  | [] => True
  | ⟨_, body, _⟩ :: rest => body.IsWhole ∧ Worker.AllWhole rest

def ElseIf.AllWhole : List ElseIf → Prop
  | [] => True
  | ⟨_, block, _⟩ :: rest => block.IsWhole ∧ ElseIf.AllWhole rest

def Join.WholeIfAny : Option Join → Prop
  | some ⟨_, _, _, body, _⟩ => body.IsWhole
  | none => True

def Timeout.WholeIfAny : Option Timeout → Prop
  | some ⟨_, _, _, body, _⟩ => body.IsWhole
  | none => True

def Catch.AllWhole : List Catch → Prop
  | [] => True
  | ⟨_, _, body, _⟩ :: rest => body.IsWhole ∧ Catch.AllWhole rest

end

/-! ### Definitions -/

namespace Definition

def bodies : Definition → List CallableBody
  | service definition => definition.resources.map ResourceDef.body
  | function definition => definition.body.toList
  | connector definition => definition.actions.filterMap CallableDef.body
  | _ => []

def blocks : Definition → List Block
  | typeMapper definition => definition.body.toList
  | _ => []

def isBroken : Definition → Bool
  | broken _ => true
  | _ => false

structure IsWhole (definition : Definition) : Prop where
  notBroken : definition.isBroken = false
  bodies : ∀ body ∈ definition.bodies, body.IsWhole
  blocks : ∀ block ∈ definition.blocks, block.IsWhole

end Definition

def SourceUnit.IsWhole (unit : SourceUnit) : Prop :=
  ∀ item ∈ unit.items, item.IsWhole

/-! ### Damage is written -/

namespace Word

def AllRead (words : List Word) : Prop :=
  ∀ word ∈ words, word.kind ≠ .invalid

variable {words others : List Word}

@[simp]
theorem allRead_append : AllRead (words ++ others) ↔ AllRead words ∧ AllRead others :=
  List.forall_mem_append

@[simp]
theorem allRead_cons {word : Word} :
    AllRead (word :: words) ↔ word.kind ≠ .invalid ∧ AllRead words :=
  List.forall_mem_cons

theorem AllRead.of_flatMap {α : Type} {written : α → List Word} {items : List α}
    (all : AllRead (items.flatMap written)) {item : α} (member : item ∈ items) :
    AllRead (written item) :=
  fun word inside => all word (List.mem_flatMap.mpr ⟨item, member, inside⟩)

end Word

open Word (AllRead)

theorem TokenMarker.isPresent_of_allRead {marker : TokenMarker} (all : AllRead marker.written) :
    marker.isPresent = true := by
  cases present : marker.isPresent with
  | true => rfl
  | false =>
      simp only [written, present, Bool.false_eq_true, if_false] at all
      exact absurd rfl (all .invalid List.mem_cons_self)

mutual

theorem Stmt.isWhole_of_allRead : (statement : Stmt) → AllRead statement.written →
    statement.IsWhole
  | .ifElse _ thenBlock elseIfs elseBlock _, all => by
      simp only [Stmt.written, Word.allRead_cons, Word.allRead_append] at all
      exact ⟨thenBlock.isWhole_of_allRead all.2.2.1, ElseIf.allWhole_of_allRead elseIfs all.2.2.2.1,
        Block.wholeIfAny_of_allRead _ elseBlock all.2.2.2.2⟩
  | .iterate _ _ _ body _, all => by
      simp only [Stmt.written, Word.allRead_cons, Word.allRead_append] at all
      exact body.isWhole_of_allRead all.2.2
  | .whileLoop _ body _, all => by
      simp only [Stmt.written, Word.allRead_cons, Word.allRead_append] at all
      exact body.isWhole_of_allRead all.2.2
  | .forkJoin workers join timeout _, all => by
      simp only [Stmt.written, inBraces, Word.allRead_cons, Word.allRead_append] at all
      exact ⟨Worker.allWhole_of_allRead workers all.2.1.1.2, Join.wholeIfAny_of_allRead join all.2.2.1,
        Timeout.wholeIfAny_of_allRead timeout all.2.2.2⟩
  | .tryCatch body catches finallyBlock _, all => by
      simp only [Stmt.written, Word.allRead_cons, Word.allRead_append] at all
      exact ⟨body.isWhole_of_allRead all.2.1, Catch.allWhole_of_allRead catches all.2.2.1,
        Block.wholeIfAny_of_allRead _ finallyBlock all.2.2.2⟩
  | .transform body _, all => by
      simp only [Stmt.written, Word.allRead_cons] at all
      exact body.isWhole_of_allRead all.2
  | .transaction body aborted committed _, all => by
      simp only [Stmt.written, Word.allRead_cons, Word.allRead_append] at all
      exact ⟨body.isWhole_of_allRead all.2.1, Block.wholeIfAny_of_allRead _ aborted all.2.2.1,
        Block.wholeIfAny_of_allRead _ committed all.2.2.2⟩
  | .broken _, all => all .invalid List.mem_cons_self rfl
  | .varDef _, _ | .assign .., _ | .continueLoop _, _ | .breakLoop _, _ | .throw .., _
  | .returns .., _ | .reply .., _ | .send .., _ | .receive .., _ | .comment .., _
  | .invoke .., _ | .call .., _ | .abort _, _ | .namespaceDecl _, _ => trivial

theorem Stmt.allWhole_of_allRead : (statements : List Stmt) → AllRead (Stmt.writtens statements) →
    Stmt.AllWhole statements
  | [], _ => trivial
  | statement :: rest, all => by
      rw [Stmt.writtens, Word.allRead_append] at all
      exact ⟨statement.isWhole_of_allRead all.1, Stmt.allWhole_of_allRead rest all.2⟩

theorem Block.isWhole_of_allRead : (block : Block) → AllRead block.written → block.IsWhole
  | ⟨statements, _, _⟩, all => by
      simp only [Block.written, Word.allRead_cons, Word.allRead_append] at all
      exact ⟨Stmt.allWhole_of_allRead statements all.2.1, TokenMarker.isPresent_of_allRead all.2.2⟩

theorem Block.wholeIfAny_of_allRead (front : List Word) : (block : Option Block) →
    AllRead (Block.writtenBehind front block) → Block.WholeIfAny block
  | none, _ => trivial
  | some block, all => by
      rw [Block.writtenBehind, Word.allRead_append] at all
      exact block.isWhole_of_allRead all.2

theorem CallableBody.isWhole_of_allRead : (body : CallableBody) → AllRead body.written →
    body.IsWhole
  | ⟨statements, workers, _, _⟩, all => by
      simp only [CallableBody.written, Word.allRead_cons, Word.allRead_append] at all
      exact ⟨Stmt.allWhole_of_allRead statements all.2.1, Worker.allWhole_of_allRead workers all.2.2.1,
        TokenMarker.isPresent_of_allRead all.2.2.2⟩

theorem Worker.allWhole_of_allRead : (workers : List Worker) → AllRead (Worker.writtens workers) →
    Worker.AllWhole workers
  | [], _ => trivial
  | ⟨_, body, _⟩ :: rest, all => by
      simp only [Worker.writtens, Worker.written, Word.allRead_cons, Word.allRead_append] at all
      exact ⟨body.isWhole_of_allRead all.1.2.2, Worker.allWhole_of_allRead rest all.2⟩

theorem ElseIf.allWhole_of_allRead : (branches : List ElseIf) → AllRead (ElseIf.writtens branches) →
    ElseIf.AllWhole branches
  | [], _ => trivial
  | ⟨_, block, _⟩ :: rest, all => by
      simp only [ElseIf.writtens, Word.allRead_cons, Word.allRead_append] at all
      exact ⟨block.isWhole_of_allRead all.2.2.2.1, ElseIf.allWhole_of_allRead rest all.2.2.2.2⟩

theorem Join.wholeIfAny_of_allRead : (clause : Option Join) → AllRead (Join.writtenIfAny clause) →
    Join.WholeIfAny clause
  | none, _ => trivial
  | some ⟨_, _, _, body, _⟩, all => by
      simp only [Join.writtenIfAny, Word.allRead_cons, Word.allRead_append] at all
      exact body.isWhole_of_allRead all.2.2.2

theorem Timeout.wholeIfAny_of_allRead : (clause : Option Timeout) →
    AllRead (Timeout.writtenIfAny clause) → Timeout.WholeIfAny clause
  | none, _ => trivial
  | some ⟨_, _, _, body, _⟩, all => by
      simp only [Timeout.writtenIfAny, Word.allRead_cons, Word.allRead_append] at all
      exact body.isWhole_of_allRead all.2.2.2

theorem Catch.allWhole_of_allRead : (clauses : List Catch) → AllRead (Catch.writtens clauses) →
    Catch.AllWhole clauses
  | [], _ => trivial
  | ⟨_, _, body, _⟩ :: rest, all => by
      simp only [Catch.writtens, Word.allRead_cons, Word.allRead_append] at all
      exact ⟨body.isWhole_of_allRead all.2.2.1, Catch.allWhole_of_allRead rest all.2.2.2⟩

end

theorem Definition.isWhole_of_allRead {definition : Definition}
    (all : AllRead definition.written) : definition.IsWhole := by
  refine ⟨?_, fun body member => ?_, fun block member => ?_⟩
  · cases definition with
    | broken span => exact absurd rfl (all .invalid List.mem_cons_self)
    | _ => rfl
  · cases definition with
    | service definition =>
        obtain ⟨resource, inside, rfl⟩ := List.mem_map.mp member
        simp only [written, ServiceDef.written, inBraces, Word.allRead_cons,
          Word.allRead_append] at all
        have whole := AllRead.of_flatMap all.2.2.2.2.1.2.2 inside
        simp only [ResourceDef.written, Word.allRead_cons, Word.allRead_append] at whole
        exact resource.body.isWhole_of_allRead whole.2.2.2.2
    | function definition =>
        obtain isBody := Option.mem_toList.mp member
        simp only [written, CallableDef.written, Word.allRead_cons, Word.allRead_append,
          Option.mem_def.mp isBody, endWritten] at all
        exact body.isWhole_of_allRead all.2.2.2.2
    | connector definition =>
        obtain ⟨action, inside, isBody⟩ := List.mem_filterMap.mp member
        simp only [written, ConnectorDef.written, inBraces, Word.allRead_cons,
          Word.allRead_append] at all
        have whole := AllRead.of_flatMap all.2.2.2.2.1.2.2 inside
        simp only [CallableDef.written, Word.allRead_cons, Word.allRead_append, isBody,
          endWritten] at whole
        exact body.isWhole_of_allRead whole.2.2.2.2
    | _ => cases member
  · cases definition with
    | typeMapper definition =>
        obtain isBody := Option.mem_toList.mp member
        simp only [written, TypeMapperDef.written, Word.allRead_cons, Word.allRead_append,
          Option.mem_def.mp isBody, endWritten] at all
        exact block.isWhole_of_allRead all.2.2.2.2.2.2
    | _ => cases member

theorem SourceUnit.isWhole_of_allRead {unit : SourceUnit} (all : AllRead unit.written) :
    unit.IsWhole := by
  rw [written, Word.allRead_append, Word.allRead_append] at all
  exact fun item member => Definition.isWhole_of_allRead (AllRead.of_flatMap all.2.2 member)

end ServiceLang
