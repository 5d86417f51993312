import ServiceLang.Tree.Definition

set_option autoImplicit false

/-! Trees of which some things are not kept: the comments among the statements, and the
marks that tell a brace that was only assumed from one that stands there. Everything else
stays, the places included. -/

namespace ServiceLang

structure Sieve where
  /-- Whether comments are kept as statements. -/
  comments : Bool
  /-- Whether it is kept which closing tokens were only assumed. -/
  marks : Bool

namespace Sieve

def whole : Sieve :=
  ⟨true, true⟩

def silent : Sieve :=
  ⟨false, true⟩

def coarse : Sieve :=
  ⟨false, false⟩

end Sieve

variable (sieve : Sieve)

def TokenMarker.sifted (marker : TokenMarker) : TokenMarker :=
  ⟨marker.span, sieve.marks && marker.synthetic⟩

mutual

def Stmt.sifted : Stmt → Stmt
  | .ifElse condition thenBlock elseIfs elseBlock span =>
      .ifElse condition thenBlock.sifted (ElseIf.allSifted elseIfs) (Block.siftedIfAny elseBlock)
        span
  | .iterate type name collection body span => .iterate type name collection body.sifted span
  | .whileLoop condition body span => .whileLoop condition body.sifted span
  | .forkJoin workers join timeout span =>
      .forkJoin (Worker.allSifted workers) (Join.siftedIfAny join) (Timeout.siftedIfAny timeout)
        span
  | .tryCatch body catches finallyBlock span =>
      .tryCatch body.sifted (Catch.allSifted catches) (Block.siftedIfAny finallyBlock) span
  | .transform body span => .transform body.sifted span
  | .transaction body aborted committed span =>
      .transaction body.sifted (Block.siftedIfAny aborted) (Block.siftedIfAny committed) span
  | statement => statement

def Stmt.allSifted : List Stmt → List Stmt
  | [] => []
  | .comment text span :: rest =>
      if sieve.comments then .comment text span :: Stmt.allSifted rest else Stmt.allSifted rest
  | statement :: rest => statement.sifted :: Stmt.allSifted rest

def Block.sifted : Block → Block
  | ⟨statements, close, span⟩ => ⟨Stmt.allSifted statements, close.sifted sieve, span⟩

def Block.siftedIfAny : Option Block → Option Block
  | some block => some block.sifted
  | none => none

def CallableBody.sifted : CallableBody → CallableBody
  | ⟨statements, workers, close, span⟩ =>
      ⟨Stmt.allSifted statements, Worker.allSifted workers, close.sifted sieve, span⟩

def Worker.sifted : Worker → Worker
  | ⟨name, body, span⟩ => ⟨name, body.sifted, span⟩

def Worker.allSifted : List Worker → List Worker
  | [] => []
  | worker :: rest => worker.sifted :: Worker.allSifted rest

def ElseIf.sifted : ElseIf → ElseIf
  | ⟨condition, block, span⟩ => ⟨condition, block.sifted, span⟩

def ElseIf.allSifted : List ElseIf → List ElseIf
  | [] => []
  | branch :: rest => branch.sifted :: ElseIf.allSifted rest

def Join.sifted : Join → Join
  | ⟨condition, type, name, body, span⟩ => ⟨condition, type, name, body.sifted, span⟩

def Join.siftedIfAny : Option Join → Option Join
  | some join => some join.sifted
  | none => none

def Timeout.sifted : Timeout → Timeout
  | ⟨timeout, type, name, body, span⟩ => ⟨timeout, type, name, body.sifted, span⟩

def Timeout.siftedIfAny : Option Timeout → Option Timeout
  | some timeout => some timeout.sifted
  | none => none

def Catch.sifted : Catch → Catch
  | ⟨type, name, body, span⟩ => ⟨type, name, body.sifted, span⟩

def Catch.allSifted : List Catch → List Catch
  | [] => []
  | clause :: rest => clause.sifted :: Catch.allSifted rest

end

/-! ### Lists and optional parts -/

theorem Stmt.allSifted_cons (statement : Stmt) (rest : List Stmt) :
    Stmt.allSifted sieve (statement :: rest) =
      Stmt.allSifted sieve [statement] ++ Stmt.allSifted sieve rest := by
  cases statement with
  | comment text span => simp only [allSifted]; split <;> rfl
  | _ => rfl

theorem Stmt.allSifted_append (first second : List Stmt) :
    Stmt.allSifted sieve (first ++ second) =
      Stmt.allSifted sieve first ++ Stmt.allSifted sieve second := by
  induction first with
  | nil => rfl
  | cons statement rest ih =>
      rw [List.cons_append, allSifted_cons, ih, allSifted_cons sieve statement rest,
        List.append_assoc]

/-- Whether a statement is kept can be told from what is kept of it. -/
theorem Stmt.allSifted_singleton {left right : Stmt}
    (same : left.sifted sieve = right.sifted sieve) :
    Stmt.allSifted sieve [left] = Stmt.allSifted sieve [right] := by
  cases left <;> cases right <;>
    first
      | exact congrArg (fun kept => [kept]) same
      | cases same; rfl
      | cases same

/-- Where comments are not kept, nothing is left of them. -/
theorem Stmt.allSifted_comments {sieve : Sieve} (silent : sieve.comments = false)
    {statements : List Stmt} (comments : ∀ statement ∈ statements, ∃ text span,
      statement = .comment text span) : Stmt.allSifted sieve statements = [] := by
  induction statements with
  | nil => rfl
  | cons statement rest ih =>
      obtain ⟨text, span, rfl⟩ := comments _ List.mem_cons_self
      rw [allSifted, if_neg (by rw [silent]; exact Bool.false_ne_true)]
      exact ih fun other member => comments other (List.mem_cons_of_mem _ member)

theorem Worker.allSifted_eq_map (workers : List Worker) :
    Worker.allSifted sieve workers = workers.map (sifted sieve) := by
  induction workers with
  | nil => rfl
  | cons worker rest ih => rw [allSifted, ih, List.map_cons]

theorem ElseIf.allSifted_eq_map (branches : List ElseIf) :
    ElseIf.allSifted sieve branches = branches.map (sifted sieve) := by
  induction branches with
  | nil => rfl
  | cons branch rest ih => rw [allSifted, ih, List.map_cons]

theorem Catch.allSifted_eq_map (clauses : List Catch) :
    Catch.allSifted sieve clauses = clauses.map (sifted sieve) := by
  induction clauses with
  | nil => rfl
  | cons clause rest ih => rw [allSifted, ih, List.map_cons]

theorem Block.siftedIfAny_eq_map (block : Option Block) :
    Block.siftedIfAny sieve block = block.map (sifted sieve) := by
  cases block <;> rfl

theorem Join.siftedIfAny_eq_map (join : Option Join) :
    Join.siftedIfAny sieve join = join.map (sifted sieve) := by
  cases join <;> rfl

theorem Timeout.siftedIfAny_eq_map (timeout : Option Timeout) :
    Timeout.siftedIfAny sieve timeout = timeout.map (sifted sieve) := by
  cases timeout <;> rfl

/-! ### Definitions and sources -/

def ResourceDef.sifted (definition : ResourceDef) : ResourceDef :=
  { definition with body := definition.body.sifted sieve }

def ServiceDef.sifted (definition : ServiceDef) : ServiceDef :=
  { definition with resources := definition.resources.map (ResourceDef.sifted sieve) }

def CallableDef.sifted (definition : CallableDef) : CallableDef :=
  { definition with body := definition.body.map (CallableBody.sifted sieve) }

def ConnectorDef.sifted (definition : ConnectorDef) : ConnectorDef :=
  { definition with actions := definition.actions.map (CallableDef.sifted sieve) }

def TypeMapperDef.sifted (definition : TypeMapperDef) : TypeMapperDef :=
  { definition with body := definition.body.map (Block.sifted sieve) }

def Definition.sifted : Definition → Definition
  | .service definition => .service (definition.sifted sieve)
  | .function definition => .function (definition.sifted sieve)
  | .connector definition => .connector (definition.sifted sieve)
  | .typeMapper definition => .typeMapper (definition.sifted sieve)
  | definition => definition

def SourceUnit.sifted (unit : SourceUnit) : SourceUnit :=
  { unit with items := unit.items.map (Definition.sifted sieve) }

/-! ### Where everything is kept -/

@[simp]
theorem TokenMarker.sifted_whole (marker : TokenMarker) : marker.sifted .whole = marker :=
  congrArg (TokenMarker.mk marker.span) (Bool.true_and _)

mutual

theorem Stmt.sifted_whole : (statement : Stmt) → statement.sifted .whole = statement
  | .varDef _ | .assign .. | .continueLoop _ | .breakLoop _ | .throw .. | .returns .. | .reply ..
  | .send .. | .receive .. | .comment .. | .invoke .. | .call .. | .abort _ | .namespaceDecl _
  | .broken _ => rfl
  | .ifElse _ thenBlock elseIfs elseBlock _ => by
      rw [Stmt.sifted, thenBlock.sifted_whole, ElseIf.allSifted_whole elseIfs,
        Block.siftedIfAny_whole elseBlock]
  | .iterate _ _ _ body _ | .whileLoop _ body _ | .transform body _ => by
      rw [Stmt.sifted, body.sifted_whole]
  | .forkJoin workers join timeout _ => by
      rw [Stmt.sifted, Worker.allSifted_whole workers, Join.siftedIfAny_whole join,
        Timeout.siftedIfAny_whole timeout]
  | .tryCatch body catches finallyBlock _ => by
      rw [Stmt.sifted, body.sifted_whole, Catch.allSifted_whole catches,
        Block.siftedIfAny_whole finallyBlock]
  | .transaction body aborted committed _ => by
      rw [Stmt.sifted, body.sifted_whole, Block.siftedIfAny_whole aborted,
        Block.siftedIfAny_whole committed]

theorem Stmt.allSifted_whole : (statements : List Stmt) →
    Stmt.allSifted .whole statements = statements
  | [] => rfl
  | statement :: rest => by
      have one : Stmt.allSifted .whole [statement] = [statement.sifted .whole] := by
        cases statement <;> rfl
      rw [Stmt.allSifted_cons, one, statement.sifted_whole, Stmt.allSifted_whole rest,
        List.singleton_append]

theorem Block.sifted_whole : (block : Block) → block.sifted .whole = block
  | ⟨statements, _, _⟩ => by
      rw [Block.sifted, Stmt.allSifted_whole statements, TokenMarker.sifted_whole]

theorem Block.siftedIfAny_whole : (block : Option Block) → Block.siftedIfAny .whole block = block
  | some block => by rw [Block.siftedIfAny, block.sifted_whole]
  | none => rfl

theorem CallableBody.sifted_whole : (body : CallableBody) → body.sifted .whole = body
  | ⟨statements, workers, _, _⟩ => by
      rw [CallableBody.sifted, Stmt.allSifted_whole statements, Worker.allSifted_whole workers,
        TokenMarker.sifted_whole]

theorem Worker.sifted_whole : (worker : Worker) → worker.sifted .whole = worker
  | ⟨_, body, _⟩ => by rw [Worker.sifted, body.sifted_whole]

theorem Worker.allSifted_whole : (workers : List Worker) →
    Worker.allSifted .whole workers = workers
  | [] => rfl
  | worker :: rest => by
      rw [Worker.allSifted, worker.sifted_whole, Worker.allSifted_whole rest]

theorem ElseIf.sifted_whole : (branch : ElseIf) → branch.sifted .whole = branch
  | ⟨_, block, _⟩ => by rw [ElseIf.sifted, block.sifted_whole]

theorem ElseIf.allSifted_whole : (branches : List ElseIf) →
    ElseIf.allSifted .whole branches = branches
  | [] => rfl
  | branch :: rest => by
      rw [ElseIf.allSifted, branch.sifted_whole, ElseIf.allSifted_whole rest]

theorem Join.sifted_whole : (join : Join) → join.sifted .whole = join
  | ⟨_, _, _, body, _⟩ => by rw [Join.sifted, body.sifted_whole]

theorem Join.siftedIfAny_whole : (join : Option Join) → Join.siftedIfAny .whole join = join
  | some join => by rw [Join.siftedIfAny, join.sifted_whole]
  | none => rfl

theorem Timeout.sifted_whole : (timeout : Timeout) → timeout.sifted .whole = timeout
  | ⟨_, _, _, body, _⟩ => by rw [Timeout.sifted, body.sifted_whole]

theorem Timeout.siftedIfAny_whole : (timeout : Option Timeout) →
    Timeout.siftedIfAny .whole timeout = timeout
  | some timeout => by rw [Timeout.siftedIfAny, timeout.sifted_whole]
  | none => rfl

theorem Catch.sifted_whole : (clause : Catch) → clause.sifted .whole = clause
  | ⟨_, _, body, _⟩ => by rw [Catch.sifted, body.sifted_whole]

theorem Catch.allSifted_whole : (clauses : List Catch) →
    Catch.allSifted .whole clauses = clauses
  | [] => rfl
  | clause :: rest => by
      rw [Catch.allSifted, clause.sifted_whole, Catch.allSifted_whole rest]

end

/-- Values of which everything is kept stay as they are, one by one. -/
theorem map_sifted_whole {α : Type} {sifted : α → α} (stays : ∀ value, sifted value = value)
    (values : List α) : values.map sifted = values := by
  rw [show sifted = id from funext stays, List.map_id]

theorem ResourceDef.sifted_whole (definition : ResourceDef) :
    definition.sifted .whole = definition := by
  rw [sifted, CallableBody.sifted_whole]

theorem CallableDef.sifted_whole (definition : CallableDef) :
    definition.sifted .whole = definition := by
  rw [sifted, show CallableBody.sifted .whole = id from funext CallableBody.sifted_whole,
    Option.map_id_fun, id]

theorem Definition.sifted_whole (definition : Definition) :
    definition.sifted .whole = definition := by
  cases definition with
  | service definition =>
      rw [sifted, ServiceDef.sifted, map_sifted_whole ResourceDef.sifted_whole]
  | function definition => rw [sifted, CallableDef.sifted_whole]
  | connector definition =>
      rw [sifted, ConnectorDef.sifted, map_sifted_whole CallableDef.sifted_whole]
  | typeMapper definition =>
      rw [sifted, TypeMapperDef.sifted, show Block.sifted .whole = id from
        funext Block.sifted_whole, Option.map_id_fun, id]
  | _ => rfl

theorem SourceUnit.sifted_whole (unit : SourceUnit) : unit.sifted .whole = unit := by
  rw [sifted, map_sifted_whole Definition.sifted_whole]

end ServiceLang
