import ServiceLang.Tree.Definition

set_option autoImplicit false

/-! The bodies of a tree, and the comments among their statements. Nothing but a body holds
statements, so that no comment of the tree is anywhere else. -/

namespace ServiceLang

/-! ### Comments in one body -/

abbrev Remark : Type :=
  String × Span

def Stmt.remark? : Stmt → Option Remark
  | .comment text span => some (text, span)
  | _ => none

def Stmt.starts (statements : List Stmt) : List Nat :=
  (statements.filter fun statement => statement.remark?.isNone).map fun statement =>
    statement.span.start

namespace CallableBody

/-- The comments among the statements of a body, in their order. Those in bodies below are not
among them. -/
def remarks (body : CallableBody) : List Remark :=
  body.statements.filterMap Stmt.remark?

/-- The offsets before which comments can stand in a body: where its statements and workers
start, and where its closing brace stands. -/
def starts (body : CallableBody) : List Nat :=
  Stmt.starts body.statements ++ body.workers.map (fun worker => worker.span.start) ++
    [body.close.span.start]

end CallableBody

abbrev remarksOf (bodies : List CallableBody) : List Remark :=
  bodies.flatMap CallableBody.remarks

theorem remarksOf_append (left right : List CallableBody) :
    remarksOf (left ++ right) = remarksOf left ++ remarksOf right :=
  List.flatMap_append

def Block.toBody (block : Block) : CallableBody :=
  ⟨block.statements, [], block.close, block.span⟩

/-! ### Bodies of a tree -/

def bodiesIfAny {α : Type} (bodies : α → List CallableBody) : Option α → List CallableBody
  | some part => bodies part
  | none => []

mutual

def Stmt.bodies : Stmt → List CallableBody
  | .ifElse _ thenBlock elseIfs elseBlock _ =>
      thenBlock.bodies ++ ElseIf.allBodies elseIfs ++ Block.bodiesIfAny elseBlock
  | .iterate _ _ _ body _ | .whileLoop _ body _ | .transform body _ => body.bodies
  | .forkJoin workers join timeout _ =>
      Worker.allBodies workers ++ Join.bodiesIfAny join ++ Timeout.bodiesIfAny timeout
  | .tryCatch body catches finallyBlock _ =>
      body.bodies ++ Catch.allBodies catches ++ Block.bodiesIfAny finallyBlock
  | .transaction body aborted committed _ =>
      body.bodies ++ Block.bodiesIfAny aborted ++ Block.bodiesIfAny committed
  | .varDef _ | .assign .. | .continueLoop _ | .breakLoop _ | .throw .. | .returns ..
  | .reply .. | .send .. | .receive .. | .comment .. | .invoke .. | .call .. | .abort _
  | .namespaceDecl _ | .broken _ => []

def Stmt.allBodies : List Stmt → List CallableBody
  | [] => []
  | statement :: rest => statement.bodies ++ Stmt.allBodies rest

def Block.bodies : Block → List CallableBody
  | ⟨statements, close, span⟩ => ⟨statements, [], close, span⟩ :: Stmt.allBodies statements

def Block.bodiesIfAny : Option Block → List CallableBody
  | some block => block.bodies
  | none => []

def CallableBody.bodies : CallableBody → List CallableBody
  | ⟨statements, workers, close, span⟩ =>
      ⟨statements, workers, close, span⟩ :: (Stmt.allBodies statements ++ Worker.allBodies workers)

def Worker.bodies : Worker → List CallableBody
  | ⟨_, body, _⟩ => body.bodies

def Worker.allBodies : List Worker → List CallableBody
  | [] => []
  | worker :: rest => worker.bodies ++ Worker.allBodies rest

def ElseIf.bodies : ElseIf → List CallableBody
  | ⟨_, block, _⟩ => block.bodies

def ElseIf.allBodies : List ElseIf → List CallableBody
  | [] => []
  | branch :: rest => branch.bodies ++ ElseIf.allBodies rest

def Join.bodies : Join → List CallableBody
  | ⟨_, _, _, body, _⟩ => body.bodies

def Join.bodiesIfAny : Option Join → List CallableBody
  | some join => join.bodies
  | none => []

def Timeout.bodies : Timeout → List CallableBody
  | ⟨_, _, _, body, _⟩ => body.bodies

def Timeout.bodiesIfAny : Option Timeout → List CallableBody
  | some timeout => timeout.bodies
  | none => []

def Catch.bodies : Catch → List CallableBody
  | ⟨_, _, body, _⟩ => body.bodies

def Catch.allBodies : List Catch → List CallableBody
  | [] => []
  | clause :: rest => clause.bodies ++ Catch.allBodies rest

end

def ResourceDef.bodies (definition : ResourceDef) : List CallableBody :=
  definition.body.bodies

def CallableDef.bodies (definition : CallableDef) : List CallableBody :=
  bodiesIfAny CallableBody.bodies definition.body

def TypeMapperDef.bodies (definition : TypeMapperDef) : List CallableBody :=
  bodiesIfAny Block.bodies definition.body

def Definition.allBodies : Definition → List CallableBody
  | .service definition => definition.resources.flatMap ResourceDef.bodies
  | .function definition => definition.bodies
  | .connector definition => definition.actions.flatMap CallableDef.bodies
  | .typeMapper definition => definition.bodies
  | .struct _ | .constant _ | .annotationDef _ | .globalVar _ | .broken _ => []

/-- All bodies of a source: those of its callables and workers, and all blocks. -/
def SourceUnit.bodies (unit : SourceUnit) : List CallableBody :=
  unit.items.flatMap Definition.allBodies

/-! ### Lists and optional parts -/

@[simp]
theorem Stmt.allBodies_eq (statements : List Stmt) :
    Stmt.allBodies statements = statements.flatMap Stmt.bodies := by
  induction statements with
  | nil => rfl
  | cons statement rest ih => rw [allBodies, ih, List.flatMap_cons]

@[simp]
theorem Worker.allBodies_eq (workers : List Worker) :
    Worker.allBodies workers = workers.flatMap Worker.bodies := by
  induction workers with
  | nil => rfl
  | cons worker rest ih => rw [allBodies, ih, List.flatMap_cons]

@[simp]
theorem ElseIf.allBodies_eq (branches : List ElseIf) :
    ElseIf.allBodies branches = branches.flatMap ElseIf.bodies := by
  induction branches with
  | nil => rfl
  | cons branch rest ih => rw [allBodies, ih, List.flatMap_cons]

@[simp]
theorem Catch.allBodies_eq (clauses : List Catch) :
    Catch.allBodies clauses = clauses.flatMap Catch.bodies := by
  induction clauses with
  | nil => rfl
  | cons clause rest ih => rw [allBodies, ih, List.flatMap_cons]

@[simp]
theorem Block.bodiesIfAny_eq (block : Option Block) :
    Block.bodiesIfAny block = ServiceLang.bodiesIfAny Block.bodies block := by
  cases block <;> rfl

@[simp]
theorem Join.bodiesIfAny_eq (join : Option Join) :
    Join.bodiesIfAny join = ServiceLang.bodiesIfAny Join.bodies join := by
  cases join <;> rfl

@[simp]
theorem Timeout.bodiesIfAny_eq (timeout : Option Timeout) :
    Timeout.bodiesIfAny timeout = ServiceLang.bodiesIfAny Timeout.bodies timeout := by
  cases timeout <;> rfl

/-! ### Statements with bodies -/

namespace Stmt

variable (body : Block) (others : Option Block) (span : Span)

@[simp]
theorem bodies_ifElse (condition : Expr) (branches : List ElseIf) :
    (ifElse condition body branches others span).bodies =
      body.bodies ++ branches.flatMap ElseIf.bodies ++
        ServiceLang.bodiesIfAny Block.bodies others := by
  rw [← ElseIf.allBodies_eq, ← Block.bodiesIfAny_eq]
  rfl

@[simp]
theorem bodies_iterate (type : TypeName) (name : Identifier) (collection : Expr) :
    (iterate type name collection body span).bodies = body.bodies :=
  rfl

@[simp]
theorem bodies_whileLoop (condition : Expr) :
    (whileLoop condition body span).bodies = body.bodies :=
  rfl

@[simp]
theorem bodies_transform : (transform body span).bodies = body.bodies :=
  rfl

@[simp]
theorem bodies_forkJoin (workers : List Worker) (join : Option Join) (timeout : Option Timeout) :
    (forkJoin workers join timeout span).bodies =
      workers.flatMap Worker.bodies ++ ServiceLang.bodiesIfAny Join.bodies join ++
        ServiceLang.bodiesIfAny Timeout.bodies timeout := by
  rw [← Worker.allBodies_eq, ← Join.bodiesIfAny_eq, ← Timeout.bodiesIfAny_eq]
  rfl

@[simp]
theorem bodies_tryCatch (catches : List Catch) :
    (tryCatch body catches others span).bodies =
      body.bodies ++ catches.flatMap Catch.bodies ++
        ServiceLang.bodiesIfAny Block.bodies others := by
  rw [← Catch.allBodies_eq, ← Block.bodiesIfAny_eq]
  rfl

@[simp]
theorem bodies_transaction (committed : Option Block) :
    (transaction body others committed span).bodies =
      body.bodies ++ ServiceLang.bodiesIfAny Block.bodies others ++
        ServiceLang.bodiesIfAny Block.bodies committed := by
  rw [← Block.bodiesIfAny_eq, ← Block.bodiesIfAny_eq]
  rfl

end Stmt

/-! ### Bodies of a body -/

theorem CallableBody.bodies_eq (body : CallableBody) :
    body.bodies = body ::
      (body.statements.flatMap Stmt.bodies ++ body.workers.flatMap Worker.bodies) := by
  rw [← Stmt.allBodies_eq, ← Worker.allBodies_eq]
  cases body
  rfl

theorem Block.bodies_eq (block : Block) :
    block.bodies = block.toBody :: block.statements.flatMap Stmt.bodies := by
  rw [← Stmt.allBodies_eq]
  cases block
  rfl

theorem CallableBody.bodies_toBlock {body : CallableBody} (unworked : body.workers = []) :
    body.toBlock.bodies = body.bodies := by
  obtain ⟨statements, workers, close, span⟩ := body
  obtain rfl : workers = [] := unworked
  rw [Block.bodies_eq, bodies_eq, List.flatMap_nil, List.append_nil]
  rfl

end ServiceLang
