import ServiceLang.Grammar.Stmt
import ServiceLang.Proofs.WellFormedExpr

set_option autoImplicit false

/-! What the rules for statements and bodies give. A body is well formed whatever is
wrong with what stands in it: a broken statement leaves nothing but a placeholder. -/

namespace ServiceLang

namespace Grammar

open Step

/-- What may stand among the statements of a body. -/
def BodyKind.Allows : BodyKind → Stmt → Prop
  | .transform, statement => statement.Transforms
  | .block, statement | .callable, statement => statement.WellFormed

theorem BodyKind.allows_comment (kind : BodyKind) (text : String) (span : Span) :
    kind.Allows (.comment text span) := by
  cases kind <;> trivial

theorem BodyKind.allows_broken (kind : BodyKind) (span : Span) : kind.Allows (.broken span) := by
  cases kind <;> trivial

structure BodyKind.Admits (kind : BodyKind) (body : CallableBody) : Prop where
  statements : ∀ statement ∈ body.statements, kind.Allows statement
  workers : ∀ worker ∈ body.workers, worker.body.WellFormed

structure StmtParts.AreWellFormed (parts : StmtParts) : Prop where
  plain : parts.toExprParts.ArePlain
  body : ∀ kind, Gives (parts.body kind) kind.Admits

section Parts

variable {parts : StmtParts} (formed : parts.AreWellFormed)

include formed

/-! ### Parts with bodies -/

theorem callableBody_wellFormed : Gives (parts.body .callable) CallableBody.WellFormed :=
  fun _ _ body ran => body.wellFormed_iff.mpr
    ⟨(formed.body _ ran).statements, (formed.body _ ran).workers⟩

theorem block_wellFormed : Gives parts.block Block.WellFormed :=
  (formed.body .block).bindOf fun body admits =>
    .pure ((Stmt.allWellFormed_iff body.statements).mpr admits.statements)

theorem transformBody_transforms : Gives (parts.body .transform) fun body => body.toBlock.Transforms :=
  fun _ _ body ran => (Stmt.allTransform_iff body.statements).mpr (formed.body _ ran).statements

theorem worker_wellFormed : Gives (worker parts) fun worker => worker.body.WellFormed :=
  .bind fun _ => .bind fun _ => .bindOf (callableBody_wellFormed formed) fun _ body => .pure body

theorem elseIf_wellFormed (word : Token) :
    Gives (elseIf parts word) fun branch => branch.condition.IsPlain ∧ branch.block.WellFormed :=
  (condition_plain formed.plain).bindOf fun _ condition =>
    .bindOf (block_wellFormed formed) fun _ block => .pure ⟨condition, block⟩

theorem elseBranches_wellFormed :
    Gives (elseBranches parts) fun found =>
      ElseIf.AllWellFormed found.1 ∧ Block.WellFormedIfAny found.2 := by
  refine .loop (fun found start => .bind fun word => ?_) ⟨trivial, trivial⟩
  split
  · exact .pure start
  · refine .bind fun _ => .ite ?_ ?_
    · refine .bindOf (elseIf_wellFormed formed _) fun branch here => .pure ⟨?_, start.2⟩
      have before := (ElseIf.allWellFormed_iff found.1).mp start.1
      exact (ElseIf.allWellFormed_iff _).mpr (Gives.append before here)
    · exact .bindOf (block_wellFormed formed) fun _ block => .pure ⟨start.1, block⟩

theorem forkWorkers_wellFormed :
    Gives (forkWorkers parts) fun workers => ∀ worker ∈ workers, worker.body.WellFormed := by
  have one : Gives (forkWorker parts) fun worker => worker.body.WellFormed :=
    .bind fun _ => .ite (worker_wellFormed formed) (.bind fun _ => .fail _)
  refine .loop (fun workers start => .bind fun _ => .ite (.pure start) ?_) (by simp)
  refine .bindOf (.orRecover (one.bindOf fun _ here => .pure ?_) fun _ => start) fun _ all => .pure all
  exact Gives.append start here

theorem joinClause_wellFormed : Gives (joinClause parts) fun clause => clause.body.WellFormed :=
  .bind fun _ => .bind fun _ => .bind fun _ => .bindOf (block_wellFormed formed) fun _ body =>
    .pure body

theorem timeoutClause_wellFormed :
    Gives (timeoutClause parts) fun clause => clause.timeout.IsPlain ∧ clause.body.WellFormed :=
  .bind fun _ => .bindOf (condition_plain formed.plain) fun _ timeout => .bind fun _ =>
    .bindOf (block_wellFormed formed) fun _ body => .pure ⟨timeout, body⟩

theorem catchClause_wellFormed : Gives (catchClause parts) fun clause => clause.body.WellFormed :=
  .bind fun _ => .bind fun _ => .bindOf (block_wellFormed formed) fun _ body => .pure body

def Handlers.WellFormed (found : Handlers) : Prop :=
  Block.WellFormedIfAny found.aborted ∧ Block.WellFormedIfAny found.committed

omit formed in
theorem Handlers.WellFormed.set {found : Handlers} (start : found.WellFormed) (isAborted : Bool)
    {block : Block} (here : block.WellFormed) : (found.set isAborted block).WellFormed := by
  cases isAborted
  · exact ⟨start.1, here⟩
  · exact ⟨here, start.2⟩

theorem handlers_wellFormed : Gives (handlers parts) Handlers.WellFormed := by
  have one (isAborted : Bool) {found : Handlers} (start : found.WellFormed) :
      Gives (handler parts isAborted found) Handlers.WellFormed :=
    .bind fun _ => .bindOf (block_wellFormed formed) fun _ block =>
      .ite (.bind fun _ => .pure start) (.pure (start.set isAborted block))
  refine .loop (fun found start => .bind fun _ => .ite ?_ (.bind fun _ => .ite ?_ (.pure start)))
    ⟨trivial, trivial⟩
  · exact (one true start).bindOf fun _ here => .pure here
  · exact (one false start).bindOf fun _ here => .pure here

/-! ### Variables, assignments and messages -/

theorem varDef_wellFormed : Gives (varDef parts) VarDef.WellFormed :=
  .bind fun _ => .bind fun _ =>
    .bindOf (.ifBehind (initializer_isInitializer formed.plain)) fun _ init => .bind fun _ =>
      .bind fun _ => .pure init

theorem varAssignment_wellFormed : Gives (varAssignment parts) Stmt.WellFormed :=
  .bind fun _ => .bindOf (references_plain formed.plain) fun _ targets => .bind fun _ =>
    .bindOf (initializer_isInitializer formed.plain) fun _ value => .bind fun _ => .bind fun _ =>
      .pure ⟨targets, value⟩

omit formed in
/-- Targets are read from expressions that are references, one from each. -/
theorem assignmentTargets_gives (exprs : List Expr) :
    Gives (assignmentTargets exprs) fun targets =>
      targets = exprs.filterMap Expr.reference? ∧
        ∀ expr ∈ exprs, expr.reference?.isSome = true := by
  unfold assignmentTargets
  split
  · exact .fail _
  · rename_i none
    refine .pure ⟨rfl, fun expr member => ?_⟩
    have isTarget := List.find?_eq_none.mp none expr member
    simpa [Option.isSome_iff_ne_none] using isTarget

omit formed in
theorem areTargets_of_exprs {exprs : List Expr} (values : Expr.AreValues exprs)
    (references : ∀ expr ∈ exprs, expr.reference?.isSome = true) :
    Reference.AreTargets (exprs.filterMap Expr.reference?) := by
  obtain ⟨some, plain⟩ := values
  constructor
  · obtain ⟨first, rest, rfl⟩ := List.exists_cons_of_ne_nil some
    obtain ⟨target, isTarget⟩ := Option.isSome_iff_exists.mp (references first List.mem_cons_self)
    exact List.ne_nil_of_mem (List.mem_filterMap.mpr ⟨first, List.mem_cons_self, isTarget⟩)
  · intro target member
    obtain ⟨expr, inside, isTarget⟩ := List.mem_filterMap.mp member
    have here := plain expr inside
    cases expr with
    | reference found =>
        cases isTarget
        exact here
    | _ => cases isTarget

theorem exprStatementEnd_wellFormed {first : Expr} {others : List Expr}
    (values : Expr.AreValues (first :: others)) :
    Gives (exprStatementEnd parts first others) Stmt.WellFormed := by
  refine .bind fun kind => ?_
  split
  · refine (assignmentTargets_gives _).bindOf fun targets isTargets => .bind fun _ => ?_
    obtain ⟨rfl, references⟩ := isTargets
    exact .bindOf (initializer_isInitializer formed.plain) fun _ value => .bind fun _ =>
      .bind fun _ => .pure ⟨areTargets_of_exprs values references, value⟩
  · exact .bind fun _ => .bind fun _ => .bind fun _ => .bind fun _ => .pure values
  · exact (assignmentTargets_gives _).bindOf fun _ isTargets => .bind fun _ => .bind fun _ =>
      .bind fun _ => .bind fun _ => .pure ⟨values, isTargets.2⟩
  · unfold callEnd
    split
    · have arguments := values.2 _ List.mem_cons_self
      exact .bind fun _ => .pure ((Expr.allPlain_iff _).mp arguments)
    · exact .fail _

theorem exprStatement_wellFormed : Gives (exprStatement parts) Stmt.WellFormed := by
  refine .bind fun _ => .ite ?_ (.failAt _)
  refine .bindOf (anyExpr_plain formed.plain) fun first here => ?_
  have more : Gives (moreExpressions parts) fun others => ∀ value ∈ others, value.IsPlain :=
    .bind fun _ => .ite (fun _ _ _ ran => (expressions_plain formed.plain ran).2) (.pure (by simp))
  refine more.bindOf fun others all => exprStatementEnd_wellFormed formed ⟨by simp, ?_⟩
  exact List.forall_mem_cons.mpr ⟨here, all⟩

theorem invocationStatement_wellFormed : Gives (invocationStatement parts) Stmt.WellFormed :=
  (invocation_plain formed.plain).bindOf fun _ all => .bind fun _ => .pure all

theorem plainStatement_wellFormed : Gives (plainStatement parts) Stmt.WellFormed := by
  refine .bind fun _ => .ite ?_ (.bind fun _ => .ite ?_ ?_)
  · exact .bindOf (varDef_wellFormed formed) fun _ here => .pure here
  · exact invocationStatement_wellFormed formed
  · exact exprStatement_wellFormed formed

/-! ### Statements that a word announces -/

theorem valueStatement_wellFormed (word : Keyword) {make : Expr → Span → Stmt}
    (made : ∀ value span, value.IsPlain → (make value span).WellFormed) :
    Gives (valueStatement parts word make) Stmt.WellFormed :=
  .bind fun _ => .bindOf (anyExpr_plain formed.plain) fun _ value => .bind fun _ => .bind fun _ =>
    .pure (made _ _ value)

omit formed in
theorem wordStatement_wellFormed (word : Keyword) {make : Span → Stmt}
    (made : ∀ span, (make span).WellFormed) : Gives (wordStatement word make) Stmt.WellFormed :=
  .bind fun _ => .bind fun _ => .bind fun _ => .pure (made _)

theorem ifStatement_wellFormed : Gives (ifStatement parts) Stmt.WellFormed :=
  .bind fun _ => .bindOf (condition_plain formed.plain) fun _ condition =>
    .bindOf (block_wellFormed formed) fun _ thenBlock =>
      .bindOf (elseBranches_wellFormed formed) fun _ branches => .bind fun _ =>
        .pure ⟨condition, thenBlock, branches⟩

theorem iterateStatement_wellFormed : Gives (iterateStatement parts) Stmt.WellFormed :=
  .bind fun _ => .bind fun _ => .bind fun _ => .bind fun _ => .bind fun _ =>
    .bindOf (anyExpr_plain formed.plain) fun _ collection => .bind fun _ =>
      .bindOf (block_wellFormed formed) fun _ body => .pure ⟨collection, body⟩

theorem whileStatement_wellFormed : Gives (whileStatement parts) Stmt.WellFormed :=
  .bind fun _ => .bindOf (condition_plain formed.plain) fun _ condition =>
    .bindOf (block_wellFormed formed) fun _ body => .pure ⟨condition, body⟩

theorem returnStatement_wellFormed : Gives (returnStatement parts) Stmt.WellFormed := by
  have values : Gives (returnValues parts) fun values => ∀ value ∈ values, value.IsPlain :=
    .bind fun _ => .ite (fun _ _ _ ran => (expressions_plain formed.plain ran).2) (.pure (by simp))
  exact .bind fun _ => values.bindOf fun _ all => .bind fun _ => .bind fun _ => .pure all

theorem forkStatement_wellFormed : Gives (forkStatement parts) Stmt.WellFormed := by
  refine .bind fun _ => .bind fun _ => .bindOf (forkWorkers_wellFormed formed) fun workers all =>
    .bind fun _ => .bindOf (.ifAt (joinClause_wellFormed formed)) fun join joins =>
      .bindOf (.ifAt (timeoutClause_wellFormed formed)) fun timeout timeouts => .bind fun _ =>
        .pure ⟨?_, ?_, ?_⟩
  · exact (Worker.allWellFormed_iff workers).mpr all
  · exact (Join.wellFormedIfAny_iff join).mpr joins
  · exact (Timeout.wellFormedIfAny_iff timeout).mpr timeouts

theorem tryStatement_wellFormed : Gives (tryStatement parts) Stmt.WellFormed := by
  refine .bind fun _ => .bindOf (block_wellFormed formed) fun body here =>
    .bindOf (.whileAt (catchClause_wellFormed formed)) fun catches all =>
      .bindOf (.ifBehind (block_wellFormed formed)) fun finallyBlock last => .bind fun _ =>
        .bind fun _ => .pure ⟨here, ?_, ?_⟩
  · exact (Catch.allWellFormed_iff catches).mpr all
  · exact (Block.wellFormedIfAny_iff finallyBlock).mpr last

theorem transactionStatement_wellFormed : Gives (transactionStatement parts) Stmt.WellFormed :=
  .bind fun _ => .bindOf (block_wellFormed formed) fun _ body =>
    .bindOf (handlers_wellFormed formed) fun _ handlers => .bind fun _ => .pure ⟨body, handlers⟩

theorem transformStatement_transforms : Gives (transformStatement parts) Stmt.Transforms :=
  .bind fun _ => .bindOf (transformBody_transforms formed) fun _ body => .pure body

theorem transformStatement_wellFormed : Gives (transformStatement parts) Stmt.WellFormed :=
  .bind fun _ => .bindOf (transformBody_transforms formed) fun _ body => .pure body

theorem statementWith_wellFormed : Gives (statementWith parts) Stmt.WellFormed := by
  refine .bind fun kind => ?_
  split
  · exact varAssignment_wellFormed formed
  · exact ifStatement_wellFormed formed
  · exact iterateStatement_wellFormed formed
  · exact whileStatement_wellFormed formed
  · exact wordStatement_wellFormed _ fun _ => trivial
  · exact wordStatement_wellFormed _ fun _ => trivial
  · exact wordStatement_wellFormed _ fun _ => trivial
  · exact forkStatement_wellFormed formed
  · exact tryStatement_wellFormed formed
  · exact valueStatement_wellFormed formed _ fun _ _ value => value
  · exact returnStatement_wellFormed formed
  · exact valueStatement_wellFormed formed _ fun _ _ value => value
  · exact transformStatement_wellFormed formed
  · exact transactionStatement_wellFormed formed
  · exact .bind fun _ => .pure trivial
  · exact plainStatement_wellFormed formed

/-! ### Transformations -/

theorem transformItem_transforms : Gives (transformItem parts) Stmt.Transforms := by
  refine .bind fun _ => .ite (transformStatement_transforms formed) (.bind fun _ => .ite ?_
    (.bind fun _ => .ite ?_ (.failAt _)))
  · exact .bind fun _ => .bind fun _ => .bind fun _ =>
      .bindOf (anyExpr_plain formed.plain) fun value plain => .bind fun _ => .bind fun _ =>
        .pure ⟨value, rfl, plain⟩
  · exact .bind fun _ => .bindOf (references_plain formed.plain) fun _ targets => .bind fun _ =>
      .bindOf (anyExpr_plain formed.plain) fun _ value => .bind fun _ => .bind fun _ =>
        .pure ⟨rfl, targets, value⟩

/-! ### Bodies -/

structure BodyItems.Admitted (kind : BodyKind) (items : BodyItems) : Prop where
  statements : ∀ statement ∈ items.statements, kind.Allows statement
  workers : ∀ worker ∈ items.workers, worker.body.WellFormed

namespace BodyItems.Admitted

variable {kind : BodyKind} {items : BodyItems} (start : items.Admitted kind)

include start

omit formed in
theorem addStatement {statement : Stmt} (here : kind.Allows statement) :
    (items.addStatement statement).Admitted kind :=
  ⟨Gives.append start.statements here, start.workers⟩

omit formed in
theorem addWorker {worker : Worker} (here : worker.body.WellFormed) :
    (items.addWorker worker).Admitted kind :=
  ⟨start.statements, Gives.append start.workers here⟩

omit formed in
theorem addComments (comments : List Token) : (items.addComments comments).Admitted kind := by
  refine ⟨fun statement member => ?_, start.workers⟩
  rcases List.mem_append.mp member with member | member
  · exact start.statements statement member
  · obtain ⟨token, -, rfl⟩ := List.mem_map.mp member
    exact kind.allows_comment token.lexeme token.span

end BodyItems.Admitted

theorem bodyItem_admitted {kind : BodyKind} {items : BodyItems} (start : items.Admitted kind) :
    Gives (bodyItem parts kind items) (BodyItems.Admitted kind) := by
  refine .bind fun _ => .ite (.ite ?_ (.bind fun _ => .fail _)) ?_
  · exact .bindOf (worker_wellFormed formed) fun _ here => .pure (start.addWorker here)
  · cases kind with
    | transform =>
        exact .bindOf (transformItem_transforms formed) fun _ here => .pure (start.addStatement here)
    | block | callable =>
        exact .bindOf (statementWith_wellFormed formed) fun _ here => .pure (start.addStatement here)

theorem bodyItems_admitted (kind : BodyKind) :
    Gives (bodyItems parts kind) (BodyItems.Admitted kind) := by
  refine .loop (fun items start => .bind fun comments => .bind fun _ => ?_) ⟨by simp, by simp⟩
  have before := start.addComments comments
  refine .ite (.pure before) (.bindOf (.orRecover (bodyItem_admitted formed before) ?_) fun _ here =>
    .pure here)
  exact fun span => before.addStatement (kind.allows_broken span)

theorem bodyWith_admits (kind : BodyKind) : Gives (bodyWith parts kind) kind.Admits :=
  .bind fun _ => .bindOf (bodyItems_admitted formed kind) fun _ items => .bind fun _ =>
    .bind fun _ => .pure ⟨items.statements, items.workers⟩

end Parts

theorem body_admits (room : Nat) (kind : BodyKind) : Gives (body room kind) kind.Admits := by
  induction room generalizing kind with
  | zero => exact fun _ _ _ ran => absurd ran tooDeep_ne_ok
  | succ room ih => exact bodyWith_admits ⟨within_arePlain room, ih⟩ kind

theorem within_areWellFormed (room : Nat) : (StmtParts.within room).AreWellFormed :=
  ⟨within_arePlain room, body_admits room⟩

end Grammar

end ServiceLang
