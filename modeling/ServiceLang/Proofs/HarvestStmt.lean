import ServiceLang.Proofs.Harvest

set_option autoImplicit false

/-! What statements and workers bring in: the bodies that they hold. -/

namespace ServiceLang

open Step

structure Stmt.IsBare (statement : Stmt) : Prop where
  bodies : statement.bodies = []
  remark : statement.remark? = none

namespace Grammar

section Parts

variable {parts : StmtParts}

/-! ### Statements without bodies -/

theorem varAssignment_bare : Gives (varAssignment parts) Stmt.IsBare :=
  .bind fun _ => .bind fun _ => .bind fun _ => .bind fun _ => .bind fun _ => .bind fun _ =>
    .pure ⟨rfl, rfl⟩

theorem wordStatement_bare (word : Keyword) {make : Span → Stmt}
    (made : ∀ span, (make span).IsBare) : Gives (wordStatement word make) Stmt.IsBare :=
  .bind fun _ => .bind fun _ => .bind fun _ => .pure (made _)

theorem valueStatement_bare (word : Keyword) {make : Expr → Span → Stmt}
    (made : ∀ value span, (make value span).IsBare) :
    Gives (valueStatement parts word make) Stmt.IsBare :=
  .bind fun _ => .bind fun _ => .bind fun _ => .bind fun _ => .pure (made _ _)

theorem returnStatement_bare : Gives (returnStatement parts) Stmt.IsBare :=
  .bind fun _ => .bind fun _ => .bind fun _ => .bind fun _ => .pure ⟨rfl, rfl⟩

theorem exprStatementEnd_bare (first : Expr) (others : List Expr) :
    Gives (exprStatementEnd parts first others) Stmt.IsBare := by
  refine .bind fun kind => ?_
  split
  · exact .bind fun _ => .bind fun _ => .bind fun _ => .bind fun _ => .bind fun _ =>
      .pure ⟨rfl, rfl⟩
  · exact .bind fun _ => .bind fun _ => .bind fun _ => .bind fun _ => .pure ⟨rfl, rfl⟩
  · exact .bind fun _ => .bind fun _ => .bind fun _ => .bind fun _ => .bind fun _ =>
      .pure ⟨rfl, rfl⟩
  · unfold callEnd
    split
    · exact .bind fun _ => .pure ⟨rfl, rfl⟩
    · exact .fail _

theorem plainStatement_bare : Gives (plainStatement parts) Stmt.IsBare := by
  refine .bind fun _ => .ite (.bind fun _ => .pure ⟨rfl, rfl⟩) (.bind fun _ => .ite ?_ ?_)
  · exact .bind fun _ => .bind fun _ => .pure ⟨rfl, rfl⟩
  · refine .bind fun _ => .ite ?_ (.failAt _)
    exact .bind fun first => .bind fun others => exprStatementEnd_bare first others

theorem transformVarDef_bare : Gives (transformVarDef parts) Stmt.IsBare :=
  .bind fun _ => .bind fun _ => .bind fun _ => .bind fun _ => .bind fun _ => .bind fun _ =>
    .pure ⟨rfl, rfl⟩

theorem transformAssignment_bare : Gives (transformAssignment parts) Stmt.IsBare :=
  .bind fun _ => .bind fun _ => .bind fun _ => .bind fun _ => .bind fun _ => .bind fun _ =>
    .pure ⟨rfl, rfl⟩

theorem adds_of_bare {brings : Parser → List CallableBody → Parser → List CallableBody → Prop}
    [Harvest brings] {step : Step Stmt} (eager : Eager (fun _ => True) step)
    (bare : Gives step Stmt.IsBare) : Adds brings step Stmt.bodies :=
  .none eager.orderly fun _ _ _ ran => (bare ran).bodies

/-! ### Comments are no statements of the grammar -/

theorem transformStatement_unremarked :
    Gives (transformStatement parts) fun statement => statement.remark? = none :=
  .bind fun _ => .bind fun _ => .pure rfl

theorem statementWith_unremarked :
    Gives (statementWith parts) fun statement => statement.remark? = none := by
  have bare {step : Step Stmt} (gives : Gives step Stmt.IsBare) :
      Gives step fun statement => statement.remark? = none :=
    fun _ _ _ ran => (gives ran).remark
  refine .bind fun kind => ?_
  split
  · exact bare varAssignment_bare
  · exact .bind fun _ => .bind fun _ => .bind fun _ => .bind fun _ => .bind fun _ => .pure rfl
  · exact .bind fun _ => .bind fun _ => .bind fun _ => .bind fun _ => .bind fun _ =>
      .bind fun _ => .bind fun _ => .bind fun _ => .pure rfl
  · exact .bind fun _ => .bind fun _ => .bind fun _ => .pure rfl
  · exact bare (wordStatement_bare _ fun _ => ⟨rfl, rfl⟩)
  · exact bare (wordStatement_bare _ fun _ => ⟨rfl, rfl⟩)
  · exact bare (wordStatement_bare _ fun _ => ⟨rfl, rfl⟩)
  · exact .bind fun _ => .bind fun _ => .bind fun _ => .bind fun _ => .bind fun _ =>
      .bind fun _ => .bind fun _ => .pure rfl
  · exact .bind fun _ => .bind fun _ => .bind fun _ => .bind fun _ => .bind fun _ =>
      .bind fun _ => .pure rfl
  · exact bare (valueStatement_bare _ fun _ _ => ⟨rfl, rfl⟩)
  · exact bare returnStatement_bare
  · exact bare (valueStatement_bare _ fun _ _ => ⟨rfl, rfl⟩)
  · exact transformStatement_unremarked
  · exact .bind fun _ => .bind fun _ => .bind fun _ => .bind fun _ => .pure rfl
  · exact .bind fun _ => .pure rfl
  · exact bare plainStatement_bare

theorem itemRule_unremarked (kind : BodyKind) :
    Gives (itemRule parts kind) fun statement => statement.remark? = none := by
  refine .ite (.bind fun _ => .ite transformStatement_unremarked (.bind fun _ => .ite ?_
    (.bind fun _ => .ite ?_ (.failAt _)))) statementWith_unremarked
  · exact fun _ _ _ ran => (transformVarDef_bare ran).remark
  · exact fun _ _ _ ran => (transformAssignment_bare ran).remark

/-! ### Parts with bodies -/

structure StmtParts.AreHarvested
    (brings : Parser → List CallableBody → Parser → List CallableBody → Prop)
    (parts : StmtParts) : Prop where
  eager : parts.AreEager fun _ => True
  body : ∀ kind, Adds brings (parts.body kind) CallableBody.bodies
  unworked : ∀ kind, kind ≠ .callable → Gives (parts.body kind) fun body => body.workers = []

variable {brings : Parser → List CallableBody → Parser → List CallableBody → Prop}
  [Harvest brings] (harvested : parts.AreHarvested brings)

include harvested

omit [Harvest brings] in
theorem block_adds : Adds brings parts.block Block.bodies :=
  .mappedOf (harvested.body .block) (harvested.unworked .block nofun) fun _ unworked =>
    CallableBody.bodies_toBlock unworked

theorem worker_adds : Adds brings (worker parts) Worker.bodies :=
  fun found => .behind (fun _ => Run.expect fun _ => trivial) fun _ =>
    .behind .expectIdentifier fun _ => (harvested.body .callable found).bind fun _ => .whole rfl

theorem elseIf_adds (word : Token) : Adds brings (elseIf parts word) ElseIf.bodies :=
  fun found => .behind (condition_eager harvested.eager.exprParts).orderly fun _ =>
    (block_adds harvested found).bind fun _ => .whole rfl

def branchBodies (found : List ElseIf × Option Block) : List CallableBody :=
  found.1.flatMap ElseIf.bodies ++ bodiesIfAny Block.bodies found.2

theorem elseBranches_adds : Adds brings (elseBranches parts) branchBodies := by
  intro found
  have all : Harvests brings _ (Step.loop (nextBranch parts) ([], none)) _ :=
    .loop (fun branches => found ++ branchBodies branches) ?_ _
  · rwa [show found ++ branchBodies ([], none) = found from List.append_nil found] at all
  · intro branches
    refine .behind (.eat? rfl) fun word => ?_
    split
    · exact .whole rfl
    · refine .behind (.eat rfl) fun _ => .ite ?_ ?_
      · refine (elseIf_adds harvested _ _).bind fun branch => .pure (List.Perm.subperm ?_)
        simp only [branchBodies, ForInStep.value, List.flatMap_append, List.flatMap_cons,
          List.flatMap_nil, List.append_nil, List.append_assoc]
        exact (List.perm_append_comm.append_left _).append_left _
      · refine (block_adds harvested _).bind fun block => .pure (List.Sublist.subperm ?_)
        simp [branchBodies, ForInStep.value, bodiesIfAny]

theorem forkWorkers_adds : Adds brings (forkWorkers parts) (List.flatMap Worker.bodies) := by
  intro found
  have one : Adds brings (forkWorker parts) Worker.bodies := fun found =>
    .behind (.check _) fun _ => .ite (worker_adds harvested found)
      (.behind .peek fun _ => .never fail_ne_ok)
  have all : Harvests brings _ (Step.loop (nextForkWorker parts) []) _ :=
    .loop (fun workers => found ++ workers.flatMap Worker.bodies) ?_ []
  · rwa [List.flatMap_nil, List.append_nil] at all
  · intro workers
    refine .behind .current fun _ => .ite (.whole rfl) (.bind (.orRecover ?_ ?_ ?_) fun _ =>
      .whole rfl)
    · exact .bind (forkWorker_eager harvested.eager).orderly fun _ => .pure _
    · exact (one _).bind fun worker => .whole (by simp)
    · exact fun _ => .refl _

theorem joinClause_adds : Adds brings (joinClause parts) Join.bodies :=
  fun found => .behind (fun _ => Run.expect fun _ => trivial) fun _ =>
    .behind bracketedCondition_orderly fun _ =>
      .behind (clauseBinding_orderly harvested.eager) fun _ =>
        (block_adds harvested found).bind fun _ => .whole rfl

theorem timeoutClause_adds : Adds brings (timeoutClause parts) Timeout.bodies :=
  fun found => .behind (fun _ => Run.expect fun _ => trivial) fun _ =>
    .behind (condition_eager harvested.eager.exprParts).orderly fun _ =>
      .behind (clauseBinding_orderly harvested.eager) fun _ =>
        (block_adds harvested found).bind fun _ => .whole rfl

theorem catchClause_adds : Adds brings (catchClause parts) Catch.bodies :=
  fun found => .behind (fun _ => Run.expect fun _ => trivial) fun _ =>
    .behind (clauseBinding_orderly harvested.eager) fun _ =>
      (block_adds harvested found).bind fun _ => .whole rfl

def Handlers.bodies (found : Handlers) : List CallableBody :=
  bodiesIfAny Block.bodies found.aborted ++ bodiesIfAny Block.bodies found.committed

omit harvested in
theorem Handlers.bodies_set (found : Handlers) (isAborted : Bool) (block : Block) :
    (found.set isAborted block).bodies.Subperm (found.bodies ++ block.bodies) := by
  cases isAborted with
  | true =>
      have kept : (block.bodies ++ bodiesIfAny Block.bodies found.committed).Sublist
          (block.bodies ++ found.bodies) :=
        (List.Sublist.refl _).append (List.sublist_append_right _ _)
      exact kept.subperm.trans List.perm_append_comm.subperm
  | false =>
      exact ((List.sublist_append_left _ _).append (.refl _)).subperm

theorem handlers_adds : Adds brings (handlers parts) Handlers.bodies := by
  intro found
  have one (isAborted : Bool) (handlers : Handlers) :
      Harvests brings (found ++ handlers.bodies) (handler parts isAborted handlers)
        fun next => found ++ next.bodies := by
    refine .behind (fun _ => Run.expect fun _ => trivial) fun _ =>
      (block_adds harvested _).bind fun block => .ite (.behind (.report ⟨rfl, nofun⟩) fun _ => .pure ?_)
        (.pure ?_)
    · exact (List.sublist_append_left _ _).subperm
    · rw [List.append_assoc, List.subperm_append_left]
      exact handlers.bodies_set isAborted block
  have all : Harvests brings _ (Step.loop (nextHandler parts) .none) _ :=
    .loop (fun handlers : Handlers => found ++ handlers.bodies) ?_ _
  · rwa [show found ++ Handlers.none.bodies = found from List.append_nil found] at all
  · exact fun handlers => .behind (.check _) fun _ =>
      .ite ((one true handlers).bind fun _ => .whole rfl) (.behind (.check _) fun _ =>
        .ite ((one false handlers).bind fun _ => .whole rfl) (.whole rfl))

/-! ### Statements with bodies -/

theorem ifStatement_adds : Adds brings (ifStatement parts) Stmt.bodies :=
  fun found => .behind (fun _ => Run.expect fun _ => trivial) fun _ =>
    .behind (condition_eager harvested.eager.exprParts).orderly fun _ =>
      (block_adds harvested _).bind fun _ => (elseBranches_adds harvested _).bind fun _ =>
        .behind (.spanFrom _) fun _ => .whole (by simp [branchBodies])

theorem iterateStatement_adds : Adds brings (iterateStatement parts) Stmt.bodies :=
  fun found => .behind (fun _ => Run.expect fun _ => trivial) fun _ => .behind (.symbol _) fun _ =>
    .behind harvested.eager.exprParts.typeName.orderly fun _ => .behind .expectIdentifier fun _ =>
      .behind (.symbol _) fun _ => .behind (anyExpr_eager harvested.eager.exprParts).orderly
        fun _ => .behind (.symbol _) fun _ => (block_adds harvested found).bind fun _ =>
          .whole rfl

theorem whileStatement_adds : Adds brings (whileStatement parts) Stmt.bodies :=
  fun found => .behind (fun _ => Run.expect fun _ => trivial) fun _ =>
    .behind (condition_eager harvested.eager.exprParts).orderly fun _ =>
      (block_adds harvested found).bind fun _ => .whole rfl

theorem forkStatement_adds : Adds brings (forkStatement parts) Stmt.bodies :=
  fun found => .behind (fun _ => Run.expect fun _ => trivial) fun _ => .behind (.symbol _) fun _ =>
    (forkWorkers_adds harvested _).bind fun _ => .behind .closeBrace fun _ =>
      (Adds.ifAt (joinClause_adds harvested) _).bind fun _ =>
        (Adds.ifAt (timeoutClause_adds harvested) _).bind fun _ => .behind (.spanFrom _) fun _ =>
          .whole (by simp)

theorem tryStatement_adds : Adds brings (tryStatement parts) Stmt.bodies :=
  fun found => .behind (fun _ => Run.expect fun _ => trivial) fun _ =>
    (block_adds harvested _).bind fun _ => (Adds.whileAt (catchClause_adds harvested) _).bind
      fun _ => (Adds.ifBehind (block_adds harvested) _).bind fun _ => .behind (.spanFrom _)
        fun _ => .behind (checkClauses_orderly _ _ _) fun _ => .whole (by simp)

theorem transactionStatement_adds : Adds brings (transactionStatement parts) Stmt.bodies :=
  fun found => .behind (fun _ => Run.expect fun _ => trivial) fun _ =>
    (block_adds harvested _).bind fun _ => (handlers_adds harvested _).bind fun _ =>
      .behind (.spanFrom _) fun _ => .whole (by simp [Handlers.bodies])

theorem transformStatement_adds : Adds brings (transformStatement parts) Stmt.bodies := by
  intro found
  refine .behind (fun _ => Run.expect fun _ => trivial) fun word => ?_
  have made (body : CallableBody) (unworked : body.workers = []) :
      (Stmt.transform body.toBlock (word.span.merge body.span)).bodies = body.bodies := by
    rw [Stmt.bodies_transform, CallableBody.bodies_toBlock unworked]
  exact Adds.mappedOf (harvested.body .transform) (harvested.unworked .transform nofun) made found

theorem transformItem_adds : Adds brings (transformItem parts) Stmt.bodies := by
  refine fun found => .behind (.check _) fun _ => .ite (transformStatement_adds harvested found)
    (.behind .isVarDef fun _ => .ite ?_ (.behind (.check _) fun _ => .ite ?_
      (.never failAt_ne_ok)))
  · exact adds_of_bare (transformVarDef_eager harvested.eager) transformVarDef_bare found
  · exact adds_of_bare (transformAssignment_eager harvested.eager) transformAssignment_bare found

theorem statementWith_adds : Adds brings (statementWith parts) Stmt.bodies := by
  refine fun found => .behind .current fun kind => ?_
  split
  · exact adds_of_bare (varAssignment_eager harvested.eager) varAssignment_bare found
  · exact ifStatement_adds harvested found
  · exact iterateStatement_adds harvested found
  · exact whileStatement_adds harvested found
  · exact adds_of_bare (wordStatement_eager rfl _) (wordStatement_bare _ fun _ => ⟨rfl, rfl⟩) found
  · exact adds_of_bare (wordStatement_eager rfl _) (wordStatement_bare _ fun _ => ⟨rfl, rfl⟩) found
  · exact adds_of_bare (wordStatement_eager rfl _) (wordStatement_bare _ fun _ => ⟨rfl, rfl⟩) found
  · exact forkStatement_adds harvested found
  · exact tryStatement_adds harvested found
  · exact adds_of_bare (valueStatement_eager harvested.eager rfl _)
      (valueStatement_bare _ fun _ _ => ⟨rfl, rfl⟩) found
  · exact adds_of_bare (returnStatement_eager harvested.eager) returnStatement_bare found
  · exact adds_of_bare (valueStatement_eager harvested.eager rfl _)
      (valueStatement_bare _ fun _ _ => ⟨rfl, rfl⟩) found
  · exact transformStatement_adds harvested found
  · exact transactionStatement_adds harvested found
  · exact .behind namespaceDecl_eager.orderly fun _ => .whole (List.append_nil found)
  · exact adds_of_bare (plainStatement_eager harvested.eager) plainStatement_bare found

theorem itemRule_adds (kind : BodyKind) : Adds brings (itemRule parts kind) Stmt.bodies :=
  fun found => .ite (transformItem_adds harvested found) (statementWith_adds harvested found)

/-! ### Items of a body -/

def BodyItems.bodies (items : BodyItems) : List CallableBody :=
  items.statements.flatMap Stmt.bodies ++ items.workers.flatMap Worker.bodies

omit harvested in
theorem BodyItems.bodies_addComments (items : BodyItems) (comments : List Token) :
    (items.addComments comments).bodies = items.bodies := by
  have none : (comments.map fun token => Stmt.comment token.lexeme token.span).flatMap
      Stmt.bodies = [] := by
    rw [List.flatMap_map]
    exact List.flatMap_eq_nil_iff.mpr fun _ _ => rfl
  rw [bodies, addComments, List.flatMap_append, none, List.append_nil]
  rfl

omit harvested in
theorem BodyItems.bodies_addStatement (items : BodyItems) (statement : Stmt) :
    (items.addStatement statement).bodies.Perm (items.bodies ++ statement.bodies) := by
  simp only [bodies, addStatement, List.flatMap_append, List.flatMap_cons, List.flatMap_nil,
    List.append_nil, List.append_assoc]
  exact List.perm_append_comm.append_left _

omit harvested in
theorem BodyItems.bodies_addWorker (items : BodyItems) (worker : Worker) :
    (items.addWorker worker).bodies = items.bodies ++ worker.bodies := by
  simp [bodies, addWorker]

theorem bodyItem_adds (found : List CallableBody) (kind : BodyKind) (items : BodyItems) :
    Harvests brings (found ++ items.bodies) (bodyItem parts kind items)
      fun next => found ++ next.bodies := by
  have statement (rule : Step Stmt) (adds : Adds brings rule Stmt.bodies) :
      Harvests brings (found ++ items.bodies) (do return items.addStatement (← rule))
        fun next => found ++ next.bodies := by
    refine (adds _).bind fun statement => .pure ?_
    rw [List.append_assoc]
    exact ((items.bodies_addStatement statement).append_left found).subperm
  refine .behind (.check _) fun _ => .ite (.ite ?_ (.behind .peek fun _ => .never fail_ne_ok))
    (.ite (statement _ (transformItem_adds harvested)) (statement _ (statementWith_adds harvested)))
  exact (worker_adds harvested _).bind fun worker => .whole (by
    rw [items.bodies_addWorker, List.append_assoc])

theorem bodyItems_adds (kind : BodyKind) : Adds brings (bodyItems parts kind) BodyItems.bodies := by
  intro found
  have all : Harvests brings _ (bodyItems parts kind) _ :=
    .loop (fun items : BodyItems => found ++ items.bodies) ?_ _
  · rwa [show found ++ BodyItems.bodies ⟨[], []⟩ = found from List.append_nil found] at all
  · intro items
    refine .behind .takeComments fun comments => .behind .current fun _ => ?_
    rw [← items.bodies_addComments comments]
    have item := bodyItem_adds harvested found kind (items.addComments comments)
    have orderly := (bodyItem_eager harvested.eager kind (items.addComments comments)).orderly
    refine .ite (.whole rfl) ((item.orRecover orderly fun span => ?_).bind fun _ => .whole rfl)
    exact (((items.addComments comments).bodies_addStatement (.broken span)).append_left
      found).subperm.trans (List.append_nil _ ▸ .refl _)

theorem bodyWith_below (kind : BodyKind) :
    Adds brings (bodyWith parts kind) fun body => body.bodies.tail :=
  fun found => .behind (.symbol _) fun _ => (bodyItems_adds harvested kind found).bind fun _ =>
    .behind .closeBrace fun _ => .behind (.spanFrom _) fun _ => .whole (by
      dsimp only
      rw [CallableBody.bodies_eq, List.tail_cons, BodyItems.bodies])

end Parts

end Grammar

end ServiceLang
