import ServiceLang.Grammar.Stmt
import ServiceLang.Proofs.DepthExpr

set_option autoImplicit false

/-! The levels of statements and bodies. The statements of a body have the levels that are left
behind the step into it. -/

namespace ServiceLang.Grammar

open Step

structure StmtParts.HasLevels (room : Nat) (parts counted : StmtParts) : Prop where
  exprs : parts.toExprParts.HasLevels room counted.toExprParts
  body : ∀ kind, Levels room (fun body => body.depth ≤ room) (parts.body kind) (counted.body kind)

abbrev IsShallow (room : Nat) (rule counted : Step Stmt) : Prop :=
  Levels room (fun statement => statement.depth ≤ room) rule counted

theorem depth_toBlock (body : CallableBody) : body.toBlock.depth ≤ body.depth := by
  obtain ⟨statements, workers, close, span⟩ := body
  exact Nat.succ_le_succ (Nat.le_max_left _ _)

section Lists

variable {room : Nat}

theorem blockIfAny_le {block : Option Block} (shallow : ∀ found ∈ block, found.depth ≤ room) :
    Block.depthIfAny block ≤ room :=
  Block.depthIfAny_eq block ▸ depthIfAny_le_iff.mpr shallow

theorem exprs_le {exprs : List Expr} (shallow : ∀ expr ∈ exprs, expr.depth < room) :
    deepest Expr.depth exprs ≤ room :=
  deepest_le_iff.mpr fun expr member => Nat.le_of_lt (shallow expr member)

end Lists

section Parts

variable {room : Nat} {parts counted : StmtParts} (levels : parts.HasLevels room counted)

include levels

theorem block_levels : Levels room (fun block => block.depth ≤ room) parts.block counted.block :=
  .bind (levels.body _) fun body shallow => .pure (Nat.le_trans (depth_toBlock body) shallow)

omit levels in
theorem notAStatement_levels {α : Type} {good : α → Prop} :
    Levels room good (notAStatement : Step α) (notAStatement : Step α) :=
  .failAt

/-! ### Variables and assignments -/

theorem varDef_levels :
    Levels room (fun definition => definition.depth ≤ room) (varDef parts) (varDef counted) :=
  .bind levels.exprs.typeName fun _ type => .bind .expectIdentifier fun _ _ =>
    .bind (.ifBehind (initializer_levels levels.exprs) _) fun _ init =>
      .bind .endStatement fun _ _ => .bind (.spanFrom _) fun _ _ =>
        .pure (Nat.max_le.mpr ⟨Nat.le_of_lt type, depthIfAny_le_iff.mpr init⟩)

theorem varAssignment_levels : IsShallow room (varAssignment parts) (varAssignment counted) :=
  .bind (.keyword _) fun _ _ => .bind (references_levels levels.exprs) fun _ targets =>
    .bind (.symbol _) fun _ _ => .bind (initializer_levels levels.exprs) fun _ value =>
      .bind .endStatement fun _ _ => .bind (.spanFrom _) fun _ _ =>
        .pure (Nat.max_le.mpr ⟨deepest_le_iff.mpr targets, value⟩)

omit levels in
/-- The targets of an assignment are as deep as the expressions they have been read as. -/
theorem assignmentTargets_levels {exprs : List Expr} (shallow : ∀ expr ∈ exprs, expr.depth < room) :
    Levels room (fun targets => ∀ target ∈ targets, target.depth ≤ room)
      (assignmentTargets exprs) (assignmentTargets exprs) := by
  unfold assignmentTargets
  split
  · exact .fail
  · refine .pure fun target member => ?_
    obtain ⟨expr, inside, found⟩ := List.mem_filterMap.mp member
    cases expr with
    | reference inner =>
        cases found
        exact Nat.le_of_lt (shallow _ inside)
    | _ => cases found

omit levels in
theorem sendTarget_level : Level room sendTarget := by
  refine .bind (.eat? _) fun word _ => ?_
  cases word with
  | none => exact .bind .expectIdentifier fun _ _ => .pure trivial
  | some word => exact .pure trivial

section Ends

variable {first : Expr} {others : List Expr}
  (shallow : ∀ expr ∈ first :: others, expr.depth < room)

include shallow

theorem assignmentEnd_levels :
    IsShallow room (assignmentEnd parts first others) (assignmentEnd counted first others) :=
  .bind (assignmentTargets_levels shallow) fun _ targets => .bind (.symbol _) fun _ _ =>
    .bind (initializer_levels levels.exprs) fun _ value => .bind .endStatement fun _ _ =>
      .bind (.spanFrom _) fun _ _ =>
        .pure (Nat.max_le.mpr ⟨deepest_le_iff.mpr targets, value⟩)

omit levels in
theorem sendEnd_levels : IsShallow room (sendEnd first others) (sendEnd first others) :=
  .bind (.symbol _) fun _ _ => .bind sendTarget_level fun _ _ => .bind .endStatement fun _ _ =>
    .bind (.spanFrom _) fun _ _ => .pure (exprs_le shallow)

omit levels in
theorem receiveEnd_levels : IsShallow room (receiveEnd first others) (receiveEnd first others) :=
  .bind (assignmentTargets_levels shallow) fun _ _ => .bind (.symbol _) fun _ _ =>
    .bind .expectIdentifier fun _ _ => .bind .endStatement fun _ _ =>
      .bind (.spanFrom _) fun _ _ => .pure (exprs_le shallow)

omit levels in
/-- A call is as deep as a statement as it is as an expression. -/
theorem callEnd_levels : IsShallow room (callEnd first others) (callEnd first others) := by
  unfold callEnd
  split
  · exact .bind .endStatement fun _ _ => .pure (Nat.le_of_lt (shallow _ List.mem_cons_self))
  · exact .fail

theorem exprStatementEnd_levels :
    IsShallow room
      (exprStatementEnd parts first others) (exprStatementEnd counted first others) := by
  refine .bind .current fun kind _ => ?_
  split
  · exact assignmentEnd_levels levels shallow
  · exact sendEnd_levels shallow
  · exact receiveEnd_levels shallow
  · exact callEnd_levels shallow

end Ends

theorem moreExpressions_levels :
    Levels room (fun exprs => ∀ expr ∈ exprs, expr.depth < room)
      (moreExpressions parts) (moreExpressions counted) :=
  .bind (.eat _) fun _ _ => .ite (expressions_levels levels.exprs) (.pure fun _ none => nomatch none)

theorem exprStatement_levels : IsShallow room (exprStatement parts) (exprStatement counted) :=
  .bind .current fun _ _ => .ite
    (.bind (anyExpr_levels levels.exprs) fun _ first =>
      .bind (moreExpressions_levels levels) fun _ others =>
        exprStatementEnd_levels levels (List.forall_mem_cons.mpr ⟨first, others⟩))
    notAStatement_levels

/-! ### Control flow -/

omit levels in
theorem wordStatement_levels (word : Keyword) {make : Span → Stmt}
    (flat : ∀ span, (make span).depth = 0) :
    IsShallow room (wordStatement word make) (wordStatement word make) :=
  .bind (.keyword _) fun _ _ => .bind .endStatement fun _ _ => .bind (.spanFrom _) fun _ _ =>
    .pure (flat _ ▸ Nat.zero_le room)

theorem valueStatement_levels (word : Keyword) {make : Expr → Span → Stmt}
    (same : ∀ value span, (make value span).depth = value.depth) :
    IsShallow room (valueStatement parts word make) (valueStatement counted word make) :=
  .bind (.keyword _) fun _ _ => .bind (anyExpr_levels levels.exprs) fun _ shallow =>
    .bind .endStatement fun _ _ => .bind (.spanFrom _) fun _ _ =>
      .pure (same _ _ ▸ Nat.le_of_lt shallow)

theorem elseIf_levels (start : Token) :
    Levels room (fun branch => branch.depth ≤ room) (elseIf parts start) (elseIf counted start) :=
  .bind (condition_levels levels.exprs) fun _ condition => .bind (block_levels levels)
    fun _ block => .pure (Nat.max_le.mpr ⟨Nat.le_of_lt condition, block⟩)

def BranchesWithin (room : Nat) (found : List ElseIf × Option Block) : Prop :=
  (∀ branch ∈ found.1, branch.depth ≤ room) ∧ ∀ block ∈ found.2, block.depth ≤ room

theorem nextBranch_levels {found : List ElseIf × Option Block}
    (shallow : BranchesWithin room found) :
    Levels room (fun decision => BranchesWithin room decision.value)
      (nextBranch parts found) (nextBranch counted found) := by
  refine .bind (.eat? _) fun word _ => ?_
  cases word with
  | none => exact .pure shallow
  | some word =>
      refine .bind (.eat _) fun _ _ => .ite
        (.bind (elseIf_levels levels word) fun branch inner => .pure ⟨?_, shallow.2⟩)
        (.bind (block_levels levels) fun block inner => .pure ⟨shallow.1, ?_⟩)
      · exact List.forall_mem_append.mpr ⟨shallow.1, List.forall_mem_singleton.mpr inner⟩
      · rintro _ ⟨⟩
        exact inner

theorem elseBranches_levels :
    Levels room (BranchesWithin room) (elseBranches parts) (elseBranches counted) :=
  .loop (fun _ shallow => nextBranch_levels levels shallow)
    ⟨fun _ none => (nomatch none), fun _ none => (nomatch none)⟩

theorem ifStatement_levels : IsShallow room (ifStatement parts) (ifStatement counted) := by
  refine .bind (.keyword _) fun _ _ => .bind (condition_levels levels.exprs) fun _ condition =>
    .bind (block_levels levels) fun _ block => .bind (elseBranches_levels levels)
      fun found shallow => .bind (.spanFrom _) fun _ _ => .pure ?_
  have branches : ElseIf.deepest found.1 ≤ room :=
    ElseIf.deepest_eq found.1 ▸ deepest_le_iff.mpr shallow.1
  exact Nat.max_le.mpr ⟨Nat.max_le.mpr ⟨Nat.le_of_lt condition, block⟩,
    Nat.max_le.mpr ⟨branches, blockIfAny_le shallow.2⟩⟩

theorem iterateStatement_levels :
    IsShallow room (iterateStatement parts) (iterateStatement counted) :=
  .bind (.keyword _) fun _ _ => .bind (.symbol _) fun _ _ => .bind levels.exprs.typeName
    fun _ type => .bind .expectIdentifier fun _ _ => .bind (.symbol _) fun _ _ =>
      .bind (anyExpr_levels levels.exprs) fun _ collection => .bind (.symbol _) fun _ _ =>
        .bind (block_levels levels) fun _ body => .pure (Nat.max_le.mpr
          ⟨Nat.max_le.mpr ⟨Nat.le_of_lt type, Nat.le_of_lt collection⟩, body⟩)

theorem whileStatement_levels : IsShallow room (whileStatement parts) (whileStatement counted) :=
  .bind (.keyword _) fun _ _ => .bind (condition_levels levels.exprs) fun _ condition =>
    .bind (block_levels levels) fun _ body =>
      .pure (Nat.max_le.mpr ⟨Nat.le_of_lt condition, body⟩)

theorem returnValues_levels :
    Levels room (fun exprs => ∀ expr ∈ exprs, expr.depth < room)
      (returnValues parts) (returnValues counted) :=
  .bind .current fun _ _ => .ite (expressions_levels levels.exprs) (.pure fun _ none => nomatch none)

theorem returnStatement_levels : IsShallow room (returnStatement parts) (returnStatement counted) :=
  .bind (.keyword _) fun _ _ => .bind (returnValues_levels levels) fun _ shallow =>
    .bind .endStatement fun _ _ => .bind (.spanFrom _) fun _ _ => .pure (exprs_le shallow)

/-! ### Workers, forks and joins -/

theorem worker_levels :
    Levels room (fun worker => worker.depth ≤ room) (worker parts) (worker counted) :=
  .bind (.keyword _) fun _ _ => .bind .expectIdentifier fun _ _ => .bind (levels.body _)
    fun _ body => .pure body

theorem forkWorker_levels :
    Levels room (fun worker => worker.depth ≤ room) (forkWorker parts) (forkWorker counted) :=
  .bind (.check _) fun _ _ => .ite (worker_levels levels)
    (.bind .peek fun _ _ => .fail)

theorem forkWorkers_levels :
    Levels room (fun workers => ∀ worker ∈ workers, worker.depth ≤ room)
      (forkWorkers parts) (forkWorkers counted) := by
  refine .loop (fun workers shallow => .bind .current fun _ _ => .ite (.pure shallow) ?_)
    fun _ none => nomatch none
  refine .bind (.orRecover ?_ (fun _ => shallow) _) fun _ shallow => .pure shallow
  exact .bind (forkWorker_levels levels) fun worker inner => .pure
    (List.forall_mem_append.mpr ⟨shallow, List.forall_mem_singleton.mpr inner⟩)

omit levels in
theorem workerNames_level : Level room workerNames :=
  .bind (.check _) fun _ _ => .ite (Levels.commaSeparated .expectIdentifier).level (.pure trivial)

omit levels in
theorem firstOf_level (word : Token) : Level room (firstOf word) := by
  refine .bind (.expect _) fun number _ => ?_
  split
  · exact .fail
  · exact .bind workerNames_level fun _ _ => .bind (.spanFrom _) fun _ _ => .pure trivial

omit levels in
theorem everyOf_level (word : Token) : Level room (everyOf word) :=
  .bind workerNames_level fun _ _ => .bind (.spanFrom _) fun _ _ => .pure trivial

omit levels in
theorem joinCondition_level : Level room joinCondition := by
  refine .bind .advance fun word _ => ?_
  split
  · exact firstOf_level word
  · exact firstOf_level word
  · exact everyOf_level word
  · exact .fail

omit levels in
theorem bracketedCondition_level : Level room bracketedCondition :=
  .bind .isJoinCondition fun _ _ => .ite
    (.bind (.symbol _) fun _ _ => .bind joinCondition_level fun _ _ => .bind (.symbol _) fun _ _ =>
      .pure trivial)
    (.pure trivial)

theorem clauseBinding_levels :
    Levels room (fun binding => binding.1.depth < room)
      (clauseBinding parts) (clauseBinding counted) :=
  .bind (.symbol _) fun _ _ => .bind levels.exprs.typeName fun _ type =>
    .bind .expectIdentifier fun _ _ => .bind (.symbol _) fun _ _ => .pure type

theorem joinClause_levels :
    Levels room (fun join => join.depth ≤ room) (joinClause parts) (joinClause counted) :=
  .bind (.keyword _) fun _ _ => .bind bracketedCondition_level fun _ _ =>
    .bind (clauseBinding_levels levels) fun _ type => .bind (block_levels levels) fun _ body =>
      .pure (Nat.max_le.mpr ⟨Nat.le_of_lt type, body⟩)

theorem timeoutClause_levels :
    Levels room (fun timeout => timeout.depth ≤ room)
      (timeoutClause parts) (timeoutClause counted) :=
  .bind (.keyword _) fun _ _ => .bind (condition_levels levels.exprs) fun _ timeout =>
    .bind (clauseBinding_levels levels) fun _ type => .bind (block_levels levels) fun _ body =>
      .pure (Nat.max_le.mpr ⟨Nat.le_of_lt timeout, Nat.max_le.mpr ⟨Nat.le_of_lt type, body⟩⟩)

theorem forkStatement_levels : IsShallow room (forkStatement parts) (forkStatement counted) := by
  refine .bind (.keyword _) fun _ _ => .bind (.symbol _) fun _ _ =>
    .bind (forkWorkers_levels levels) fun workers shallow => .bind .closeBrace fun _ _ =>
      .bind (.ifAt (joinClause_levels levels) _) fun join inJoin =>
        .bind (.ifAt (timeoutClause_levels levels) _) fun timeout inTimeout =>
          .bind (.spanFrom _) fun _ _ => .pure ?_
  have inWorkers : Worker.deepest workers ≤ room :=
    Worker.deepest_eq workers ▸ deepest_le_iff.mpr shallow
  have inJoin : Join.depthIfAny join ≤ room :=
    Join.depthIfAny_eq join ▸ depthIfAny_le_iff.mpr inJoin
  have inTimeout : Timeout.depthIfAny timeout ≤ room :=
    Timeout.depthIfAny_eq timeout ▸ depthIfAny_le_iff.mpr inTimeout
  exact Nat.max_le.mpr ⟨inWorkers, Nat.max_le.mpr ⟨inJoin, inTimeout⟩⟩

/-! ### Try and transaction -/

theorem catchClause_levels :
    Levels room (fun clause => clause.depth ≤ room) (catchClause parts) (catchClause counted) :=
  .bind (.keyword _) fun _ _ => .bind (clauseBinding_levels levels) fun _ type =>
    .bind (block_levels levels) fun _ body => .pure (Nat.max_le.mpr ⟨Nat.le_of_lt type, body⟩)

omit levels in
theorem checkClauses_level (catches : List Catch) (finallyBlock : Option Block) (span : Span) :
    Level room (checkClauses catches finallyBlock span) :=
  .ite (.report _) (.pure trivial)

theorem tryStatement_levels : IsShallow room (tryStatement parts) (tryStatement counted) := by
  refine .bind (.keyword _) fun _ _ => .bind (block_levels levels) fun _ body =>
    .bind (.whileAt (catchClause_levels levels) _) fun catches shallow =>
      .bind (.ifBehind (block_levels levels) _) fun _ finallyBlock => .bind (.spanFrom _)
        fun _ _ => .bind (checkClauses_level _ _ _) fun _ _ => .pure ?_
  have inCatches : Catch.deepest catches ≤ room :=
    Catch.deepest_eq catches ▸ deepest_le_iff.mpr shallow
  exact Nat.max_le.mpr ⟨body, Nat.max_le.mpr ⟨inCatches, blockIfAny_le finallyBlock⟩⟩

def Handlers.Within (found : Handlers) (room : Nat) : Prop :=
  (∀ block ∈ found.aborted, block.depth ≤ room) ∧ ∀ block ∈ found.committed, block.depth ≤ room

theorem handler_levels (isAborted : Bool) {found : Handlers} (shallow : found.Within room) :
    Levels room (fun later => later.Within room)
      (handler parts isAborted found) (handler counted isAborted found) := by
  refine .bind (.keyword _) fun _ _ => .bind (block_levels levels) fun block inner =>
    .ite (.bind (.report _) fun _ _ => .pure shallow) (.pure ?_)
  have added : ∀ found ∈ some block, found.depth ≤ room := by
    rintro _ ⟨⟩
    exact inner
  cases isAborted
  · exact ⟨shallow.1, added⟩
  · exact ⟨added, shallow.2⟩

theorem nextHandler_levels {found : Handlers} (shallow : found.Within room) :
    Levels room (fun decision => decision.value.Within room)
      (nextHandler parts found) (nextHandler counted found) :=
  .bind (.check _) fun _ _ => .ite
    (.bind (handler_levels levels true shallow) fun _ shallow => .pure shallow) <|
    .bind (.check _) fun _ _ => .ite
      (.bind (handler_levels levels false shallow) fun _ shallow => .pure shallow)
      (.pure shallow)

theorem handlers_levels :
    Levels room (fun found => found.Within room) (handlers parts) (handlers counted) :=
  .loop (fun _ shallow => nextHandler_levels levels shallow)
    ⟨fun _ found => (nomatch found), fun _ found => (nomatch found)⟩

theorem transactionStatement_levels :
    IsShallow room (transactionStatement parts) (transactionStatement counted) :=
  .bind (.keyword _) fun _ _ => .bind (block_levels levels) fun _ body =>
    .bind (handlers_levels levels) fun _ shallow => .bind (.spanFrom _) fun _ _ =>
      .pure (Nat.max_le.mpr
        ⟨body, Nat.max_le.mpr ⟨blockIfAny_le shallow.1, blockIfAny_le shallow.2⟩⟩)

/-! ### Transform -/

theorem transformStatement_levels :
    IsShallow room (transformStatement parts) (transformStatement counted) :=
  .bind (.keyword _) fun _ _ => .bind (levels.body _) fun body shallow =>
    .pure (Nat.le_trans (depth_toBlock body) shallow)

theorem transformVarDef_levels :
    IsShallow room (transformVarDef parts) (transformVarDef counted) := by
  refine .bind levels.exprs.typeName fun _ type => .bind .expectIdentifier fun _ _ =>
    .bind (.symbol _) fun _ _ => .bind (anyExpr_levels levels.exprs) fun init inner =>
      .bind .endStatement fun _ _ => .bind (.spanFrom _) fun _ _ => .pure ?_
  exact Nat.max_le.mpr ⟨Nat.le_of_lt type, Nat.le_of_lt inner⟩

theorem transformAssignment_levels :
    IsShallow room (transformAssignment parts) (transformAssignment counted) :=
  .bind .peek fun _ _ => .bind (references_levels levels.exprs) fun _ targets =>
    .bind (.symbol _) fun _ _ => .bind (anyExpr_levels levels.exprs) fun _ value =>
      .bind .endStatement fun _ _ => .bind (.spanFrom _) fun _ _ =>
        .pure (Nat.max_le.mpr ⟨deepest_le_iff.mpr targets, Nat.le_of_lt value⟩)

theorem transformItem_levels : IsShallow room (transformItem parts) (transformItem counted) :=
  .bind (.check _) fun _ _ => .ite (transformStatement_levels levels) <|
    .bind .isVarDef fun _ _ => .ite (transformVarDef_levels levels) <|
      .bind (.check _) fun _ _ => .ite (transformAssignment_levels levels) notAStatement_levels

/-! ### Statements and bodies -/

omit levels in
theorem namespaceDecl_level : Level room namespaceDecl :=
  .bind (.keyword _) fun _ _ => .bind (.expect _) fun _ _ =>
    .bind (Levels.ifBehind .expectIdentifier _) fun _ _ => .bind .endStatement fun _ _ =>
      .bind (.spanFrom _) fun _ _ => .pure trivial

theorem plainStatement_levels : IsShallow room (plainStatement parts) (plainStatement counted) :=
  .bind .isVarDef fun _ _ => .ite
    (.bind (varDef_levels levels) fun _ shallow => .pure shallow) <|
    .bind .isInvocation fun _ _ => .ite
      (.bind (invocation_levels levels.exprs) fun _ shallow => .bind .endStatement fun _ _ =>
        .pure shallow)
      (exprStatement_levels levels)

theorem statementWith_levels : IsShallow room (statementWith parts) (statementWith counted) := by
  refine .bind .current fun kind _ => ?_
  split
  · exact varAssignment_levels levels
  · exact ifStatement_levels levels
  · exact iterateStatement_levels levels
  · exact whileStatement_levels levels
  · exact wordStatement_levels _ fun _ => rfl
  · exact wordStatement_levels _ fun _ => rfl
  · exact wordStatement_levels _ fun _ => rfl
  · exact forkStatement_levels levels
  · exact tryStatement_levels levels
  · exact valueStatement_levels levels _ fun _ _ => rfl
  · exact returnStatement_levels levels
  · exact valueStatement_levels levels _ fun _ _ => rfl
  · exact transformStatement_levels levels
  · exact transactionStatement_levels levels
  · exact .bind namespaceDecl_level fun _ _ => .pure (Nat.zero_le room)
  · exact plainStatement_levels levels

def BodyItems.Within (room : Nat) (items : BodyItems) : Prop :=
  (∀ statement ∈ items.statements, statement.depth ≤ room) ∧
    ∀ worker ∈ items.workers, worker.depth ≤ room

section Items

variable {items : BodyItems} (shallow : items.Within room)

include shallow

omit levels in
theorem within_addStatement {statement : Stmt} (inner : statement.depth ≤ room) :
    (items.addStatement statement).Within room :=
  ⟨List.forall_mem_append.mpr ⟨shallow.1, List.forall_mem_singleton.mpr inner⟩, shallow.2⟩

omit levels in
theorem within_addWorker {worker : Worker} (inner : worker.depth ≤ room) :
    (items.addWorker worker).Within room :=
  ⟨shallow.1, List.forall_mem_append.mpr ⟨shallow.2, List.forall_mem_singleton.mpr inner⟩⟩

omit levels in
theorem within_addComments (comments : List Token) : (items.addComments comments).Within room := by
  refine ⟨List.forall_mem_append.mpr ⟨shallow.1, fun statement member => ?_⟩, shallow.2⟩
  obtain ⟨token, -, rfl⟩ := List.mem_map.mp member
  exact Nat.zero_le room

theorem bodyItem_levels (kind : BodyKind) :
    Levels room (BodyItems.Within room) (bodyItem parts kind items) (bodyItem counted kind items) :=
  .bind (.check _) fun _ _ => .ite
    (.ite
      (.bind (worker_levels levels) fun _ inner => .pure (within_addWorker shallow inner))
      (.bind .peek fun _ _ => .fail))
    (.ite
      (.bind (transformItem_levels levels) fun _ inner => .pure (within_addStatement shallow inner))
      (.bind (statementWith_levels levels) fun _ inner => .pure (within_addStatement shallow inner)))

end Items

theorem bodyItems_levels (kind : BodyKind) :
    Levels room (BodyItems.Within room) (bodyItems parts kind) (bodyItems counted kind) := by
  refine .loop (fun items shallow => .bind .takeComments fun comments _ => ?_)
    ⟨fun _ none => (nomatch none), fun _ none => (nomatch none)⟩
  have shallow := within_addComments shallow comments
  refine .bind .current fun _ _ => .ite (.pure shallow) ?_
  refine .bind (.orRecover (bodyItem_levels levels shallow kind) (fun span => ?_) _)
    fun _ shallow => .pure shallow
  exact within_addStatement shallow (Nat.zero_le room)

theorem bodyWith_levels (kind : BodyKind) :
    Levels room (fun body => body.depth ≤ room + 1)
      (bodyWith parts kind) (bodyWith counted kind) := by
  refine .bind (.symbol _) fun _ _ => .bind (bodyItems_levels levels kind) fun items shallow =>
    .bind .closeBrace fun _ _ => .bind (.spanFrom _) fun _ _ => .pure ?_
  have inStatements : Stmt.deepest items.statements ≤ room :=
    Stmt.deepest_eq items.statements ▸ deepest_le_iff.mpr shallow.1
  have inWorkers : Worker.deepest items.workers ≤ room :=
    Worker.deepest_eq items.workers ▸ deepest_le_iff.mpr shallow.2
  exact Nat.succ_le_succ (Nat.max_le.mpr ⟨inStatements, inWorkers⟩)

omit levels in
theorem body_levels {room fuel : Nat} (enough : room < fuel) (kind : BodyKind) :
    Levels room (fun body => body.depth ≤ room) (body room kind) (@body .counted fuel kind) := by
  induction room generalizing fuel kind with
  | zero =>
      obtain ⟨fuel, rfl⟩ := Nat.exists_eq_succ_of_ne_zero (Nat.ne_zero_of_lt enough)
      exact .refused
  | succ room ih =>
      obtain ⟨fuel, rfl⟩ := Nat.exists_eq_succ_of_ne_zero (Nat.ne_zero_of_lt enough)
      have less := Nat.lt_of_succ_lt_succ enough
      exact .entered (bodyWith_levels ⟨within_hasLevels less, ih less⟩ kind)

omit levels in
theorem stmtParts_hasLevels {room fuel : Nat} (enough : room < fuel) :
    (StmtParts.within room).HasLevels room (@StmtParts.within .counted fuel) :=
  ⟨within_hasLevels enough, body_levels enough⟩

end Parts

end ServiceLang.Grammar
