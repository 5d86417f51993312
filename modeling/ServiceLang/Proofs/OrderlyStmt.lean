import ServiceLang.Grammar.Stmt
import ServiceLang.Proofs.OrderlyExpr
import ServiceLang.Proofs.Skipping

set_option autoImplicit false

/-! The rules for statements and bodies are orderly, and none of them gives a value
without passing over a token. -/

namespace ServiceLang.Grammar

open Step

variable {legal : Cursor → Prop} [permissive : Permissive legal]

structure StmtParts.AreEager (legal : Cursor → Prop) (parts : StmtParts) : Prop where
  exprParts : parts.toExprParts.AreEager legal
  body : ∀ kind, Eager legal (parts.body kind)

omit permissive in
theorem notAStatement_eager {α : Type} : Eager legal (notAStatement : Step α) :=
  .failAt fun _ => ⟨rfl, nofun⟩

section Parts

variable {parts : StmtParts} (eager : parts.AreEager legal)

include eager

omit permissive in
theorem block_eager_of_parts : Eager legal parts.block :=
  .bind (eager.body .block) fun _ => .pure _

/-! ### Variables and assignments -/

theorem varDef_eager : Eager legal (varDef parts) :=
  .bind eager.exprParts.typeName fun _ => .bind .expectIdentifier fun _ =>
    .bind (.ifBehind rfl (initializer_eager eager.exprParts).orderly) fun _ =>
    .bind .endStatement fun _ => .bind (.spanFrom _) fun _ => .pure _

theorem varAssignment_eager : Eager legal (varAssignment parts) :=
  .bind (.keyword rfl) fun _ => .bind (references_eager eager.exprParts).orderly fun _ =>
    .bind (.symbol _) fun _ => .bind (initializer_eager eager.exprParts).orderly fun _ =>
    .bind .endStatement fun _ => .bind (.spanFrom _) fun _ => .pure _

omit eager permissive in
theorem assignmentTargets_orderly (exprs : List Expr) :
    Orderly legal (assignmentTargets exprs) := by
  unfold assignmentTargets
  split
  · exact .fail ⟨rfl, nofun⟩
  · exact .pure _

theorem assignmentEnd_orderly (first : Expr) (others : List Expr) :
    Orderly legal (assignmentEnd parts first others) :=
  .bind (assignmentTargets_orderly _) fun _ => .bind (.symbol _) fun _ =>
    .bind (initializer_eager eager.exprParts).orderly fun _ => .bind .endStatement fun _ =>
    .bind (.spanFrom _) fun _ => .pure _

omit eager in
theorem sendTarget_orderly : Orderly legal sendTarget := by
  refine .bind (.eat? rfl) fun word => ?_
  split
  · exact .pure _
  · exact .bind .expectIdentifier fun _ => .pure _

omit eager in
theorem sendEnd_orderly (first : Expr) (others : List Expr) :
    Orderly legal (sendEnd first others) :=
  .bind (.symbol _) fun _ => .bind sendTarget_orderly fun _ => .bind .endStatement fun _ =>
    .bind (.spanFrom _) fun _ => .pure _

omit eager in
theorem receiveEnd_orderly (first : Expr) (others : List Expr) :
    Orderly legal (receiveEnd first others) :=
  .bind (assignmentTargets_orderly _) fun _ => .bind (.symbol _) fun _ =>
    .bind .expectIdentifier fun _ => .bind .endStatement fun _ => .bind (.spanFrom _) fun _ =>
    .pure _

omit eager in
theorem callEnd_orderly (first : Expr) (others : List Expr) :
    Orderly legal (callEnd first others) := by
  unfold callEnd
  split
  · exact .bind .endStatement fun _ => .pure _
  · exact .fail ⟨rfl, nofun⟩

theorem exprStatementEnd_orderly (first : Expr) (others : List Expr) :
    Orderly legal (exprStatementEnd parts first others) := by
  refine .bind .current fun kind => ?_
  split
  · exact assignmentEnd_orderly eager first others
  · exact sendEnd_orderly first others
  · exact receiveEnd_orderly first others
  · exact callEnd_orderly first others

theorem moreExpressions_orderly : Orderly legal (moreExpressions parts) :=
  .bind (.eat rfl) fun _ => .ite (expressions_orderly eager.exprParts) (.pure _)

theorem exprStatement_eager : Eager legal (exprStatement parts) :=
  .behind .current fun _ => .ite
    (.bind (anyExpr_eager eager.exprParts) fun _ => .bind (moreExpressions_orderly eager) fun _ =>
      exprStatementEnd_orderly eager _ _)
    notAStatement_eager

/-! ### Control flow -/

omit eager in
theorem wordStatement_eager {word : Keyword} (free : (Kind.keyword word).isBarrier = false)
    (make : Span → Stmt) : Eager legal (wordStatement word make) :=
  .bind (.keyword free) fun _ => .bind .endStatement fun _ => .bind (.spanFrom _) fun _ => .pure _

theorem valueStatement_eager {word : Keyword} (free : (Kind.keyword word).isBarrier = false)
    (make : Expr → Span → Stmt) : Eager legal (valueStatement parts word make) :=
  .bind (.keyword free) fun _ => .bind (anyExpr_eager eager.exprParts).orderly fun _ =>
    .bind .endStatement fun _ => .bind (.spanFrom _) fun _ => .pure _

theorem elseIf_orderly (start : Token) : Orderly legal (elseIf parts start) :=
  .bind (condition_eager eager.exprParts).orderly fun _ =>
    .bind (block_eager_of_parts eager).orderly fun _ => .pure _

theorem nextBranch_turn (found : List ElseIf × Option Block) :
    Turn legal (nextBranch parts found) :=
  .eat? rfl (by simp) (.done found) fun _ => .bind (.eat rfl) fun _ =>
    .ite (.bind (elseIf_orderly eager _) fun _ => .pure _)
      (.bind (block_eager_of_parts eager).orderly fun _ => .pure _)

theorem elseBranches_orderly : Orderly legal (elseBranches parts) :=
  .loop (nextBranch_turn eager) _

theorem ifStatement_eager : Eager legal (ifStatement parts) :=
  .bind (.keyword rfl) fun _ => .bind (condition_eager eager.exprParts).orderly fun _ =>
    .bind (block_eager_of_parts eager).orderly fun _ => .bind (elseBranches_orderly eager)
      fun _ => .bind (.spanFrom _) fun _ => .pure _

theorem iterateStatement_eager : Eager legal (iterateStatement parts) :=
  .bind (.keyword rfl) fun _ => .bind (.symbol _) fun _ =>
    .bind eager.exprParts.typeName.orderly fun _ => .bind .expectIdentifier fun _ =>
    .bind (.symbol _) fun _ => .bind (anyExpr_eager eager.exprParts).orderly fun _ =>
    .bind (.symbol _) fun _ => .bind (block_eager_of_parts eager).orderly fun _ => .pure _

theorem whileStatement_eager : Eager legal (whileStatement parts) :=
  .bind (.keyword rfl) fun _ => .bind (condition_eager eager.exprParts).orderly fun _ =>
    .bind (block_eager_of_parts eager).orderly fun _ => .pure _

theorem returnValues_orderly : Orderly legal (returnValues parts) :=
  .bind .current fun _ => .ite (expressions_orderly eager.exprParts) (.pure _)

theorem returnStatement_eager : Eager legal (returnStatement parts) :=
  .bind (.keyword rfl) fun _ => .bind (returnValues_orderly eager) fun _ =>
    .bind .endStatement fun _ => .bind (.spanFrom _) fun _ => .pure _

/-! ### Workers, forks and joins -/

theorem worker_eager : Eager legal (worker parts) :=
  .bind (.keyword rfl) fun _ => .bind .expectIdentifier fun _ =>
    .bind (eager.body _).orderly fun _ => .pure _

theorem forkWorker_eager : Eager legal (forkWorker parts) :=
  .behind (.check _) fun _ => .ite (worker_eager eager) (.behind .peek fun _ => .fail (isComplaint_wrongToken _ _))

omit eager permissive in
theorem startsDefinition_of_endsBody {kind : Kind} (inside : ¬endsBody kind = true) :
    kind.startsDefinition = false ∧ kind ≠ .endOfFile := by
  constructor
  · cases starts : kind.startsDefinition with
    | false => rfl
    | true => simp [endsBody, starts] at inside
  · rintro rfl
    simp [endsBody] at inside

omit eager in
/-- What is recovered from in a body begins at a token that does not end it. -/
theorem orRecover_eagerAt_of_endsBody {α : Type} {point : SyncPoint} {part : Step α}
    {instead : Span → α} {parser : Parser} (eager : Eager legal part)
    (inside : ¬endsBody parser.cursor.peek.kind = true) :
    EagerAt legal (orRecover point part instead) parser := by
  obtain ⟨free, more⟩ := startsDefinition_of_endsBody inside
  exact .orRecover (.of eager) (permissive.ofIsOpen _ (.of_startsDefinition free)) more

theorem nextForkWorker_turn (workers : List Worker) :
    Turn legal (nextForkWorker parts workers) := by
  refine .ofAt fun parser => .lookThen (fun _ alike => current_alike alike) ?_
  split
  · exact .done workers
  · rename_i inside
    refine .eager (.bind (orRecover_eagerAt_of_endsBody ?_ inside) fun _ later _ => Orderly.pure _ later)
    exact .bind (forkWorker_eager eager) fun _ => .pure _

theorem forkWorkers_orderly : Orderly legal (forkWorkers parts) :=
  .loop (nextForkWorker_turn eager) []

omit eager in
theorem workerNames_orderly : Orderly legal workerNames :=
  .bind (.check _) fun _ => .ite (.commaSeparated .expectIdentifier) (.pure _)

omit eager in
theorem firstOf_orderly (word : Token) : Orderly legal (firstOf word) := by
  refine .bind (.expect rfl) fun number => ?_
  split
  · exact .fail ⟨rfl, nofun⟩
  · exact .bind workerNames_orderly fun _ => .bind (.spanFrom _) fun _ => .pure _

omit eager in
theorem everyOf_orderly (word : Token) : Orderly legal (everyOf word) :=
  .bind workerNames_orderly fun _ => .bind (.spanFrom _) fun _ => .pure _

omit eager in
/-- The word of a join condition is passed over whatever it is; it has been
looked at before. -/
theorem joinCondition_run {parser : Parser}
    (free : parser.cursor.peek.kind.isBarrier = false) :
    RunsIn legal joinCondition parser := by
  refine .bind (Run.advanceOf rfl free) fun word later _ => ?_
  split
  · exact firstOf_orderly word later
  · exact firstOf_orderly word later
  · exact everyOf_orderly word later
  · exact Orderly.fail (isComplaint_wrongToken _ _) later

omit eager permissive in
/-- A word of a join condition stands behind the parenthesis. -/
theorem isBarrier_of_startsJoinCondition {cursor : Cursor}
    (starts : startsJoinCondition cursor.kinds = true) :
    (cursor.peekNth 1).kind.isBarrier = false := by
  rw [Cursor.kind_peekNth]
  unfold startsJoinCondition at starts
  split at starts
  case h_4 => cases starts
  all_goals
    rename_i kinds
    rw [kinds]
    rfl

omit eager in
theorem bracketedCondition_orderly : Orderly legal bracketedCondition := by
  refine fun parser => .lookThen (fun _ alike => isJoinCondition_alike alike) ?_
  split
  · rename_i starts
    refine .bind (Orderly.symbol _ parser) fun _ later ran => ?_
    obtain ⟨-, -, rfl⟩ := expect_ok ran
    refine .bind (joinCondition_run ?_) fun _ last _ => ?_
    · change parser.cursor.advance.peek.kind.isBarrier = false
      rw [Cursor.peek_advance]
      exact isBarrier_of_startsJoinCondition starts
    · exact Orderly.bind (.symbol _) (fun _ => .pure _) last
  · exact Orderly.pure _ parser

theorem clauseBinding_orderly : Orderly legal (clauseBinding parts) :=
  .bind (.symbol _) fun _ => .bind eager.exprParts.typeName.orderly fun _ =>
    .bind .expectIdentifier fun _ => .bind (.symbol _) fun _ => .pure _

theorem joinClause_orderly : Orderly legal (joinClause parts) :=
  .bind (.expect rfl) fun _ => .bind bracketedCondition_orderly fun _ =>
    .bind (clauseBinding_orderly eager) fun _ => .bind (block_eager_of_parts eager).orderly
      fun _ => .pure _

theorem timeoutClause_orderly : Orderly legal (timeoutClause parts) :=
  .bind (.expect rfl) fun _ => .bind (condition_eager eager.exprParts).orderly fun _ =>
    .bind (clauseBinding_orderly eager) fun _ => .bind (block_eager_of_parts eager).orderly
      fun _ => .pure _

theorem forkStatement_eager : Eager legal (forkStatement parts) :=
  .bind (.keyword rfl) fun _ => .bind (.symbol _) fun _ => .bind (forkWorkers_orderly eager)
    fun _ => .bind .closeBrace fun _ => .bind (.ifAt (joinClause_orderly eager)) fun _ =>
    .bind (.ifAt (timeoutClause_orderly eager)) fun _ => .bind (.spanFrom _) fun _ => .pure _

/-! ### Try and transaction -/

theorem catchClause_eager : Eager legal (catchClause parts) :=
  .bind (.keyword rfl) fun _ => .bind (clauseBinding_orderly eager) fun _ =>
    .bind (block_eager_of_parts eager).orderly fun _ => .pure _

omit eager permissive in
theorem checkClauses_orderly (catches : List Catch) (finallyBlock : Option Block) (span : Span) :
    Orderly legal (checkClauses catches finallyBlock span) :=
  .ite (.report ⟨rfl, nofun⟩) (.pure _)

theorem tryStatement_eager : Eager legal (tryStatement parts) :=
  .bind (.keyword rfl) fun _ => .bind (block_eager_of_parts eager).orderly fun _ =>
    .bind (.whileAt (catchClause_eager eager)) fun _ =>
    .bind (.ifBehind rfl (block_eager_of_parts eager).orderly) fun _ => .bind (.spanFrom _)
      fun _ => .bind (checkClauses_orderly _ _ _) fun _ => .pure _

theorem handler_eager (isAborted : Bool) (found : Handlers) :
    Eager legal (handler parts isAborted found) := by
  refine .bind (.keyword ?_) fun _ => .bind (block_eager_of_parts eager).orderly fun _ => ?_
  · cases isAborted <;> rfl
  · exact .ite (.bind (.report ⟨rfl, nofun⟩) fun _ => .pure _) (.pure _)

theorem nextHandler_turn (found : Handlers) : Turn legal (nextHandler parts found) :=
  .behind (.check _) fun _ => .ite (.eager (.bind (handler_eager eager true found) fun _ => .pure _))
    <| .behind (.check _) fun _ =>
      .ite (.eager (.bind (handler_eager eager false found) fun _ => .pure _)) (.done found)

theorem handlers_orderly : Orderly legal (handlers parts) :=
  .loop (nextHandler_turn eager) _

theorem transactionStatement_eager : Eager legal (transactionStatement parts) :=
  .bind (.keyword rfl) fun _ => .bind (block_eager_of_parts eager).orderly fun _ =>
    .bind (handlers_orderly eager) fun _ => .bind (.spanFrom _) fun _ => .pure _

/-! ### Transform -/

theorem transformStatement_eager : Eager legal (transformStatement parts) :=
  .bind (.keyword rfl) fun _ => .bind (eager.body _).orderly fun _ => .pure _

theorem transformVarDef_eager : Eager legal (transformVarDef parts) :=
  .bind eager.exprParts.typeName fun _ => .bind .expectIdentifier fun _ => .bind (.symbol _)
    fun _ => .bind (anyExpr_eager eager.exprParts).orderly fun _ => .bind .endStatement fun _ =>
    .bind (.spanFrom _) fun _ => .pure _

theorem transformAssignment_eager : Eager legal (transformAssignment parts) :=
  .behind .peek fun _ => .bind (references_eager eager.exprParts) fun _ => .bind (.symbol _)
    fun _ => .bind (anyExpr_eager eager.exprParts).orderly fun _ => .bind .endStatement fun _ =>
    .bind (.spanFrom _) fun _ => .pure _

theorem transformItem_eager : Eager legal (transformItem parts) :=
  .behind (.check _) fun _ => .ite (transformStatement_eager eager) <| .behind .isVarDef fun _ =>
    .ite (transformVarDef_eager eager) <| .behind (.check _) fun _ =>
      .ite (transformAssignment_eager eager) notAStatement_eager

/-! ### Statements and bodies -/

omit eager in
theorem namespaceDecl_eager : Eager legal namespaceDecl :=
  .bind (.keyword rfl) fun _ => .bind (.expect rfl) fun _ =>
    .bind (.ifBehind rfl .expectIdentifier) fun _ => .bind .endStatement fun _ =>
    .bind (.spanFrom _) fun _ => .pure _

theorem invocationStatement_eager : Eager legal (invocationStatement parts) :=
  .bind (invocation_eager eager.exprParts) fun _ => .bind .endStatement fun _ => .pure _

theorem plainStatement_eager : Eager legal (plainStatement parts) :=
  .behind .isVarDef fun _ => .ite (.bind (varDef_eager eager) fun _ => .pure _) <|
    .behind .isInvocation fun _ =>
      .ite (invocationStatement_eager eager) (exprStatement_eager eager)

theorem statementWith_eager : Eager legal (statementWith parts) := by
  refine .behind .current fun kind => ?_
  split
  · exact varAssignment_eager eager
  · exact ifStatement_eager eager
  · exact iterateStatement_eager eager
  · exact whileStatement_eager eager
  · exact wordStatement_eager rfl _
  · exact wordStatement_eager rfl _
  · exact wordStatement_eager rfl _
  · exact forkStatement_eager eager
  · exact tryStatement_eager eager
  · exact valueStatement_eager eager rfl _
  · exact returnStatement_eager eager
  · exact valueStatement_eager eager rfl _
  · exact transformStatement_eager eager
  · exact transactionStatement_eager eager
  · exact .bind namespaceDecl_eager fun _ => .pure _
  · exact plainStatement_eager eager

theorem bodyItem_eager (kind : BodyKind) (items : BodyItems) :
    Eager legal (bodyItem parts kind items) :=
  .behind (.check _) fun _ => .ite
    (.ite (.bind (worker_eager eager) fun _ => .pure _) (.behind .peek fun _ => .fail ⟨rfl, nofun⟩))
    (.ite (.bind (transformItem_eager eager) fun _ => .pure _)
      (.bind (statementWith_eager eager) fun _ => .pure _))

theorem nextBodyItem_turn (kind : BodyKind) (items : BodyItems) :
    Turn legal (nextBodyItem parts kind items) := by
  refine .behind .takeComments fun comments => ?_
  refine .ofAt fun parser => .lookThen (fun _ alike => current_alike alike) ?_
  split
  · exact .done _
  · rename_i inside
    exact .eager (.bind (orRecover_eagerAt_of_endsBody (bodyItem_eager eager kind _) inside)
      fun _ later _ => Orderly.pure _ later)

theorem bodyItems_orderly (kind : BodyKind) : Orderly legal (bodyItems parts kind) :=
  .loop (nextBodyItem_turn eager kind) _

theorem bodyWith_eager (kind : BodyKind) : Eager legal (bodyWith parts kind) :=
  .bind (.symbol _) fun _ => .bind (bodyItems_orderly eager kind) fun _ => .bind .closeBrace
    fun _ => .bind (.spanFrom _) fun _ => .pure _

end Parts

theorem body_eager (room : Nat) (kind : BodyKind) : Eager legal (body room kind) := by
  induction room generalizing kind with
  | zero => exact .tooDeep
  | succ room ih => exact bodyWith_eager ⟨within_areEager room, ih⟩ kind

theorem StmtParts.within_areEager (room : Nat) : (StmtParts.within room).AreEager legal :=
  ⟨Grammar.within_areEager room, body_eager room⟩

theorem block_eager (room : Nat) : Eager legal (block room) :=
  .bind (body_eager room .block) fun _ => .pure _

end ServiceLang.Grammar
