import ServiceLang.Grammar.Stmt
import ServiceLang.Proofs.AbreastTree

set_option autoImplicit false

/-! The rules for statements and bodies keep abreast. What is found in a body is reported,
skipped or kept alike on both sides, so that both bodies hold as many items. -/

namespace ServiceLang.Grammar

open Step

variable {matching : Matching}

structure StmtParts.AreSteady (matching : Matching) (parts : StmtParts) : Prop where
  exprs : parts.toExprParts.AreSteady matching
  body : ∀ kind, Steady matching (parts.body kind)

/-! ### Lists of expressions -/

section Lists

variable {view : View}

theorem reference?_agree {left right : Expr} (exprs : view.Agree left right) :
    view.Agree left.reference? right.reference? := by
  obtain ⟨same, spans⟩ := exprs
  cases left <;> cases right <;> simp only [Expr.placedBy, Expr.reference.injEq, reduceCtorEq] at same
  case reference.reference => exact .some ⟨same, spans⟩
  all_goals exact .none

theorem references_agree {left right : List Expr} (exprs : view.Agree left right) :
    view.Agree (left.filterMap Expr.reference?) (right.filterMap Expr.reference?) := by
  induction exprs with
  | nil => exact .nil
  | cons first _ ih =>
      have found := reference?_agree first
      rw [List.filterMap_cons, List.filterMap_cons]
      revert found
      generalize Expr.reference? _ = here, Expr.reference? _ = there
      rintro (references | _)
      · exact .cons references ih
      · exact ih

/-- Both lists have something that cannot be assigned to, at the same place, or neither has. -/
theorem notAssignable_agree {left right : List Expr} (exprs : view.Agree left right) :
    view.Agree (left.find? fun expr => expr.reference?.isNone)
      (right.find? fun expr => expr.reference?.isNone) := by
  induction exprs with
  | nil => exact .none
  | cons first _ ih =>
      rw [List.find?_cons, List.find?_cons, View.isNone_of_rel (reference?_agree first)]
      split
      · exact .some first
      · exact ih

theorem listSpan_agree {first second : Expr} {others rest : List Expr}
    (exprs : view.Agree first second) (lists : view.Agree others rest) :
    view.Agree (listSpan first others) (listSpan second rest) := by
  have backwards : List.Forall₂ view.Agree others.reverse rest.reverse :=
    List.forall₂_reverse_iff.mpr lists
  refine view.merge exprs.spans ?_
  rw [List.getLast?_eq_head?_reverse, List.getLast?_eq_head?_reverse]
  revert backwards
  generalize others.reverse = here, rest.reverse = there
  rintro (_ | ⟨last, _⟩)
  · exact exprs.spans
  · exact last.spans

end Lists

theorem assignmentTargets_abreast {left right : List Expr} (exprs : matching.Agree left right) :
    Abreast matching (assignmentTargets left) (assignmentTargets right) := by
  have bad := notAssignable_agree exprs
  rw [assignmentTargets, assignmentTargets]
  revert bad
  generalize List.find? _ left = here, List.find? _ right = there
  rintro (expr | _)
  · exact .fail (View.error_agree _ _ expr.spans)
  · exact .pure (references_agree exprs)

section Parts

variable {parts : StmtParts} (steady : parts.AreSteady matching)

include steady

theorem block_steady : Steady matching parts.block :=
  .bind (steady.body _) fun _ _ bodies => .pure (toBlock_agree bodies)

omit steady in
theorem notAStatement_steady {α : Type} [Matchable α] :
    Steady matching (notAStatement : Step α) := by
  refine .failAt fun _ _ agree => ?_
  rw [agree.kind]
  exact View.error_agree _ _ agree.spans

/-! ### Variables and assignments -/

theorem varDef_steady : Steady matching (varDef parts) := by
  refine .bind steady.exprs.typeName fun _ _ type => .bind .expectIdentifier fun _ _ name =>
    .bind (.ifBehind (initializer_steady steady.exprs) _) fun _ _ init =>
      .bind .endStatement fun _ _ _ => .bind (.spanFrom type.spans) fun _ _ spans => .pure ?_
  exact varDef_agree spans name type init

theorem varAssignment_steady : Steady matching (varAssignment parts) := by
  refine .bind (.keyword _) fun _ _ word => .bind (references_steady steady.exprs) fun _ _ targets =>
    .bind (.symbol _) fun _ _ _ => .bind (initializer_steady steady.exprs) fun _ _ value =>
      .bind .endStatement fun _ _ _ => .bind (.spanFrom word.spans) fun _ _ spans => .pure ?_
  exact assign_agree spans value true targets

omit steady in
theorem sendTarget_steady : Steady matching sendTarget := by
  refine .bind (.eat? _) fun _ _ word => ?_
  cases word with
  | none =>
      refine .bind .expectIdentifier fun _ _ receiver => .pure ?_
      exact congrArg SendTarget.worker receiver.same
  | some word =>
      refine .pure ?_
      exact congrArg SendTarget.fork (matching.shown_eq word.spans)

section Ends

variable {first second : Expr} (exprs : matching.Agree first second)
variable {others rest : List Expr} (lists : matching.Agree others rest)

include exprs lists

theorem assignmentEnd_abreast :
    Abreast matching (assignmentEnd parts first others) (assignmentEnd parts second rest) := by
  refine .bind (assignmentTargets_abreast (.cons exprs lists)) fun _ _ targets =>
    .bind (.symbol _) fun _ _ _ => .bind (initializer_steady steady.exprs) fun _ _ value =>
      .bind .endStatement fun _ _ _ => .bind (.spanFrom exprs.spans) fun _ _ spans => .pure ?_
  exact assign_agree spans value false targets

omit steady in
theorem sendEnd_abreast : Abreast matching (sendEnd first others) (sendEnd second rest) := by
  refine .bind (.symbol _) fun _ _ _ => .bind sendTarget_steady fun _ _ target =>
    .bind .endStatement fun _ _ _ => .bind (.spanFrom exprs.spans) fun _ _ spans => .pure ?_
  exact send_agree spans (.cons exprs lists) target

omit steady in
theorem receiveEnd_abreast : Abreast matching (receiveEnd first others) (receiveEnd second rest) := by
  refine .bind (assignmentTargets_abreast (.cons exprs lists)) fun _ _ _ =>
    .bind (.symbol _) fun _ _ _ => .bind .expectIdentifier fun _ _ sender =>
      .bind .endStatement fun _ _ _ => .bind (.spanFrom exprs.spans) fun _ _ spans => .pure ?_
  exact receive_agree spans sender (.cons exprs lists)

omit steady in
/-- Both lists are one call, or neither is. -/
theorem callEnd_abreast : Abreast matching (callEnd first others) (callEnd second rest) := by
  have broken := View.error_agree .expectedStatement "expression is not a statement"
    (listSpan_agree exprs lists)
  obtain ⟨same, spans⟩ := exprs
  cases lists with
  | cons => cases first <;> cases second <;> exact .fail broken
  | nil =>
      cases first <;> cases second <;>
        simp only [Expr.placedBy, Expr.call.injEq, reduceCtorEq] at same
      case call.call =>
        refine .bind .endStatement fun _ _ _ => .pure ⟨?_, spans⟩
        simp only [Expr.allPlacedBy_eq_map] at same
        simp only [Stmt.placedBy, same]
      all_goals exact .fail broken

theorem exprStatementEnd_abreast :
    Abreast matching (exprStatementEnd parts first others) (exprStatementEnd parts second rest) := by
  refine .seen .current fun kind => ?_
  split
  · exact assignmentEnd_abreast steady exprs lists
  · exact sendEnd_abreast exprs lists
  · exact receiveEnd_abreast exprs lists
  · exact callEnd_abreast exprs lists

end Ends

theorem moreExpressions_steady : Steady matching (moreExpressions parts) := by
  refine .bind (.eat _) fun _ _ same => ?_
  cases same
  exact .ite (expressions_steady steady.exprs) (.pure .nil)

theorem exprStatement_steady : Steady matching (exprStatement parts) :=
  .seen .current fun _ => .ite
    (.bind (anyExpr_steady steady.exprs) fun _ _ first =>
      .bind (moreExpressions_steady steady) fun _ _ others =>
        exprStatementEnd_abreast steady first others)
    notAStatement_steady

/-! ### Control flow -/

omit steady in
theorem wordStatement_steady (word : Keyword) {make : Span → Stmt}
    (makes : ∀ left right, matching.Agree left right → matching.Agree (make left) (make right)) :
    Steady matching (wordStatement word make) :=
  .bind (.keyword _) fun _ _ start => .bind .endStatement fun _ _ _ =>
    .bind (.spanFrom start.spans) fun _ _ spans => .pure (makes _ _ spans)

theorem valueStatement_steady (word : Keyword) {make : Expr → Span → Stmt}
    (makes : ∀ left right span other, matching.Agree left right → matching.Agree span other →
      matching.Agree (make left span) (make right other)) :
    Steady matching (valueStatement parts word make) :=
  .bind (.keyword _) fun _ _ start => .bind (anyExpr_steady steady.exprs) fun _ _ value =>
    .bind .endStatement fun _ _ _ => .bind (.spanFrom start.spans) fun _ _ spans =>
      .pure (makes _ _ _ _ value spans)

theorem elseIf_abreast {left right : Token} (word : matching.Agree left right) :
    Abreast matching (elseIf parts left) (elseIf parts right) := by
  refine .bind (condition_steady steady.exprs) fun _ _ condition =>
    .bind (block_steady steady) fun _ _ block => .pure ?_
  exact elseIf_agree (matching.merge word.spans block.spans) condition block

theorem nextBranch_abreast {found other : List ElseIf × Option Block}
    (agree : matching.Agree found other) :
    Abreast matching (nextBranch parts found) (nextBranch parts other) := by
  refine .bind (.eat? _) fun _ _ word => ?_
  cases word with
  | none => exact .pure (.done agree)
  | some word =>
      refine .bind (.eat _) fun _ _ same => ?_
      cases same
      exact .ite
        (.bind (elseIf_abreast steady word) fun _ _ branch =>
          .pure (.yield ⟨List.rel_append agree.1 (.cons branch .nil), agree.2⟩))
        (.bind (block_steady steady) fun _ _ block => .pure (.done ⟨agree.1, .some block⟩))

theorem elseBranches_steady : Steady matching (elseBranches parts) :=
  .loop (fun _ _ agree => nextBranch_abreast steady agree) ⟨.nil, .none⟩

theorem ifStatement_steady : Steady matching (ifStatement parts) := by
  refine .bind (.keyword _) fun _ _ word => .bind (condition_steady steady.exprs) fun _ _ condition =>
    .bind (block_steady steady) fun _ _ block => .bind (elseBranches_steady steady) fun _ _ more =>
      .bind (.spanFrom word.spans) fun _ _ spans => .pure ?_
  exact ifElse_agree spans condition block more.1 more.2

theorem iterateStatement_steady : Steady matching (iterateStatement parts) := by
  refine .bind (.keyword _) fun _ _ word => .bind (.symbol _) fun _ _ _ =>
    .bind steady.exprs.typeName fun _ _ type => .bind .expectIdentifier fun _ _ name =>
      .bind (.symbol _) fun _ _ _ => .bind (anyExpr_steady steady.exprs) fun _ _ collection =>
        .bind (.symbol _) fun _ _ _ => .bind (block_steady steady) fun _ _ body => .pure ?_
  exact iterate_agree (matching.merge word.spans body.spans) name type collection body

theorem whileStatement_steady : Steady matching (whileStatement parts) := by
  refine .bind (.keyword _) fun _ _ word => .bind (condition_steady steady.exprs) fun _ _ condition =>
    .bind (block_steady steady) fun _ _ body => .pure ?_
  exact whileLoop_agree (matching.merge word.spans body.spans) condition body

theorem returnValues_steady : Steady matching (returnValues parts) :=
  .seen .current fun _ => .ite (expressions_steady steady.exprs) (.pure .nil)

theorem returnStatement_steady : Steady matching (returnStatement parts) := by
  refine .bind (.keyword _) fun _ _ word => .bind (returnValues_steady steady) fun _ _ values =>
    .bind .endStatement fun _ _ _ => .bind (.spanFrom word.spans) fun _ _ spans => .pure ?_
  exact returns_agree spans values

/-! ### Workers, forks and joins -/

theorem worker_steady : Steady matching (worker parts) := by
  refine .bind (.keyword _) fun _ _ word => .bind .expectIdentifier fun _ _ name =>
    .bind (steady.body _) fun _ _ body => .pure ?_
  exact worker_agree (matching.merge word.spans body.spans) name body

theorem forkWorker_steady : Steady matching (forkWorker parts) :=
  .seen (.check _) fun _ => .ite (worker_steady steady)
    (.bind .peek fun _ _ agree => .fail (View.wrongToken_agree agree _))

theorem nextForkWorker_abreast {workers others : List Worker}
    (agree : matching.Agree workers others) :
    Abreast matching (nextForkWorker parts workers) (nextForkWorker parts others) := by
  refine .seen .current fun kind => .ite (.pure (.done agree)) ?_
  refine .bind (.orRecover ?_ (fun _ _ _ => agree) _) fun _ _ found => .pure (.yield found)
  exact .bind (forkWorker_steady steady) fun _ _ worker =>
    .pure (List.rel_append agree (.cons worker .nil))

theorem forkWorkers_steady : Steady matching (forkWorkers parts) :=
  .loop (fun _ _ agree => nextForkWorker_abreast steady agree) .nil

omit steady in
theorem workerNames_steady : Steady matching workerNames :=
  .seen (.check _) fun _ => .ite (.commaSeparated .expectIdentifier) (.pure .nil)

omit steady in
theorem firstOf_abreast {left right : Token} (word : matching.Agree left right) :
    Abreast matching (firstOf left) (firstOf right) := by
  refine .bind (.expect _) fun _ _ number => ?_
  rw [number.lexeme]
  split
  · exact .fail (View.error_agree _ _ number.spans)
  · refine .bind workerNames_steady fun _ _ workers => .bind (.spanFrom word.spans) fun _ _ spans =>
      .pure ?_
    exact ⟨by simp only [JoinCondition.placedBy, View.map_eq_of_forall₂ workers,
      matching.shown_eq spans], spans⟩

omit steady in
theorem everyOf_abreast {left right : Token} (word : matching.Agree left right) :
    Abreast matching (everyOf left) (everyOf right) := by
  refine .bind workerNames_steady fun _ _ workers => .bind (.spanFrom word.spans) fun _ _ spans =>
    .pure ?_
  exact ⟨by simp only [JoinCondition.placedBy, View.map_eq_of_forall₂ workers,
    matching.shown_eq spans], spans⟩

omit steady in
theorem joinCondition_steady : Steady matching joinCondition := by
  refine .bind .advance fun left right word => ?_
  rw [word.kind]
  split
  · exact firstOf_abreast word
  · exact firstOf_abreast word
  · exact everyOf_abreast word
  · exact .fail (View.wrongToken_agree word _)

omit steady in
theorem bracketedCondition_steady : Steady matching bracketedCondition :=
  .seen .isJoinCondition fun _ => .ite
    (.bind (.symbol _) fun _ _ _ => .bind joinCondition_steady fun _ _ condition =>
      .bind (.symbol _) fun _ _ _ => .pure (.some condition))
    (.pure .none)

theorem clauseBinding_steady : Steady matching (clauseBinding parts) :=
  .bind (.symbol _) fun _ _ _ => .bind steady.exprs.typeName fun _ _ type =>
    .bind .expectIdentifier fun _ _ name => .bind (.symbol _) fun _ _ _ => .pure ⟨type, name⟩

theorem joinClause_steady : Steady matching (joinClause parts) := by
  refine .bind (.keyword _) fun _ _ word => .bind bracketedCondition_steady fun _ _ condition =>
    .bind (clauseBinding_steady steady) fun _ _ binding => .bind (block_steady steady) fun _ _ body =>
      .pure ?_
  exact join_agree (matching.merge word.spans body.spans) binding.2 binding.1 body condition

theorem timeoutClause_steady : Steady matching (timeoutClause parts) := by
  refine .bind (.keyword _) fun _ _ word => .bind (condition_steady steady.exprs) fun _ _ timeout =>
    .bind (clauseBinding_steady steady) fun _ _ binding => .bind (block_steady steady) fun _ _ body =>
      .pure ?_
  exact timeout_agree (matching.merge word.spans body.spans) binding.2 binding.1 timeout body

theorem forkStatement_steady : Steady matching (forkStatement parts) := by
  refine .bind (.keyword _) fun _ _ word => .bind (.symbol _) fun _ _ _ =>
    .bind (forkWorkers_steady steady) fun _ _ workers => .bind .closeBrace fun _ _ _ =>
      .bind (.ifAt (joinClause_steady steady) _) fun _ _ join =>
        .bind (.ifAt (timeoutClause_steady steady) _) fun _ _ timeout =>
          .bind (.spanFrom word.spans) fun _ _ spans => .pure ?_
  exact forkJoin_agree spans workers join timeout

/-! ### Try and transaction -/

theorem catchClause_steady : Steady matching (catchClause parts) := by
  refine .bind (.keyword _) fun _ _ word => .bind (clauseBinding_steady steady) fun _ _ binding =>
    .bind (block_steady steady) fun _ _ body => .pure ?_
  exact catch_agree (matching.merge word.spans body.spans) binding.2 binding.1 body

omit steady in
theorem checkClauses_abreast {catches others : List Catch} (clauses : matching.Agree catches others)
    {block other : Option Block} (blocks : matching.Agree block other)
    {left right : Span} (spans : matching.Agree left right) :
    Abreast matching (checkClauses catches block left) (checkClauses others other right) := by
  have report := Step.Abreast.report (View.error_agree .missingClause
    "try needs at least one catch or a finally clause" spans)
  rw [checkClauses, checkClauses]
  cases clauses <;> cases blocks
  all_goals first
    | exact report
    | exact .pure rfl

theorem tryStatement_steady : Steady matching (tryStatement parts) := by
  refine .bind (.keyword _) fun _ _ word => .bind (block_steady steady) fun _ _ body =>
    .bind (.whileAt (catchClause_steady steady) _) fun _ _ catches =>
      .bind (.ifBehind (block_steady steady) _) fun _ _ finallyBlock =>
        .bind (.spanFrom word.spans) fun _ _ spans =>
          .bind (checkClauses_abreast catches finallyBlock spans) fun _ _ _ => .pure ?_
  exact tryCatch_agree spans body catches finallyBlock

section Handlers

variable {found other : Handlers} (agree : matching.Agree found other)

include agree

theorem handler_abreast (isAborted : Bool) :
    Abreast matching (handler parts isAborted found) (handler parts isAborted other) := by
  refine .bind (.keyword _) fun _ _ word => .bind (block_steady steady) fun _ _ block => ?_
  rw [View.isSome_of_rel (handlers_get_agree agree isAborted), word.kind]
  refine .ite (.bind (.report (View.error_agree _ _ word.spans)) fun _ _ _ => .pure agree) ?_
  exact .pure (handlers_set_agree agree isAborted block)

theorem nextHandler_abreast :
    Abreast matching (nextHandler parts found) (nextHandler parts other) :=
  .seen (.check _) fun _ => .ite
    (.bind (handler_abreast steady agree true) fun _ _ agree => .pure (.yield agree)) <|
    .seen (.check _) fun _ => .ite
      (.bind (handler_abreast steady agree false) fun _ _ agree => .pure (.yield agree))
      (.pure (.done agree))

end Handlers

theorem handlers_steady : Steady matching (handlers parts) := by
  refine .loop (fun _ _ agree => nextHandler_abreast steady agree) ?_
  exact ⟨.none, .none⟩

theorem transactionStatement_steady : Steady matching (transactionStatement parts) := by
  refine .bind (.keyword _) fun _ _ word => .bind (block_steady steady) fun _ _ body =>
    .bind (handlers_steady steady) fun _ _ handlers => .bind (.spanFrom word.spans) fun _ _ spans =>
      .pure ?_
  exact transaction_agree spans body handlers

/-! ### Transform -/

theorem transformStatement_steady : Steady matching (transformStatement parts) := by
  refine .bind (.keyword _) fun _ _ word => .bind (steady.body _) fun _ _ body => .pure ?_
  exact transform_agree (matching.merge word.spans body.spans) (toBlock_agree body)

theorem transformVarDef_steady : Steady matching (transformVarDef parts) := by
  refine .bind steady.exprs.typeName fun _ _ type => .bind .expectIdentifier fun _ _ name =>
    .bind (.symbol _) fun _ _ _ => .bind (anyExpr_steady steady.exprs) fun _ _ init =>
      .bind .endStatement fun _ _ _ => .bind (.spanFrom type.spans) fun _ _ spans => .pure ?_
  exact varDefStmt_agree (varDef_agree spans name type (.some init))

theorem transformAssignment_steady : Steady matching (transformAssignment parts) := by
  refine .bind .peek fun _ _ first => .bind (references_steady steady.exprs) fun _ _ targets =>
    .bind (.symbol _) fun _ _ _ => .bind (anyExpr_steady steady.exprs) fun _ _ value =>
      .bind .endStatement fun _ _ _ => .bind (.spanFrom first.spans) fun _ _ spans => .pure ?_
  exact assign_agree spans value false targets

theorem transformItem_steady : Steady matching (transformItem parts) :=
  .seen (.check _) fun _ => .ite (transformStatement_steady steady) <|
    .seen .isVarDef fun _ => .ite (transformVarDef_steady steady) <|
      .seen (.check _) fun _ => .ite (transformAssignment_steady steady) notAStatement_steady

/-! ### Statements and bodies -/

omit steady in
theorem namespaceDecl_steady : Steady matching namespaceDecl := by
  refine .bind (.keyword _) fun _ _ word => .bind (.expect _) fun _ _ uri =>
    .bind (.ifBehind .expectIdentifier _) fun _ _ localName => .bind .endStatement fun _ _ _ =>
      .bind (.spanFrom word.spans) fun _ _ spans => .pure ?_
  rw [uri.lexeme]
  exact namespaceDecl_agree spans localName

theorem invocationStatement_steady : Steady matching (invocationStatement parts) := by
  refine .bind (invocation_steady steady.exprs) fun _ _ agree => .bind .endStatement fun _ _ _ =>
    .pure ?_
  obtain ⟨connector, action, list, spans⟩ := agree
  exact invoke_agree spans action list connector

theorem plainStatement_steady : Steady matching (plainStatement parts) :=
  .seen .isVarDef fun _ => .ite
    (.bind (varDef_steady steady) fun _ _ definitions => .pure (varDefStmt_agree definitions)) <|
    .seen .isInvocation fun _ => .ite (invocationStatement_steady steady)
      (exprStatement_steady steady)

theorem statementWith_steady : Steady matching (statementWith parts) := by
  refine .seen .current fun kind => ?_
  split
  · exact varAssignment_steady steady
  · exact ifStatement_steady steady
  · exact iterateStatement_steady steady
  · exact whileStatement_steady steady
  · exact wordStatement_steady _ fun _ _ => continueLoop_agree
  · exact wordStatement_steady _ fun _ _ => breakLoop_agree
  · exact wordStatement_steady _ fun _ _ => abort_agree
  · exact forkStatement_steady steady
  · exact tryStatement_steady steady
  · exact valueStatement_steady steady _ fun _ _ _ _ value spans => throw_agree spans value
  · exact returnStatement_steady steady
  · exact valueStatement_steady steady _ fun _ _ _ _ value spans => reply_agree spans value
  · exact transformStatement_steady steady
  · exact transactionStatement_steady steady
  · exact .bind namespaceDecl_steady fun _ _ declarations =>
      .pure (namespaceStmt_agree declarations)
  · exact plainStatement_steady steady

section Items

variable {items others : BodyItems} (agree : matching.Agree items others)

include agree

theorem bodyItem_abreast (kind : BodyKind) :
    Abreast matching (bodyItem parts kind items) (bodyItem parts kind others) :=
  .seen (.check _) fun _ => .ite
    (.ite
      (.bind (worker_steady steady) fun _ _ workers => .pure (addWorker_agree agree workers))
      (.bind .peek fun _ _ token => .fail (View.error_agree _ _ token.spans)))
    (.ite
      (.bind (transformItem_steady steady) fun _ _ statements =>
        .pure (addStatement_agree agree statements))
      (.bind (statementWith_steady steady) fun _ _ statements =>
        .pure (addStatement_agree agree statements)))

theorem nextBodyItem_abreast (kind : BodyKind) :
    Abreast matching (nextBodyItem parts kind items) (nextBodyItem parts kind others) := by
  refine .takeComments fun _ _ comments => ?_
  have agree := addComments_agree agree comments
  refine .seen .current fun _ => .ite (.pure (.done agree)) ?_
  refine .bind (.orRecover (bodyItem_abreast steady agree kind) (fun left right spans => ?_) _)
    fun _ _ agree => .pure (.yield agree)
  exact addStatement_agree agree (broken_agree spans)

end Items

theorem bodyItems_steady (kind : BodyKind) : Steady matching (bodyItems parts kind) := by
  refine .loop (fun _ _ agree => nextBodyItem_abreast steady agree kind) ?_
  exact ⟨rfl, .nil⟩

theorem bodyWith_steady (kind : BodyKind) : Steady matching (bodyWith parts kind) := by
  refine .bind (.symbol _) fun _ _ opening => .bind (bodyItems_steady steady kind) fun _ _ items =>
    .bind .closeBrace fun _ _ close => .bind (.spanFrom opening.spans) fun _ _ spans => .pure ?_
  exact body_agree items close spans

omit steady in
theorem body_steady (room : Nat) (kind : BodyKind) : Steady matching (body room kind) := by
  induction room generalizing kind with
  | zero => exact .tooDeep
  | succ room ih => exact bodyWith_steady ⟨within_areSteady room, ih⟩ kind

omit steady in
theorem stmtParts_areSteady (room : Nat) : (StmtParts.within room).AreSteady matching :=
  ⟨within_areSteady room, body_steady room⟩

end Parts

end ServiceLang.Grammar
