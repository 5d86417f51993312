import ServiceLang.Grammar.Stmt
import ServiceLang.Proofs.SpaciousExpr

set_option autoImplicit false

/-! Statements and bodies under different limits on nesting. A variable definition is told from
what else may start like it by a type that is read in either case. -/

namespace ServiceLang.Grammar

open Step

structure StmtParts.AreSpacious (room : Nat) (parts : StmtParts) : Prop where
  expr : parts.toExprParts.AreSpacious room
  body : ∀ kind, Spacious room (parts.body kind)

variable {room : Nat} {parts : StmtParts}

/-! ### Simple statements -/

section Simple

variable (exprs : parts.toExprParts.AreSpacious room)

include exprs

theorem varDef_spacious : Spacious room (varDef parts) :=
  .bind exprs.typeName fun _ => .bind .identifier fun _ =>
    .bind (.ifBehind (initializer_spacious exprs)) fun _ => .bind .endStatement fun _ =>
      .spanned _ _

theorem varAssignment_spacious : Spacious room (varAssignment parts) :=
  .bind (.keyword _) fun _ => .bind (references_spacious exprs) fun _ => .bind (.symbol _) fun _ =>
    .bind (initializer_spacious exprs) fun _ => .bind .endStatement fun _ => .spanned _ _

omit exprs in
theorem assignmentTargets_spacious (exprs : List Expr) :
    Spacious room (assignmentTargets exprs) := by
  unfold assignmentTargets
  split
  · exact .fail _
  · exact .pure _

theorem assignmentEnd_spacious (first : Expr) (others : List Expr) :
    Spacious room (assignmentEnd parts first others) :=
  .bind (assignmentTargets_spacious _) fun _ => .bind (.symbol _) fun _ =>
    .bind (initializer_spacious exprs) fun _ => .bind .endStatement fun _ => .spanned _ _

omit exprs in
theorem sendEnd_spacious (first : Expr) (others : List Expr) :
    Spacious room (sendEnd first others) := by
  have target : Spacious room sendTarget := by
    apply Spacious.bind (.eat? _)
    intro found
    cases found with
    | some word => exact .pure _
    | none => exact .mapped _ .identifier
  exact .bind (.symbol _) fun _ => .bind target fun _ => .bind .endStatement fun _ => .spanned _ _

omit exprs in
theorem receiveEnd_spacious (first : Expr) (others : List Expr) :
    Spacious room (receiveEnd first others) :=
  .bind (assignmentTargets_spacious _) fun _ => .bind (.symbol _) fun _ =>
    .bind .identifier fun _ => .bind .endStatement fun _ => .spanned _ _

omit exprs in
theorem callEnd_spacious (first : Expr) (others : List Expr) :
    Spacious room (callEnd first others) := by
  unfold callEnd
  split
  · exact .bind .endStatement fun _ => .pure _
  · exact .fail _

theorem exprStatement_spacious : Spacious room (exprStatement parts) := by
  have more : Spacious room (moreExpressions parts) :=
    .bind (.eat _) fun _ => .ite (expressions_spacious exprs) (.pure _)
  apply Spacious.bind .current
  intro kind
  apply Spacious.ite _ (.failAt _)
  apply Spacious.bind (exprs.expr 0)
  intro first
  apply Spacious.bind more
  intro others
  apply Spacious.bind .current
  intro next
  split
  · exact assignmentEnd_spacious exprs first others
  · exact sendEnd_spacious first others
  · exact receiveEnd_spacious first others
  · exact callEnd_spacious first others

omit exprs in
theorem wordStatement_spacious (word : Keyword) (make : Span → Stmt) :
    Spacious room (wordStatement word make) :=
  .bind (.keyword _) fun _ => .bind .endStatement fun _ => .spanned _ _

theorem valueStatement_spacious (word : Keyword) (make : Expr → Span → Stmt) :
    Spacious room (valueStatement parts word make) :=
  .bind (.keyword _) fun _ => .bind (exprs.expr 0) fun _ => .bind .endStatement fun _ =>
    .spanned _ _

theorem returnStatement_spacious : Spacious room (returnStatement parts) := by
  have values : Spacious room (returnValues parts) :=
    .bind .current fun _ => .ite (expressions_spacious exprs) (.pure _)
  exact .bind (.keyword _) fun _ => .bind values fun _ => .bind .endStatement fun _ =>
    .spanned _ _

omit exprs in
theorem namespaceDecl_spacious : Spacious room namespaceDecl :=
  .bind (.keyword _) fun _ => .bind (.expect _) fun _ => .bind (.ifBehind .identifier) fun _ =>
    .bind .endStatement fun _ => .spanned _ _

/-- Where a statement that no word announces is read, it is settled whether a type stands
here. -/
theorem settled_of_exprStatement {parser later : Parser} {statement : Stmt}
    (ran : exprStatement parts parser = .ok statement later) :
    Settled room parser.cursor.kinds := by
  rw [exprStatement, look_bind (current_eq parser)] at ran
  split at ran
  · obtain ⟨first, between, ranExpr, -⟩ := bind_ok ran
    exact exprs.exprSettles ranExpr
  · exact absurd ran failAt_ne_ok

omit exprs in
/-- What starts with a name nests no types. -/
theorem settled_of_identifier {parser : Parser} (here : parser.cursor.peek.kind = .identifier) :
    Settled room parser.cursor.kinds := by
  apply Settled.of_head
  rw [(head_kinds .identifier nofun).mpr here]
  nofun

theorem plainStatement_spacious : Spacious room (plainStatement parts) := by
  have invoke : Spacious room (invocationStatement parts) :=
    .bind (invocation_spacious exprs) fun _ => .bind .endStatement fun _ => .pure _
  apply Spacious.choose startsVarDef isVarDef_eq _ (.mapped _ (varDef_spacious exprs))
    (.bind .isInvocation fun _ => .ite invoke (exprStatement_spacious exprs))
  intro parser later value either look other more moreOther
  apply Settled.startsVarDef _ more moreOther
  rcases either with ran | ran
  · obtain ⟨_, _, ranVar, -⟩ := bind_ok ran
    obtain ⟨_, _, ranType, -⟩ := bind_ok ranVar
    exact exprs.typeSettles ranType
  · rw [look_bind (isInvocation_eq parser)] at ran
    split at ran
    · obtain ⟨_, _, ranCall, -⟩ := bind_ok ran
      obtain ⟨_, _, ranName, -⟩ := bind_ok ranCall
      obtain ⟨_, _, ranFirst, -⟩ := bind_ok ranName
      exact settled_of_identifier (expectIdentifier_ok ranFirst).1
    · exact settled_of_exprStatement exprs ran

end Simple

/-! ### Statements with bodies -/

variable (spacious : parts.AreSpacious room)

include spacious

theorem block_spacious_of_parts : Spacious room parts.block :=
  .mapped _ (spacious.body .block)

theorem ifStatement_spacious : Spacious room (ifStatement parts) := by
  have block := block_spacious_of_parts spacious
  have elseIf (word : Token) : Spacious room (elseIf parts word) :=
    .bind (condition_spacious spacious.expr) fun _ => .mapped _ block
  have branches : Spacious room (elseBranches parts) := by
    apply Spacious.loop
    intro found
    apply Spacious.bind (.eat? _)
    intro word
    cases word with
    | none => exact .pure _
    | some word => exact .bind (.eat _) fun _ => .ite (.mapped _ (elseIf word)) (.mapped _ block)
  exact .bind (.keyword _) fun _ => .bind (condition_spacious spacious.expr) fun _ =>
    .bind block fun _ => .bind branches fun _ => .spanned _ _

theorem iterateStatement_spacious : Spacious room (iterateStatement parts) :=
  .bind (.keyword _) fun _ => .bind (.symbol _) fun _ => .bind spacious.expr.typeName fun _ =>
    .bind .identifier fun _ => .bind (.symbol _) fun _ => .bind (spacious.expr.expr 0) fun _ =>
      .bind (.symbol _) fun _ => .mapped _ (block_spacious_of_parts spacious)

theorem whileStatement_spacious : Spacious room (whileStatement parts) :=
  .bind (.keyword _) fun _ => .bind (condition_spacious spacious.expr) fun _ =>
    .mapped _ (block_spacious_of_parts spacious)

theorem worker_spacious : Spacious room (worker parts) :=
  .bind (.keyword _) fun _ => .bind .identifier fun _ => .mapped _ (spacious.body _)

theorem clauseBinding_spacious : Spacious room (clauseBinding parts) :=
  .bind (.symbol _) fun _ => .bind spacious.expr.typeName fun _ => .bind .identifier fun _ =>
    .bind (.symbol _) fun _ => .pure _

omit spacious in
theorem bracketedCondition_spacious : Spacious room bracketedCondition := by
  have names : Spacious room workerNames :=
    .bind (.check _) fun _ => .ite (.commaSeparated .identifier) (.pure _)
  have first (word : Token) : Spacious room (firstOf word) := by
    apply Spacious.bind (.expect _)
    intro number
    split
    · exact .fail _
    · exact .bind names fun _ => .spanned _ _
  have condition : Spacious room joinCondition := by
    apply Spacious.bind .advance
    intro word
    split
    · exact first word
    · exact first word
    · exact .bind names fun _ => .spanned _ _
    · exact .fail _
  exact .bind .isJoinCondition fun _ => .ite
    (.bind (.symbol _) fun _ => .bind condition fun _ => .bind (.symbol _) fun _ => .pure _)
    (.pure _)

theorem forkStatement_spacious : Spacious room (forkStatement parts) := by
  have one : Spacious room (forkWorker parts) :=
    .bind (.check _) fun _ => .ite (worker_spacious spacious) (.bind .peek fun _ => .fail _)
  have workers : Spacious room (forkWorkers parts) :=
    .loop (fun _ => .bind .current fun _ => .ite (.pure _)
      (.mapped _ (.orRecover (.mapped _ one)))) []
  have join : Spacious room (joinClause parts) :=
    .bind (.keyword _) fun _ => .bind bracketedCondition_spacious fun _ =>
      .bind (clauseBinding_spacious spacious) fun _ =>
        .mapped _ (block_spacious_of_parts spacious)
  have timeout : Spacious room (timeoutClause parts) :=
    .bind (.keyword _) fun _ => .bind (condition_spacious spacious.expr) fun _ =>
      .bind (clauseBinding_spacious spacious) fun _ =>
        .mapped _ (block_spacious_of_parts spacious)
  exact .bind (.keyword _) fun _ => .bind (.symbol _) fun _ => .bind workers fun _ =>
    .bind .closeBrace fun _ => .bind (.ifAt join) fun _ => .bind (.ifAt timeout) fun _ =>
      .spanned _ _

theorem tryStatement_spacious : Spacious room (tryStatement parts) := by
  have catches : Spacious room (catchClause parts) :=
    .bind (.keyword _) fun _ => .bind (clauseBinding_spacious spacious) fun _ =>
      .mapped _ (block_spacious_of_parts spacious)
  exact .bind (.keyword _) fun _ => .bind (block_spacious_of_parts spacious) fun _ =>
    .bind (.whileAt catches) fun _ =>
      .bind (.ifBehind (block_spacious_of_parts spacious)) fun _ =>
        .bind (.spanFrom _) fun _ => .bind (.ite (.report _) (.pure _)) fun _ => .pure _

theorem transactionStatement_spacious : Spacious room (transactionStatement parts) := by
  have one (isAborted : Bool) (found : Handlers) :
      Spacious room (handler parts isAborted found) :=
    .bind (.keyword _) fun _ => .bind (block_spacious_of_parts spacious) fun _ =>
      .ite (.bind (.report _) fun _ => .pure _) (.pure _)
  have all : Spacious room (handlers parts) :=
    .loop (fun found => .bind (.check _) fun _ => .ite (.mapped _ (one true found)) <|
      .bind (.check _) fun _ => .ite (.mapped _ (one false found)) (.pure _)) _
  exact .bind (.keyword _) fun _ => .bind (block_spacious_of_parts spacious) fun _ =>
    .bind all fun _ => .spanned _ _

theorem transformStatement_spacious : Spacious room (transformStatement parts) :=
  .bind (.keyword _) fun _ => .mapped _ (spacious.body _)

theorem transformItem_spacious : Spacious room (transformItem parts) := by
  have variable_ : Spacious room (transformVarDef parts) :=
    .bind spacious.expr.typeName fun _ => .bind .identifier fun _ => .bind (.symbol _) fun _ =>
      .bind (spacious.expr.expr 0) fun _ => .bind .endStatement fun _ => .spanned _ _
  have assignment : Spacious room (transformAssignment parts) :=
    .bind .peek fun _ => .bind (references_spacious spacious.expr) fun _ =>
      .bind (.symbol _) fun _ => .bind (spacious.expr.expr 0) fun _ =>
        .bind .endStatement fun _ => .spanned _ _
  apply Spacious.bind (.check _)
  intro isTransform
  apply Spacious.ite (transformStatement_spacious spacious)
  apply Spacious.choose startsVarDef isVarDef_eq _ variable_
    (.bind (.check _) fun _ => .ite assignment (.failAt _))
  intro parser later value either look other more moreOther
  apply Settled.startsVarDef _ more moreOther
  rcases either with ran | ran
  · obtain ⟨_, _, ranType, -⟩ := bind_ok ran
    exact spacious.expr.typeSettles ranType
  · rw [look_bind (check_eq parser _)] at ran
    split at ran
    · exact settled_of_identifier (eq_of_beq ‹_›)
    · exact absurd ran failAt_ne_ok

/-! ### Bodies -/

theorem statementWith_spacious : Spacious room (statementWith parts) := by
  apply Spacious.bind .current
  intro kind
  split
  · exact varAssignment_spacious spacious.expr
  · exact ifStatement_spacious spacious
  · exact iterateStatement_spacious spacious
  · exact whileStatement_spacious spacious
  · exact wordStatement_spacious _ _
  · exact wordStatement_spacious _ _
  · exact wordStatement_spacious _ _
  · exact forkStatement_spacious spacious
  · exact tryStatement_spacious spacious
  · exact valueStatement_spacious spacious.expr _ _
  · exact returnStatement_spacious spacious.expr
  · exact valueStatement_spacious spacious.expr _ _
  · exact transformStatement_spacious spacious
  · exact transactionStatement_spacious spacious
  · exact .mapped _ namespaceDecl_spacious
  · exact plainStatement_spacious spacious.expr

theorem bodyWith_spacious (kind : BodyKind) : Spacious room (bodyWith parts kind) := by
  have item (items : BodyItems) : Spacious room (bodyItem parts kind items) :=
    .bind (.check _) fun _ => .ite
      (.ite (.mapped _ (worker_spacious spacious)) (.bind .peek fun _ => .fail _))
      (.ite (.mapped _ (transformItem_spacious spacious))
        (.mapped _ (statementWith_spacious spacious)))
  have items : Spacious room (bodyItems parts kind) :=
    .loop (fun _ => .bind .takeComments fun _ => .bind .current fun _ => .ite (.pure _)
      (.mapped _ (.orRecover (item _)))) _
  exact .bind (.symbol _) fun _ => .bind items fun _ => .bind .closeBrace fun _ => .spanned _ _

omit spacious in
/-- The rules with at most `room` levels left. -/
theorem StmtParts.within_areSpacious {levels : Nat} (within : levels ≤ room) :
    (StmtParts.within levels).AreSpacious room := by
  constructor
  · exact ExprParts.within_areSpacious within
  · induction levels with
    | zero => exact fun _ => .tooDeep
    | succ levels ih =>
        have smaller := Nat.le_of_succ_le within
        exact bodyWith_spacious ⟨ExprParts.within_areSpacious smaller, ih smaller⟩

omit spacious in
/-- A statement that is read without a word is read the same under every limit that leaves the
levels it is given. -/
theorem statement_spacious (room : Nat) : Spacious room (statement room) :=
  statementWith_spacious (StmtParts.within_areSpacious (Nat.le_refl room))

end ServiceLang.Grammar
