import ServiceLang.Grammar.Stmt
import ServiceLang.Proofs.OrderlyStmt
import ServiceLang.Proofs.StableExpr

set_option autoImplicit false

/-! Statements and bodies with other tokens behind. The parts of a statement take no
semicolon, as expressions do. A statement closes with its semicolon or with the brace of
its last body, unless something may go on behind that; a body closes with its brace. -/

namespace ServiceLang.Grammar

open Step

/-! ### Parts of statements -/

section Parts

variable {reach : Prop}

theorem assignmentTargets_stable (exprs : List Expr) :
    Stable reach none (assignmentTargets exprs) := by
  unfold assignmentTargets
  split
  · exact .fail _
  · exact .pure _

theorem sendTarget_strict : Strict sendTarget := by
  intro parser later target ran
  by_cases fork : parser.cursor.peek.kind = .keyword .forkKw
  · rw [sendTarget, bind_of_ok (eat?_of_kind fork)] at ran
    cases ran
    exact parser.remaining_advance (by rw [fork]; nofun)
  · rw [sendTarget, bind_of_ok (eat?_of_other fork)] at ran
    obtain ⟨name, between, ranName, ran⟩ := bind_ok ran
    cases ran
    exact Strict.expectIdentifier ranName

theorem sendTarget_stable : Stable reach none sendTarget := by
  refine .strictly sendTarget_strict (.bind (.eatInside? _ nofun nofun) fun found => ?_)
  cases found with
  | some word => exact .pure _
  | none => exact .mapped _ .identifier

theorem workerNames_stable : Stable reach none workerNames :=
  .bind (.check rfl) fun _ => .ite (.commaSeparated .identifier) (.pure _)

theorem firstOf_stable (word : Token) : Stable reach none (firstOf word) := by
  refine .bind (.expect _ nofun nofun) fun number => ?_
  split
  · exact .fail _
  · exact .bind workerNames_stable fun _ => .mapped _ (.spanFrom _)

theorem everyOf_stable (word : Token) : Stable reach none (everyOf word) :=
  .bind workerNames_stable fun _ => .mapped _ (.spanFrom _)

theorem joinCondition_stable : Stable reach none joinCondition := by
  refine .advanceThen (fun {token _ _ _} ran => ?_) fun token => ?_
  · constructor <;>
      · intro same
        simp only [same] at ran
        exact absurd ran fail_ne_ok
  · split
    · exact firstOf_stable _
    · exact firstOf_stable _
    · exact everyOf_stable _
    · exact .fail _

theorem bracketedCondition_stable : Stable reach none bracketedCondition :=
  .bind .isJoinCondition fun _ => .ite
    (.bind (.symbol _ nofun) fun _ => .bind joinCondition_stable fun _ => .opened (.mapped _ (.symbol _ nofun)))
    (.pure _)

variable {parts : StmtParts} (stable : parts.toExprParts.AreStable reach)

include stable

theorem moreExpressions_stable : Stable reach none (moreExpressions parts) :=
  .bind (.eat _ rfl nofun) fun _ => .ite (expressions_stable stable) (.pure _)

theorem returnValues_stable : Stable reach none (returnValues parts) := by
  refine .currentOr (pure []) (fun kind inert => ?_) fun _ =>
    .ite (expressions_stable stable) (.pure _)
  rw [Kind.startsOperand_of_isInert inert]
  rfl

theorem clauseBinding_stable : Stable reach (some [.rightParen]) (clauseBinding parts) :=
  .bind (.symbol _ nofun) fun _ => .bind stable.typeName fun _ => .bind .identifier fun _ =>
    .mapped _ (.symbol _ nofun)

end Parts

/-! ### Statements with a semicolon -/

structure StmtParts.AreStable (parts : StmtParts) : Prop where
  expr : parts.toExprParts.AreStable False
  body : ∀ kind, Stable False (some [.rightBrace]) (parts.body kind)

variable {parts : StmtParts} (stable : parts.AreStable)

section Simple

variable (exprs : parts.toExprParts.AreStable False)

include exprs

theorem varDef_stable : Stable False (some [.semicolon]) (varDef parts) :=
  .bind exprs.typeName fun _ => .bind .identifier fun _ =>
    .bind (.ifBehind rfl (by decide) (initializer_stable exprs)) fun _ => .spanned _ _ .endStatement

theorem varAssignment_stable : Stable False (some [.semicolon]) (varAssignment parts) :=
  .bind (.keyword _) fun _ => .bind (references_stable exprs) fun _ => .bind (.symbol _ nofun) fun _ =>
    .bind (initializer_stable exprs) fun _ => .spanned _ _ .endStatement

theorem assignmentEnd_stable (first : Expr) (others : List Expr) :
    Stable False (some [.semicolon]) (assignmentEnd parts first others) :=
  .bind (assignmentTargets_stable _) fun _ => .bind (.symbol _ nofun) fun _ =>
    .bind (initializer_stable exprs) fun _ => .spanned _ _ .endStatement

omit exprs in
theorem sendEnd_stable (first : Expr) (others : List Expr) :
    Stable False (some [.semicolon]) (sendEnd first others) :=
  .bind (.symbol _ nofun) fun _ => .bind sendTarget_stable fun _ => .spanned _ _ .endStatement

omit exprs in
theorem receiveEnd_stable (first : Expr) (others : List Expr) :
    Stable False (some [.semicolon]) (receiveEnd first others) :=
  .bind (assignmentTargets_stable _) fun _ => .bind (.symbol _ nofun) fun _ =>
    .bind .identifier fun _ => .spanned _ _ .endStatement

omit exprs in
theorem callEnd_stable (first : Expr) (others : List Expr) :
    Stable False (some [.semicolon]) (callEnd first others) := by
  unfold callEnd
  split
  · exact .mapped _ .endStatement
  · exact .fail _

theorem exprStatement_stable : Stable False (some [.semicolon]) (exprStatement parts) := by
  refine .bind .current fun _ => .ite ?_ (.failAt _)
  refine .bind (exprs.expr 0) fun first => .bind (moreExpressions_stable exprs) fun others => ?_
  refine .bind .current fun _ => ?_
  split
  · exact assignmentEnd_stable exprs first others
  · exact sendEnd_stable first others
  · exact receiveEnd_stable first others
  · exact callEnd_stable first others

omit exprs in
theorem wordStatement_stable (word : Keyword) (make : Span → Stmt) :
    Stable False (some [.semicolon]) (wordStatement word make) :=
  .bind (.keyword _) fun _ => .spanned _ _ .endStatement

theorem valueStatement_stable (word : Keyword) (make : Expr → Span → Stmt) :
    Stable False (some [.semicolon]) (valueStatement parts word make) :=
  .bind (.keyword _) fun _ => .bind (exprs.expr 0) fun _ => .spanned _ _ .endStatement

theorem returnStatement_stable : Stable False (some [.semicolon]) (returnStatement parts) :=
  .bind (.keyword _) fun _ => .bind (returnValues_stable exprs) fun _ =>
    .spanned _ _ .endStatement

omit exprs in
theorem namespaceDecl_stable : Stable False (some [.semicolon]) namespaceDecl :=
  .bind (.keyword _) fun _ => .bind (.expect _ nofun nofun) fun _ =>
    .bind (.ifBehind rfl (by decide) .identifier) fun _ => .spanned _ _ .endStatement

theorem invocationStatement_stable :
    Stable False (some [.semicolon]) (invocationStatement parts) :=
  .bind (invocation_stable exprs) fun _ => .mapped _ .endStatement

theorem plainStatement_stable : Stable False (some [.semicolon]) (plainStatement parts) :=
  .ofIsVarDef (.inr rfl) (.mapped _ (varDef_stable exprs)) <| .bind .isInvocation fun _ =>
    .ite (invocationStatement_stable exprs) (exprStatement_stable exprs)

end Simple

/-! ### Statements with bodies -/

include stable

theorem block_stable_of_parts : Stable False (some [.rightBrace]) parts.block :=
  .mapped _ (stable.body .block)

theorem elseBranches_stable : Stable False none (elseBranches parts) := by
  refine .loop (fun found => .bind (.eat? (.keyword .elseKw) rfl nofun) fun word => ?_) _
  cases word with
  | none => exact .pure _
  | some word =>
      have elseIf : Stable False none (elseIf parts word) :=
        .bind (condition_stable stable.expr) fun _ => .opened (.mapped _ (block_stable_of_parts stable))
      exact .bind (.eatAny _ nofun nofun) fun _ =>
        .ite (.mapped _ elseIf) (.opened (.mapped _ (block_stable_of_parts stable)))

theorem ifStatement_stable : Stable False none (ifStatement parts) :=
  .bind (.keyword _) fun _ => .bind (condition_stable stable.expr) fun _ =>
    .bind (block_stable_of_parts stable) fun _ => .bind (elseBranches_stable stable) fun _ =>
      .mapped _ (.spanFrom _)

theorem iterateStatement_stable : Stable False (some [.rightBrace]) (iterateStatement parts) :=
  .bind (.keyword _) fun _ => .bind (.symbol _ nofun) fun _ => .bind stable.expr.typeName fun _ =>
    .bind .identifier fun _ => .bind (.symbol _ nofun) fun _ => .bind (stable.expr.expr 0) fun _ =>
      .bind (.symbol _ nofun) fun _ => .mapped _ (block_stable_of_parts stable)

theorem whileStatement_stable : Stable False (some [.rightBrace]) (whileStatement parts) :=
  .bind (.keyword _) fun _ => .bind (condition_stable stable.expr) fun _ =>
    .mapped _ (block_stable_of_parts stable)

theorem worker_stable : Stable False (some [.rightBrace]) (worker parts) :=
  .bind (.keyword _) fun _ => .bind .identifier fun _ => .mapped _ (stable.body _)

theorem forkWorkers_stable : Stable False none (forkWorkers parts) := by
  have one : Stable False none (forkWorker parts) :=
    .bind (.checkAny _) fun _ => .ite (.opened (worker_stable stable)) (.bind .peek fun _ => .fail _)
  exact .loop (fun workers => .bind .current fun _ => .ite (.pure _)
    (.mapped _ (.orRecover (.mapped _ one)))) []

theorem forkStatement_stable : Stable False none (forkStatement parts) := by
  have join : Stable False (some [.rightBrace]) (joinClause parts) :=
    .bind (.keyword _) fun _ => .bind bracketedCondition_stable fun _ =>
      .bind (clauseBinding_stable stable.expr) fun _ => .mapped _ (block_stable_of_parts stable)
  have timeout : Stable False (some [.rightBrace]) (timeoutClause parts) :=
    .bind (.keyword _) fun _ => .bind (condition_stable stable.expr) fun _ =>
      .bind (clauseBinding_stable stable.expr) fun _ => .mapped _ (block_stable_of_parts stable)
  exact .bind (.keyword _) fun _ => .bind (.symbol _ nofun) fun _ =>
    .bind (forkWorkers_stable stable) fun _ => .bind .closeBrace fun _ =>
      .bind (.ifAt rfl join) fun _ => .bind (.ifAt rfl timeout) fun _ => .mapped _ (.spanFrom _)

theorem tryStatement_stable : Stable False none (tryStatement parts) := by
  have catch_ : Stable False (some [.rightBrace]) (catchClause parts) :=
    .bind (.keyword _) fun _ => .bind (clauseBinding_stable stable.expr) fun _ =>
      .mapped _ (block_stable_of_parts stable)
  exact .bind (.keyword _) fun _ => .bind (block_stable_of_parts stable) fun _ =>
    .bind (.whileAt rfl catch_) fun _ =>
      .bind (.ifBehind rfl (by decide) (block_stable_of_parts stable)) fun _ =>
        .bind (.spanFrom _) fun _ => .mapped _ (.ite (.report _) (.pure _))

theorem handlers_stable : Stable False none (handlers parts) := by
  have twice (diagnostic : Diagnostic) : Stable False none (report diagnostic) := .report _
  have one (isAborted : Bool) (found : Handlers) :
      Stable False none (handler parts isAborted found) :=
    .bind (.keyword _) fun _ => .bind (block_stable_of_parts stable) fun _ =>
      .ite (.bind (twice _) fun _ => .pure _) (.pure _)
  exact .loop (fun found => .bind (.check rfl) fun _ => .ite (.mapped _ (one true found)) <|
    .bind (.check rfl) fun _ => .ite (.mapped _ (one false found)) (.pure _)) _

theorem transactionStatement_stable : Stable False none (transactionStatement parts) :=
  .bind (.keyword _) fun _ => .bind (block_stable_of_parts stable) fun _ =>
    .bind (handlers_stable stable) fun _ => .mapped _ (.spanFrom _)

theorem transformStatement_stable :
    Stable False (some [.rightBrace]) (transformStatement parts) :=
  .bind (.keyword _) fun _ => .mapped _ (stable.body _)

theorem transformItem_stable : Stable False none (transformItem parts) := by
  have variable_ : Stable False (some [.semicolon]) (transformVarDef parts) :=
    .bind stable.expr.typeName fun _ => .bind .identifier fun _ => .bind (.symbol _ nofun) fun _ =>
      .bind (stable.expr.expr 0) fun _ => .spanned _ _ .endStatement
  have assignment : Stable False (some [.semicolon]) (transformAssignment parts) :=
    .bind .peek fun _ => .bind (references_stable stable.expr) fun _ => .bind (.symbol _ nofun) fun _ =>
      .bind (stable.expr.expr 0) fun _ => .spanned _ _ .endStatement
  have unannounced : Stable False (some [.semicolon]) (do
      if ← isVarDef then transformVarDef parts
      else if ← check .identifier then transformAssignment parts
      else notAStatement) :=
    .ofIsVarDef (.inr rfl) variable_ (.bind (.checkAny _) fun _ => .ite assignment (.failAt _))
  exact .bind (.checkAny _) fun _ =>
    .ite (.opened (transformStatement_stable stable)) (.opened unannounced)

/-! ### Bodies -/

theorem statementWith_stable : Stable False none (statementWith parts) := by
  refine .bind .current fun kind => ?_
  split
  · exact .opened (varAssignment_stable stable.expr)
  · exact ifStatement_stable stable
  · exact .opened (iterateStatement_stable stable)
  · exact .opened (whileStatement_stable stable)
  · exact .opened (wordStatement_stable _ _)
  · exact .opened (wordStatement_stable _ _)
  · exact .opened (wordStatement_stable _ _)
  · exact forkStatement_stable stable
  · exact tryStatement_stable stable
  · exact .opened (valueStatement_stable stable.expr _ _)
  · exact .opened (returnStatement_stable stable.expr)
  · exact .opened (valueStatement_stable stable.expr _ _)
  · exact .opened (transformStatement_stable stable)
  · exact transactionStatement_stable stable
  · exact .opened (.mapped _ namespaceDecl_stable)
  · exact .opened (plainStatement_stable stable.expr)

theorem bodyItem_stable (kind : BodyKind) (items : BodyItems) :
    Stable False none (bodyItem parts kind items) :=
  .bind (.checkAny _) fun _ => .ite
    (.ite (.opened (.mapped _ (worker_stable stable))) (.bind .peek fun _ => .fail _))
    (.ite (.mapped _ (transformItem_stable stable)) (.mapped _ (statementWith_stable stable)))

theorem bodyWith_stable (kind : BodyKind) :
    Stable False (some [.rightBrace]) (bodyWith parts kind) := by
  have items : Stable False none (bodyItems parts kind) :=
    .loop (fun items => .bind .takeComments fun _ => .bind .current fun _ => .ite (.pure _)
      (.mapped _ (.orRecover (bodyItem_stable stable kind _)))) _
  exact .bind (.symbol _ nofun) fun _ => .bind items fun _ => .thenStays .closeBrace fun _ => .spanned _ _

omit stable in
theorem StmtParts.within_areStable (room : Nat) : (StmtParts.within room).AreStable := by
  refine ⟨ExprParts.within_areStable room, ?_⟩
  induction room with
  | zero => exact fun _ => .tooDeep
  | succ room ih => exact bodyWith_stable ⟨ExprParts.within_areStable room, ih⟩

omit stable in
theorem body_stable (room : Nat) (kind : BodyKind) :
    Stable False (some [.rightBrace]) (body room kind) :=
  (StmtParts.within_areStable room).body kind

omit stable in
theorem block_stable (room : Nat) : Stable False (some [.rightBrace]) (block room) :=
  .mapped _ (body_stable room .block)

end ServiceLang.Grammar
