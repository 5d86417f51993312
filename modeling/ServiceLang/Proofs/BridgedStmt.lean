import ServiceLang.Proofs.Bridged
import ServiceLang.Proofs.OrderlyStmt
import ServiceLang.Proofs.StableStmt

set_option autoImplicit false

/-! The rules for statements and bodies bridge a gap. A statement ends with its semicolon or
with an assumed one, and a body with its brace or with an assumed one, so that both sides hold
the same statements. -/

namespace ServiceLang.Grammar

open Step
open Gap (Side)

variable {gap : Gap} {start : Side}

structure StmtParts.AreBridging (gap : Gap) (parts : StmtParts) : Prop where
  stable : parts.toExprParts.AreStable True
  steady : ∀ matching, parts.toExprParts.AreSteady matching
  eager : parts.AreEager fun _ => True
  /-- An expression that starts with the word of a type starts with a type. -/
  typed : ∀ {parser later : Parser} {value : Expr} {word : Keyword},
    parser.cursor.peek.kind = .keyword word →
    word ∈ ([.mapKw, .xmlKw, .xmlDocumentKw, .jsonKw] : List Keyword) →
    parts.anyExpr parser = .ok value later → ∃ look, skipType? look parser.cursor.kinds ≠ none
  body : ∀ kind start, Bridges gap start .among (parts.body kind)
  opens : ∀ kind, Blocks gap (parts.body kind)

section Parts

variable {parts : StmtParts} (bridging : parts.AreBridging gap)

include bridging

theorem block_bridges : Bridges gap start .among parts.block :=
  .bind (bridging.body _ _) fun _ _ bodies => .pure (toBlock_agree bodies)

/-! ### Variables and assignments -/

theorem initial_stable : Stable True none (ifBehind (.symbol .equal) (initializer parts.toExprParts)) :=
  .ifBehind rfl (by decide) (initializer_stable bridging.stable)

theorem varDef_bridges : Bridges gap .inside .edge (varDef parts) := by
  refine .inside ?_
  refine .stableThen bridging.stable.typeName (fun matching => (bridging.steady matching).typeName)
    (fun _ => .bind .identifier) fun _ _ types => .bind .identifier fun _ _ names => ?_
  refine .stableEnded (initial_stable bridging)
    (fun matching => .ifBehind (initializer_steady (bridging.steady matching)) _) fun _ _ inits => ?_
  exact .bind (.spanFrom _ _) fun _ _ spans => .pure (varDef_agree spans names types inits)

theorem varAssignment_bridges : Bridges gap start .edge (varAssignment parts) := by
  refine .bind (.keyword _) fun _ _ words => .stableThen (references_stable bridging.stable)
    (fun matching => references_steady (bridging.steady matching)) (fun _ => .bind (.symbol _ (by decide)))
    fun _ _ targets => .bind (.symbol _ (by decide)) fun _ _ _ => ?_
  refine .stableEnded (initializer_stable bridging.stable)
    (fun matching => initializer_steady (bridging.steady matching)) fun _ _ values => ?_
  exact .bind (.spanFrom _ _) fun _ _ spans => .pure (assign_agree spans values true targets)

section Ends

variable {first second : Expr} (exprs : gap.view.Agree first second)
variable {others rest : List Expr} (lists : gap.view.Agree others rest)

omit bridging in
theorem assignmentTargets_bridged {left right : List Expr} (exprs : gap.view.Agree left right) :
    Bridged gap start start (assignmentTargets left) (assignmentTargets right) := by
  have bad := notAssignable_agree exprs
  rw [assignmentTargets, assignmentTargets]
  revert bad
  generalize List.find? _ left = here, List.find? _ right = there
  rintro (expr | _)
  · exact .fail _
  · exact .pure (references_agree exprs)

include exprs lists

theorem assignmentEnd_bridged :
    Bridged gap start .edge (assignmentEnd parts first others)
      (assignmentEnd parts second rest) := by
  refine .bind (assignmentTargets_bridged (.cons exprs lists)) fun _ _ targets =>
    .bind (.symbol _ (by decide)) fun _ _ _ => ?_
  refine .stableEnded (initializer_stable bridging.stable)
    (fun matching => initializer_steady (bridging.steady matching)) fun _ _ values => ?_
  exact .bind (.spanFrom _ _) fun _ _ spans => .pure (assign_agree spans values false targets)

omit bridging in
theorem sendEnd_bridged : Bridged gap start .edge (sendEnd first others) (sendEnd second rest) := by
  refine .bind (.symbol _ (by decide)) fun _ _ _ =>
    .stableEnded sendTarget_stable (fun _ => sendTarget_steady) fun _ _ targets => ?_
  exact .bind (.spanFrom _ _) fun _ _ spans => .pure (send_agree spans (.cons exprs lists) targets)

omit bridging in
theorem receiveEnd_bridged :
    Bridged gap start .edge (receiveEnd first others) (receiveEnd second rest) := by
  refine .bind (assignmentTargets_bridged (.cons exprs lists)) fun _ _ _ =>
    .bind (.symbol _ (by decide)) fun _ _ _ => .bind .identifier fun _ _ names => .ended ?_
  exact .bind (.spanFrom _ _) fun _ _ spans => .pure (receive_agree spans names (.cons exprs lists))

omit bridging in
theorem callEnd_bridged : Bridged gap start .edge (callEnd first others) (callEnd second rest) := by
  obtain ⟨same, spans⟩ := exprs
  cases lists with
  | cons => cases first <;> cases second <;> exact .fail _
  | nil =>
      cases first <;> cases second <;>
        simp only [Expr.placedBy, Expr.call.injEq, reduceCtorEq] at same
      case call.call =>
        refine .ended (.pure ⟨?_, spans⟩)
        simp only [Expr.allPlacedBy_eq_map] at same
        simp only [Stmt.placedBy, same]
      all_goals exact .fail _

theorem exprStatementEnd_bridged :
    Bridged gap start .edge (exprStatementEnd parts first others)
      (exprStatementEnd parts second rest) := by
  refine .currentOr (callEnd first others) (callEnd second rest) (fun kind rests => ?_) fun kind => ?_
  · cases kind with
    | symbol sign =>
        cases sign <;> first | exact ⟨rfl, rfl⟩ | exact rests.elim nofun nofun
    | _ => exact ⟨rfl, rfl⟩
  · split
    · exact assignmentEnd_bridged bridging exprs lists
    · exact sendEnd_bridged exprs lists
    · exact receiveEnd_bridged exprs lists
    · exact callEnd_bridged exprs lists

end Ends

omit bridging in
theorem not_clean_of_exprStatementEnd {first : Expr} {others : List Expr} {parser later : Parser}
    {value : Stmt}
    (here : parser.cursor.peek.kind = .symbol .rightBrace ∨ parser.cursor.peek.kind = .endOfFile)
    (ran : exprStatementEnd parts first others parser = .ok value later) : ¬later.Clean := by
  have called : callEnd first others parser = .ok value later := by
    rw [exprStatementEnd, look_bind (current_eq parser)] at ran
    rcases here with here | here <;>
      · rw [here] at ran
        exact ran
  intro clean
  unfold callEnd at called
  split at called
  · obtain ⟨marker, between, ranEnd, same⟩ := bind_ok called
    cases same
    have semicolon := StableFrom.semicolon_of_endStatement ranEnd clean
    rcases here with here | here <;>
      · rw [semicolon] at here
        cases here
  · exact fail_ne_ok called

theorem exprStatement_bridges : Bridges gap .inside .edge (exprStatement parts) := by
  refine .current fun _ => .ite ?_ (.failAt _)
  refine .inside ?_
  -- The expressions are one piece, which the right side reads just as the left one.
  have regroup (parser : Parser) : (do
        let first ← parts.anyExpr
        let others ← moreExpressions parts
        exprStatementEnd parts first others : Step Stmt) parser = ((do
        let first ← parts.anyExpr
        let others ← moreExpressions parts
        return (first, others) : Step (Expr × List Expr)) >>= fun pair =>
          exprStatementEnd parts pair.1 pair.2) parser := by
    simp only [bind_assoc, pure_bind]
  refine .of_eq ?_ regroup regroup
  refine .bindStable (?_ : Stable True none _) (fun matching => ?_) (fun _ _ agree => ?_) ?_
  · exact .bind (bridging.stable.expr 0) fun _ => .mapped _ (moreExpressions_stable bridging.stable)
  · exact .bind (anyExpr_steady (bridging.steady matching)) fun _ _ first =>
      .bind (.bind (.eat _) fun _ _ same => by
        cases same
        exact .ite (expressions_steady (bridging.steady matching)) (.pure .nil)) fun _ _ others =>
          .pure ⟨first, others⟩
  · exact exprStatementEnd_bridged bridging agree.1 agree.2
  · intro braces pair parser later value stops ran
    rw [Gap.Stops, braces.isSign] at stops
    exact not_clean_of_exprStatementEnd stops ran

/-! ### Control flow -/

omit bridging in
theorem wordStatement_bridges (word : Keyword) {make : Span → Stmt}
    (makes : ∀ left right, gap.view.Agree left right → gap.view.Agree (make left) (make right)) :
    Bridges gap start .edge (wordStatement word make) :=
  .bind (.keyword _) fun _ _ _ => .ended <| .bind (.spanFrom _ _) fun _ _ spans =>
    .pure (makes _ _ spans)

theorem valueStatement_bridges (word : Keyword) {make : Expr → Span → Stmt}
    (makes : ∀ left right span other, gap.view.Agree left right → gap.view.Agree span other →
      gap.view.Agree (make left span) (make right other)) :
    Bridges gap start .edge (valueStatement parts word make) :=
  .bind (.keyword _) fun _ _ _ => .stableEnded (bridging.stable.expr 0)
    (fun matching => anyExpr_steady (bridging.steady matching)) fun _ _ values =>
      .bind (.spanFrom _ _) fun _ _ spans => .pure (makes _ _ _ _ values spans)

theorem returnStatement_bridges : Bridges gap start .edge (returnStatement parts) := by
  refine .bind (.keyword _) fun _ _ _ => .stableEnded (returnValues_stable bridging.stable)
    (fun matching => ?_) fun _ _ values => .bind (.spanFrom _ _) fun _ _ spans =>
      .pure (returns_agree spans values)
  exact .seen .current fun _ => .ite (expressions_steady (bridging.steady matching)) (.pure .nil)

theorem condition_bridges : Bridges gap start .edge (condition parts.toExprParts) :=
  .anywhere (.bind (.symbol _ (by decide))) <| .inside <|
    .closed (condition_stable bridging.stable)
      (fun matching => condition_steady (bridging.steady matching)) (by decide)

theorem elseIf_bridged {left right : Token} (words : gap.view.Agree left right) :
    Bridged gap start .among (elseIf parts left) (elseIf parts right) :=
  .bind (condition_bridges bridging) fun _ _ conditions =>
    .bind (block_bridges bridging) fun _ _ blocks =>
      .pure (elseIf_agree (gap.view.merge words.spans blocks.spans) conditions blocks)

theorem nextBranch_bridged {found other : List ElseIf × Option Block}
    (agree : gap.view.Agree found other) :
    Bridged gap .among .among (nextBranch parts found) (nextBranch parts other) := by
  refine .bind (.eat? _ rfl nofun) fun _ _ words => ?_
  cases words with
  | none => exact .pure (.done agree)
  | some words =>
      refine .anywhere (.eat (.bind (.bind (bridging.opens _))) (by simp))
        (.bind (.eatInside _ (by simp)) fun _ _ same => ?_)
      cases same
      exact .ite
        (.bind (elseIf_bridged bridging words) fun _ _ branches =>
          .pure (.yield ⟨List.rel_append agree.1 (.cons branches .nil), agree.2⟩))
        (.bind (block_bridges bridging) fun _ _ blocks => .pure (.done ⟨agree.1, .some blocks⟩))

theorem elseBranches_bridges : Bridges gap .among .among (elseBranches parts) :=
  .loop (advancing_of_turn (nextBranch_turn bridging.eager))
    (fun _ _ agree => nextBranch_bridged bridging agree) ⟨.nil, .none⟩

theorem ifStatement_bridges : Bridges gap start .among (ifStatement parts) :=
  .bind (.keyword _) fun _ _ _ => .bind (condition_bridges bridging) fun _ _ conditions =>
    .bind (block_bridges bridging) fun _ _ blocks => .bind (elseBranches_bridges bridging) fun _ _ more =>
      .bind (.spanFrom _ _) fun _ _ spans => .pure (ifElse_agree spans conditions blocks more.1 more.2)

theorem iterateStatement_bridges : Bridges gap start .among (iterateStatement parts) :=
  .bind (.keyword _) fun _ _ words => .bind (.symbol _ (by decide)) fun _ _ _ =>
    .stableThen bridging.stable.typeName (fun matching => (bridging.steady matching).typeName)
      (fun _ => .bind .identifier) fun _ _ types => .bind .identifier fun _ _ names =>
        .bind (.symbol _ (by decide)) fun _ _ _ => .stableThen (bridging.stable.expr 0)
          (fun matching => anyExpr_steady (bridging.steady matching)) (fun _ => .bind (.symbol _ (by decide)))
          fun _ _ collections => .bind (.symbol _ (by decide)) fun _ _ _ =>
            .bind (block_bridges bridging) fun _ _ bodies =>
              .pure (iterate_agree (gap.view.merge words.spans bodies.spans) names types collections
                bodies)

theorem whileStatement_bridges : Bridges gap start .among (whileStatement parts) :=
  .bind (.keyword _) fun _ _ words => .bind (condition_bridges bridging) fun _ _ conditions =>
    .bind (block_bridges bridging) fun _ _ bodies =>
      .pure (whileLoop_agree (gap.view.merge words.spans bodies.spans) conditions bodies)

/-! ### Workers, forks and joins -/

theorem worker_bridges : Bridges gap start .among (worker parts) :=
  .bind (.keyword _) fun _ _ words => .bind .identifier fun _ _ names =>
    .bind (bridging.body _ _) fun _ _ bodies =>
      .pure (worker_agree (gap.view.merge words.spans bodies.spans) names bodies)

theorem forkWorker_bridges : Bridges gap .inside .among (forkWorker parts) :=
  .checkInside fun _ => .ite (worker_bridges bridging) (.peek fun _ _ => .fail _)

omit bridging in
theorem untilBody_bridged {α : Type} [Matchable α] {done finished onward another : Step α}
    (finishes : Bridged gap .among .among done finished) (astray : Astray gap onward)
    (goes : Bridged gap .inside .among onward another) :
    Bridged gap .among .among (do if endsBody (← current) then done else onward)
      (do if endsBody (← current) then finished else another) := by
  refine .until_ (fun parser => endsBody parser.cursor.peek.kind)
    (fun parser => look_bind (current_eq parser)) (fun parser => look_bind (current_eq parser))
    (fun across => congrArg endsBody across.kind_peek) (fun here => ?_) (fun here => ?_)
    (fun braces atOther => ?_) finishes astray goes
  · rw [here]
    rfl
  · rcases here with here | here <;>
      · rw [here]
        rfl
  · rw [atOther.peek, endsBody, braces.starts, Bool.true_or]

theorem nextForkWorker_bridged {workers others : List Worker} (agree : gap.view.Agree workers others) :
    Bridged gap .among .among (nextForkWorker parts workers) (nextForkWorker parts others) := by
  have blocks : Blocks gap (do return workers ++ [← forkWorker parts]) :=
    .bind (.check (.peek fun _ => .fail _) (by simp))
  have bridged : Bridged gap .inside .among (do return workers ++ [← forkWorker parts])
      (do return others ++ [← forkWorker parts]) :=
    .bind (forkWorker_bridges bridging) fun _ _ found =>
      .pure (List.rel_append agree (.cons found .nil))
  exact untilBody_bridged (.pure (.done agree)) (.recovered blocks)
    (.bind (.orRecover bridged) fun _ _ found => .pure (.yield found))

theorem forkWorkers_bridges : Bridges gap .among .among (forkWorkers parts) :=
  .loop (advancing_of_turn (nextForkWorker_turn bridging.eager))
    (fun _ _ agree => nextForkWorker_bridged bridging agree) .nil

theorem clauseBinding_bridges : Bridges gap start .edge (clauseBinding parts) :=
  .anywhere (.bind (.symbol _ (by decide))) <| .inside <|
    .closed (clauseBinding_stable bridging.stable) (fun matching =>
      .bind (.symbol _) fun _ _ _ => .bind (bridging.steady matching).typeName fun _ _ type =>
        .bind .expectIdentifier fun _ _ name => .bind (.symbol _) fun _ _ _ => .pure ⟨type, name⟩)
      (by decide)

theorem joinClause_bridges : Bridges gap start .among (joinClause parts) :=
  .bind (.keyword _) fun _ _ words => .stableThen bracketedCondition_stable
    (fun _ => bracketedCondition_steady) (fun _ => .bind (.bind (.symbol _ (by decide)))) fun _ _ conditions =>
      .bind (clauseBinding_bridges bridging) fun _ _ bindings =>
        .bind (block_bridges bridging) fun _ _ bodies =>
          .pure (join_agree (gap.view.merge words.spans bodies.spans) bindings.2 bindings.1 bodies
            conditions)

theorem timeoutClause_bridges : Bridges gap start .among (timeoutClause parts) :=
  .bind (.keyword _) fun _ _ words => .bind (condition_bridges bridging) fun _ _ timeouts =>
    .bind (clauseBinding_bridges bridging) fun _ _ bindings =>
      .bind (block_bridges bridging) fun _ _ bodies =>
        .pure (timeout_agree (gap.view.merge words.spans bodies.spans) bindings.2 bindings.1 timeouts
          bodies)

theorem forkStatement_bridges : Bridges gap start .among (forkStatement parts) :=
  .bind (.keyword _) fun _ _ _ => .bind (.loosely (.symbol _ (by decide))) fun _ _ _ =>
    .bind (forkWorkers_bridges bridging) fun _ _ workers => .bind .closeBrace fun _ _ _ =>
      .bind (.ifAt (joinClause_bridges bridging) rfl (by decide)) fun _ _ joins =>
        .bind (.ifAt (timeoutClause_bridges bridging) rfl (by decide)) fun _ _ timeouts =>
          .bind (.spanFrom _ _) fun _ _ spans => .pure (forkJoin_agree spans workers joins timeouts)

/-! ### Try and transaction -/

theorem catchClause_bridges : Bridges gap start .among (catchClause parts) :=
  .bind (.keyword _) fun _ _ words => .bind (clauseBinding_bridges bridging) fun _ _ bindings =>
    .bind (block_bridges bridging) fun _ _ bodies =>
      .pure (catch_agree (gap.view.merge words.spans bodies.spans) bindings.2 bindings.1 bodies)

omit bridging in
theorem checkClauses_bridged {catches others : List Catch} (clauses : gap.view.Agree catches others)
    {block other : Option Block} (blocks : gap.view.Agree block other) {left right : Span} :
    Bridged gap start start (checkClauses catches block left) (checkClauses others other right) := by
  rw [checkClauses, checkClauses]
  cases clauses <;> cases blocks
  all_goals first
    | exact .report _
    | exact .pure rfl

theorem tryStatement_bridges : Bridges gap start .among (tryStatement parts) :=
  .bind (.keyword _) fun _ _ _ => .bind (block_bridges bridging) fun _ _ bodies =>
    .bind (.whileAt (catchClause_bridges bridging)
      (advancing_of_turn (.nextAt (catchClause_eager bridging.eager))) rfl (by decide))
      fun _ _ catches =>
        .bind (.ifBehind (block_bridges bridging) rfl (by decide)) fun _ _ finallyBlocks =>
          .bind (.spanFrom _ _) fun _ _ spans =>
            .bind (checkClauses_bridged catches finallyBlocks) fun _ _ _ =>
              .pure (tryCatch_agree spans bodies catches finallyBlocks)

section Handlers

variable {found other : Handlers} (agree : gap.view.Agree found other)

include agree

theorem handler_bridged (isAborted : Bool) :
    Bridged gap start .among (handler parts isAborted found) (handler parts isAborted other) := by
  refine .bind (.keyword _) fun _ _ words => .bind (block_bridges bridging) fun _ _ blocks => ?_
  rw [View.isSome_of_rel (handlers_get_agree agree isAborted), words.kind]
  exact .ite (.bind (.report _) fun _ _ _ => .pure agree)
    (.pure (handlers_set_agree agree isAborted blocks))

theorem nextHandler_bridged :
    Bridged gap .among .among (nextHandler parts found) (nextHandler parts other) :=
  .check (fun _ => .ite
    (.bind (handler_bridged bridging agree true) fun _ _ agree => .pure (.yield agree)) <|
    .check (fun _ => .ite
      (.bind (handler_bridged bridging agree false) fun _ _ agree => .pure (.yield agree))
      (.pure (.done agree))) rfl nofun) rfl nofun

end Handlers

theorem handlers_bridges : Bridges gap .among .among (handlers parts) :=
  .loop (advancing_of_turn (nextHandler_turn bridging.eager))
    (fun _ _ agree => nextHandler_bridged bridging agree) ⟨.none, .none⟩

theorem transactionStatement_bridges : Bridges gap start .among (transactionStatement parts) :=
  .bind (.keyword _) fun _ _ _ => .bind (block_bridges bridging) fun _ _ bodies =>
    .bind (handlers_bridges bridging) fun _ _ handlers => .bind (.spanFrom _ _) fun _ _ spans =>
      .pure (transaction_agree spans bodies handlers)

/-! ### Transform -/

theorem transformStatement_bridges : Bridges gap start .among (transformStatement parts) :=
  .bind (.keyword _) fun _ _ words => .bind (bridging.body _ _) fun _ _ bodies =>
    .pure (transform_agree (gap.view.merge words.spans bodies.spans) (toBlock_agree bodies))

theorem transformVarDef_bridges : Bridges gap .inside .edge (transformVarDef parts) := by
  refine .inside (.stableThen bridging.stable.typeName
    (fun matching => (bridging.steady matching).typeName) (fun _ => .bind .identifier)
    fun _ _ types => .bind .identifier fun _ _ names => .bind (.symbol _ (by decide)) fun _ _ _ => ?_)
  refine .stableEnded (bridging.stable.expr 0)
    (fun matching => anyExpr_steady (bridging.steady matching)) fun _ _ inits => ?_
  exact .bind (.spanFrom _ _) fun _ _ spans =>
    .pure (varDefStmt_agree (varDef_agree spans names types (.some inits)))

theorem transformAssignment_bridges : Bridges gap .inside .edge (transformAssignment parts) := by
  refine .inside (.peek fun _ _ => .stableThen (references_stable bridging.stable)
    (fun matching => references_steady (bridging.steady matching)) (fun _ => .bind (.symbol _ (by decide)))
    fun _ _ targets => .bind (.symbol _ (by decide)) fun _ _ _ => ?_)
  refine .stableEnded (bridging.stable.expr 0)
    (fun matching => anyExpr_steady (bridging.steady matching)) fun _ _ values => ?_
  exact .bind (.spanFrom _ _) fun _ _ spans => .pure (assign_agree spans values false targets)

theorem transformItem_bridges : Bridges gap .inside .among (transformItem parts) := by
  refine .checkInside fun _ => .ite (transformStatement_bridges bridging) ?_
  refine .isVarDef (.loosely (transformVarDef_bridges bridging))
    (.checkInside fun _ => .ite (.loosely (transformAssignment_bridges bridging)) (.failAt _)) ?_
  intro parser later value word here _ _ ran
  rw [look_bind (check_eq parser _), here, if_neg (by simp)] at ran
  exact failAt_ne_ok ran

omit bridging in
theorem transformItem_blocks : Blocks gap (transformItem parts) :=
  .check (.isVarDef (.check (.failAt _) (by simp))) (by simp)

/-! ### Statements and bodies -/

omit bridging in
theorem namespaceDecl_bridges : Bridges gap start .edge namespaceDecl := by
  refine .bind (.keyword _) fun _ _ _ => .bind (.expect _ (by decide)) fun _ _ uris => ?_
  refine .stableEnded (.ifBehind rfl (by decide) .identifier)
    (fun _ => .ifBehind .expectIdentifier _) fun _ _ names => ?_
  rw [uris.lexeme]
  exact .bind (.spanFrom _ _) fun _ _ spans => .pure (namespaceDecl_agree spans names)

theorem invocationStatement_bridges : Bridges gap .inside .edge (invocationStatement parts) := by
  refine .inside (.stableEnded (invocation_stable bridging.stable)
    (fun matching => invocation_steady (bridging.steady matching)) fun _ _ agree => .pure ?_)
  obtain ⟨connector, action, list, spans⟩ := agree
  exact invoke_agree spans action list connector

theorem plainStatement_bridges : Bridges gap .inside .edge (plainStatement parts) := by
  refine .isVarDef (.bind (varDef_bridges bridging) fun _ _ definitions =>
      .pure (varDefStmt_agree definitions))
    (.isInvocation fun _ => .ite (invocationStatement_bridges bridging) (exprStatement_bridges bridging))
    ?_
  intro parser later value word here isWord nothing ran
  have notInvocation : startsInvocation parser.cursor.kinds = false := by
    rw [kinds_of_peek here nofun]
    rfl
  rw [look_bind (isInvocation_eq parser), notInvocation, if_neg (by simp), exprStatement,
    look_bind (current_eq parser)] at ran
  split at ran
  · obtain ⟨first, between, ranFirst, -⟩ := bind_ok ran
    obtain ⟨look, seen⟩ := bridging.typed here isWord ranFirst
    exact seen (nothing look)
  · exact failAt_ne_ok ran

omit bridging in
theorem plainStatement_blocks : Blocks gap (plainStatement parts) := by
  refine .isVarDef (.isInvocation (.current fun kind stops => ?_))
  rcases Gap.away_of_stops stops with rfl | rfl | rfl <;> exact .failAt _

theorem statementWith_bridges : Bridges gap .inside .among (statementWith parts) := by
  refine .current fun kind => ?_
  split
  · exact .loosely (varAssignment_bridges bridging)
  · exact ifStatement_bridges bridging
  · exact iterateStatement_bridges bridging
  · exact whileStatement_bridges bridging
  · exact .loosely (wordStatement_bridges _ fun _ _ => continueLoop_agree)
  · exact .loosely (wordStatement_bridges _ fun _ _ => breakLoop_agree)
  · exact .loosely (wordStatement_bridges _ fun _ _ => abort_agree)
  · exact forkStatement_bridges bridging
  · exact tryStatement_bridges bridging
  · exact .loosely (valueStatement_bridges bridging _ fun _ _ _ _ value spans =>
      throw_agree spans value)
  · exact .loosely (returnStatement_bridges bridging)
  · exact .loosely (valueStatement_bridges bridging _ fun _ _ _ _ value spans =>
      reply_agree spans value)
  · exact transformStatement_bridges bridging
  · exact transactionStatement_bridges bridging
  · exact .bind namespaceDecl_bridges fun _ _ declarations =>
      .pure (namespaceStmt_agree declarations)
  · exact .loosely (plainStatement_bridges bridging)

omit bridging in
theorem statementWith_blocks : Blocks gap (statementWith parts) := by
  refine .current fun kind stops => ?_
  rcases Gap.away_of_stops stops with rfl | rfl | rfl <;> exact plainStatement_blocks

section Items

variable {items others : BodyItems} (agree : gap.view.Agree items others)

omit bridging in
theorem bodyItem_blocks (kind : BodyKind) : Blocks gap (bodyItem parts kind items) := by
  refine .check ?_ (by simp)
  rw [if_neg Bool.false_ne_true]
  split
  · exact .bind transformItem_blocks
  · exact .bind statementWith_blocks

include agree

theorem bodyItem_bridged (kind : BodyKind) :
    Bridged gap .inside .among (bodyItem parts kind items) (bodyItem parts kind others) :=
  .checkInside fun _ => .ite
    (.ite
      (.bind (worker_bridges bridging) fun _ _ workers => .pure (addWorker_agree agree workers))
      (.peek fun _ _ => .fail _))
    (.ite
      (.bind (transformItem_bridges bridging) fun _ _ statements =>
        .pure (addStatement_agree agree statements))
      (.bind (statementWith_bridges bridging) fun _ _ statements =>
        .pure (addStatement_agree agree statements)))

theorem nextBodyItem_bridged (kind : BodyKind) :
    Bridged gap .among .among (nextBodyItem parts kind items) (nextBodyItem parts kind others) := by
  refine .takeComments fun _ _ comments => ?_
  have agree := addComments_agree agree comments
  exact untilBody_bridged (.pure (.done agree)) (.recovered (bodyItem_blocks kind))
    (.bind (.orRecover (bodyItem_bridged bridging agree kind)) fun _ _ agree => .pure (.yield agree))

end Items

theorem bodyItems_bridges (kind : BodyKind) : Bridges gap .among .among (bodyItems parts kind) :=
  .loop (advancing_of_turn (nextBodyItem_turn bridging.eager kind))
    (fun _ _ agree => nextBodyItem_bridged bridging agree kind) ⟨rfl, .nil⟩

theorem bodyWith_bridges (kind : BodyKind) : Bridges gap start .among (bodyWith parts kind) := by
  refine .bind (.loosely (.symbol _ (by decide))) fun _ _ _ => .bind (bodyItems_bridges bridging kind)
    fun _ _ items => .bind .closeBrace fun _ _ close => .bind (.spanFrom _ _) fun _ _ spans => .pure ?_
  exact body_agree items close spans

end Parts

theorem StmtParts.within_areBridging (room : Nat) : (StmtParts.within room).AreBridging gap := by
  have parts (room : Nat) (body : ∀ kind start, Bridges gap start .among (Grammar.body room kind)) :
      (StmtParts.within room).AreBridging gap := by
    refine ⟨ExprParts.within_areStable room, fun _ => within_areSteady room, within_areEager room,
      type_of_expr, body, fun kind => ?_⟩
    cases room with
    | zero => exact .tooDeep
    | succ room => exact .bind (.symbol _ (by decide))
  refine parts room fun kind start => ?_
  induction room generalizing kind start with
  | zero => exact .tooDeep
  | succ room ih => exact bodyWith_bridges (parts room ih) kind

end ServiceLang.Grammar
