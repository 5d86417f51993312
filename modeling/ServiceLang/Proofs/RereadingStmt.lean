import ServiceLang.Proofs.Quiet
import ServiceLang.Proofs.Precedence

set_option autoImplicit false

/-! The rules for statements read again what they have read. Statements that a
semicolon ends are read in order; those with blocks may have been read with comments
in between and with their parts in another order. -/

namespace ServiceLang.Grammar

open Step
open Word (listed inParens inBraces inBrackets inAngles behind)

variable {calm : Parser → Prop} [Quiet calm]

/-- A rule that what follows does not matter for, and that reads again what it has
read. -/
abbrev ReadsClosed (calm : Parser → Prop) (exact : Prop) {α ε : Type} (rule : Step α)
    (erased : α → ε) (written : α → List Word) : Prop :=
  Rereads calm exact Agree (fun _ => Anything) [] rule rule erased written

structure StmtParts.AreReread (calm : Parser → Prop) (parts : StmtParts) : Prop where
  eager : parts.AreEager (fun _ => True)
  exprs : parts.toExprParts.AreReread calm
  body : ∀ kind, ReadsClosed calm False (parts.body kind) CallableBody.erased CallableBody.written
  noWorkers : ∀ {kind parser body later}, kind ≠ .callable →
    parts.body kind parser = .ok body later → body.workers = []

theorem agree_of_semicolon (left right : List Kind)
    (both : BothStart (.symbol .semicolon) left right) : Agree left right :=
  .of_bothStart rfl both

theorem agree_of_rightBrace (left right : List Kind)
    (both : BothStart (.symbol .rightBrace) left right) : Agree left right :=
  .of_bothStart rfl both

/-- A semicolon and the span up to it, behind what looks ahead. -/
theorem ended_reads {exact : Prop} {before : List Word} {α ε : Type} {start other : Span}
    {make makeAgain : Span → α} {erased : α → ε} {written : α → List Word}
    (whole : ∀ span, written (make span) = before ++ [.symbol .semicolon])
    (same : ∀ span other, erased (makeAgain other) = erased (make span)) :
    Rereads calm exact Agree (fun _ => Anything) before
      (do
        let _ ← endStatement
        return make (← spanFrom start))
      (do
        let _ ← endStatement
        return makeAgain (← spanFrom other)) erased written :=
  (Rereads.ended whole same).weakenFront agree_of_semicolon

/-! ### Expressions in a row -/

theorem listed_cons {α : Type} (written : α → List Word) (first : α) (others : List α) :
    listed ((first :: others).map written) =
      written first ++ others.flatMap (fun other => .symbol .comma :: written other) := by
  rw [List.map_cons, listed, List.flatMap_map]

theorem reference?_erased (expr : Expr) :
    expr.erased.reference? = expr.reference?.map Reference.erased := by
  cases expr <;> rfl

theorem written_of_assignmentTargets {exprs : List Expr} {targets : List Reference}
    {parser later : Parser} (ran : assignmentTargets exprs parser = .ok targets later) :
    later = parser ∧ targets = exprs.filterMap Expr.reference? ∧
      exprs.find? (fun expr => expr.reference?.isNone) = none ∧
      targets.map Reference.written = exprs.map Expr.written := by
  rw [assignmentTargets] at ran
  cases all : exprs.find? (fun expr => expr.reference?.isNone) with
  | some expr =>
      simp only [all] at ran
      exact absurd ran fail_ne_ok
  | none =>
    simp only [all] at ran
    cases ran
    refine ⟨rfl, rfl, rfl, ?_⟩
    induction exprs with
    | nil => rfl
    | cons expr exprs ih =>
        rw [List.find?_eq_none] at all
        have here := all expr List.mem_cons_self
        cases expr with
        | reference target =>
            have rest := ih (List.find?_eq_none.mpr fun other member =>
              all other (List.mem_cons_of_mem _ member))
            simp only [List.filterMap_cons, Expr.reference?, List.map_cons, rest, Expr.written]
        | _ => exact absurd rfl here

omit [Quiet calm] in
theorem assignmentTargets_reads {exprs others : List Expr}
    (same : others.map Expr.erased = exprs.map Expr.erased) {before : List Word} :
    Rereads calm True Agree (fun _ => Agree) before (assignmentTargets exprs)
      (assignmentTargets others) (List.map Reference.erased) (fun _ => before) := by
  have found (list : List Expr) : list.find? (fun expr => expr.reference?.isNone) = none ↔
      (list.map Expr.erased).find? (fun expr => expr.reference?.isNone) = none := by
    simp [List.find?_eq_none, reference?_erased]
  have kept (list : List Expr) : (list.filterMap Expr.reference?).map Reference.erased =
      (list.map Expr.erased).filterMap Expr.reference? := by
    rw [List.map_filterMap, List.filterMap_map]
    exact congrArg (fun kept => list.filterMap kept)
      (funext fun expr => (reference?_erased expr).symm)
  intro parser targets later ran quiet
  obtain ⟨rfl, rfl, all, -⟩ := written_of_assignmentTargets ran
  refine ⟨[], (List.append_nil before).symm, quiet, by simp, fun _ => rfl, .refl _,
    fun _ follows => follows, ?_⟩
  intro other rest calmOther ahead _
  have allOthers := (found others).mpr (same ▸ (found exprs).mp all)
  refine ⟨others.filterMap Expr.reference?, other, ?_, calmOther, ?_, ahead⟩
  · simp only [assignmentTargets, allOthers]
    rfl
  · rw [kept, kept, same]

theorem written_toBlock {body : CallableBody} (none : body.workers = []) :
    body.toBlock.written = body.written := by
  obtain ⟨statements, workers, close, span⟩ := body
  cases none
  simp [CallableBody.toBlock]

theorem erased_toBlock {body other : CallableBody} (same : other.erased = body.erased) :
    other.toBlock.erased = body.toBlock.erased := by
  obtain ⟨_, _, _, _⟩ := body
  obtain ⟨_, _, _, _⟩ := other
  simp only [CallableBody.erased, CallableBody.mk.injEq] at same
  simp [CallableBody.toBlock, same]

section Parts

variable {parts : StmtParts} (reads : parts.AreReread calm)

include reads

omit [Quiet calm] in
theorem block_reads_of_parts : ReadsClosed calm False parts.block Block.erased Block.written := by
  have bodies : ReadsClosed calm False (parts.body .block) CallableBody.erased
      (fun body => body.toBlock.written) :=
    (reads.body .block).writtenAs fun ran => written_toBlock (reads.noWorkers (by simp) ran)
  exact bodies.mapped (fun _ => rfl) fun _ _ same => erased_toBlock same

/-! ### Variables and assignments -/

theorem varDef_reads : ReadsClosed calm True (varDef parts) VarDef.erased VarDef.written := by
  refine .bind reads.exprs.typeName fun type _ same => .bind .identifier fun name _ sameName => ?_
  refine .bind (.ifBehindSymbol .equal agree_of_semicolon (initializer_reads reads.exprs))
    fun init _ sameInit => ?_
  refine .ended (fun _ => ?_) fun _ _ => ?_
  · simp [VarDef.written]
  · simp only [VarDef.erased, same, sameName, sameInit]

theorem varAssignment_reads :
    ReadsClosed calm True (varAssignment parts) Stmt.erased Stmt.written := by
  refine .bind (.keyword _ (by simp)) fun _ _ _ => .bind (references_reads reads.exprs) fun targets _ same => ?_
  refine .bind (.symbol _ rfl) fun _ _ _ => .bind (initializer_reads reads.exprs)
    fun value _ sameValue => ?_
  refine .ended (fun _ => ?_) fun _ _ => ?_
  · simp
  · simp only [Stmt.erased, same, sameValue]

section Ends

variable {first firstAgain : Expr} {others othersAgain : List Expr}
  (same : (firstAgain :: othersAgain).map Expr.erased = (first :: others).map Expr.erased)

include same

theorem assignmentEnd_reads : Rereads calm True Agree (fun _ => Anything)
    (listed ((first :: others).map Expr.written)) (assignmentEnd parts first others)
    (assignmentEnd parts firstAgain othersAgain) Stmt.erased Stmt.written := by
  refine .bindOf (assignmentTargets_reads same) fun targets _ ran sameTargets => ?_
  obtain ⟨_, _, ran⟩ := ran
  obtain ⟨-, -, -, whole⟩ := written_of_assignmentTargets ran
  refine .bind (.symbol _ rfl) fun _ _ _ => .bind (initializer_reads reads.exprs)
    fun value _ sameValue => ?_
  refine .ended (fun _ => ?_) fun _ _ => ?_
  · simp [← whole]
  · simp only [Stmt.erased, sameTargets, sameValue]

omit reads same in
theorem sendTarget_reads : Rereads calm True Agree (fun _ => Agree) [] sendTarget sendTarget
    SendTarget.erased (fun target => [target.word]) := by
  refine .ofEat? (by simp) (fun _ => Token.word_of_keyword) ?_ fun word _ => .pure rfl rfl
  exact Rereads.identifier.mapped (fun _ => rfl)
    fun _ _ same => by simp only [SendTarget.erased, same]

omit reads in
theorem sendEnd_reads : Rereads calm True Agree (fun _ => Anything)
    (listed ((first :: others).map Expr.written)) (sendEnd first others)
    (sendEnd firstAgain othersAgain) Stmt.erased Stmt.written := by
  refine .bind (.symbol _ rfl) fun _ _ _ => .bind sendTarget_reads fun target _ sameTarget => ?_
  refine ended_reads (fun _ => ?_) fun _ _ => ?_
  · simp
  · simp only [Stmt.erased, same, sameTarget]

omit reads in
theorem receiveEnd_reads : Rereads calm True Agree (fun _ => Anything)
    (listed ((first :: others).map Expr.written)) (receiveEnd first others)
    (receiveEnd firstAgain othersAgain) Stmt.erased Stmt.written := by
  refine .bind (assignmentTargets_reads same) fun targets _ _ => .bind (.symbol _ rfl) fun _ _ _ =>
    .bind .identifier fun worker _ sameWorker => ?_
  refine ended_reads (fun _ => ?_) fun _ _ => ?_
  · simp
  · simp only [Stmt.erased, same, sameWorker]

omit reads in
theorem callEnd_reads : Rereads calm True Agree (fun _ => Anything)
    (listed ((first :: others).map Expr.written)) (callEnd first others)
    (callEnd firstAgain othersAgain) Stmt.erased Stmt.written := by
  rw [List.map_cons, List.map_cons, List.cons.injEq] at same
  obtain ⟨sameFirst, sameOthers⟩ := same
  cases others with
  | cons other others => cases first <;> exact .fail _
  | nil =>
      obtain rfl := List.map_eq_nil_iff.mp sameOthers
      cases first with
      | call name arguments span =>
          cases firstAgain with
          | call _ _ _ =>
              simp only [Expr.erased, Expr.call.injEq, Expr.allErased_eq_map] at sameFirst
              refine .bind (Rereads.endStatement.weakenFront agree_of_semicolon) fun _ _ _ =>
                .pure ?_ ?_
              · simp [listed]
              · simp only [Stmt.erased, sameFirst]
          | _ => cases sameFirst
      | _ => exact .fail _

theorem exprStatementEnd_reads : Rereads calm True Agree (fun _ => Anything)
    (listed ((first :: others).map Expr.written)) (exprStatementEnd parts first others)
    (exprStatementEnd parts firstAgain othersAgain) Stmt.erased Stmt.written := by
  refine .bind .current fun kind _ sameKind => ?_
  cases sameKind
  rw [List.append_nil]
  split
  · exact assignmentEnd_reads reads same
  · exact sendEnd_reads same
  · exact receiveEnd_reads same
  · exact callEnd_reads same

end Ends

theorem moreExpressions_reads : Reads calm (moreExpressions parts) (List.map Expr.erased)
    (fun exprs => exprs.flatMap (fun expr => .symbol .comma :: expr.written)) := by
  refine .ofEat (by simp) (fun _ => Token.word_of_symbol) ?_ (.pure rfl rfl)
  intro parser exprs later ran quiet
  obtain ⟨added, whole, reread⟩ := expressions_reads reads.exprs ran quiet
  refine ⟨added, ?_, reread⟩
  cases exprs with
  | nil => exact absurd rfl (ne_nil_of_commaSeparated ran)
  | cons first others =>
      have first_ : listed ((first :: others).map Expr.written) = added := whole
      rw [← first_, listed_cons]
      rfl

theorem exprStatement_reads :
    ReadsClosed calm True (exprStatement parts) Stmt.erased Stmt.written := by
  refine .bind .current fun kind _ sameKind => ?_
  cases sameKind
  refine .ite (fun _ => ?_) fun _ => .failAt _
  refine .bind (anyExpr_reads reads.exprs) fun first _ same => ?_
  refine .bind (moreExpressions_reads reads) fun others _ sameOthers => ?_
  refine (exprStatementEnd_reads reads ?_).from_ ?_
  · rw [List.map_cons, List.map_cons, same, sameOthers]
  · rw [listed_cons, List.append_nil, List.nil_append]

/-! ### Statements that a word announces -/

omit reads in
theorem wordStatement_reads {word : Keyword} {make : Span → Stmt}
    (plain : word ≠ .joinKw ∧ word ≠ .nativeKw)
    (whole : ∀ span, (make span).written = [.keyword word, .symbol .semicolon])
    (same : ∀ span other, (make other).erased = (make span).erased) :
    ReadsClosed calm True (wordStatement word make) Stmt.erased Stmt.written :=
  .bind (.keyword _ plain) fun _ _ _ => ended_reads whole same

theorem valueStatement_reads {word : Keyword} {make : Expr → Span → Stmt}
    (plain : word ≠ .joinKw ∧ word ≠ .nativeKw)
    (whole : ∀ value span, (make value span).written =
      .keyword word :: (value.written ++ [.symbol .semicolon]))
    (same : ∀ value valueAgain span other, valueAgain.erased = value.erased →
      (make valueAgain other).erased = (make value span).erased) :
    ReadsClosed calm True (valueStatement parts word make) Stmt.erased Stmt.written :=
  .bind (.keyword _ plain) fun _ _ _ => .bind (anyExpr_reads reads.exprs)
    fun value other sameValue => ended_reads (whole value)
      fun span again => same value other span again sameValue

theorem returnStatement_reads :
    ReadsClosed calm True (returnStatement parts) Stmt.erased Stmt.written := by
  have values : Reads calm (returnValues parts) (List.map Expr.erased)
      (fun values => listed (values.map Expr.written)) := by
    refine .bind .current fun kind _ sameKind => ?_
    cases sameKind
    exact .ite (fun _ => expressions_reads reads.exprs) fun _ => .pure rfl rfl
  refine .bind (.keyword _ (by simp)) fun _ _ _ => .bind values fun found _ same => ?_
  exact ended_reads (fun _ => by simp) fun _ _ => by simp only [Stmt.erased, same]

omit reads in
theorem namespaceDecl_reads : ReadsClosed calm True namespaceDecl NamespaceDecl.erased
    NamespaceDecl.written := by
  refine .bind (.keyword _ (by simp)) fun _ _ _ => .bindAgree (.text (by simp) rfl fun _ => rfl)
    fun uri _ same => ?_
  refine .bindAgree (.ifBehindKeyword .asKw (by simp) (fun _ _ => id) .identifier)
    fun localName _ sameName => ?_
  refine ended_reads (fun _ => ?_) fun _ _ => ?_
  · simp [NamespaceDecl.written, Word.string]
  · simp only [NamespaceDecl.erased, same, sameName]

theorem invocationStatement_reads :
    ReadsClosed calm True (invocationStatement parts) Stmt.erased Stmt.written := by
  refine .bind (invocation_reads reads.exprs) fun found other same => ?_
  refine .bind (Rereads.endStatement.weakenFront agree_of_semicolon) fun _ _ _ => .pure ?_ ?_
  · simp [Expr.writtens_eq_map]
  · simp only [Prod.mk.injEq] at same
    simp only [Stmt.erased, same]

/-! ### Statements that no word announces -/

omit reads in
theorem semicolon_of_exprStatement :
    Gives (exprStatement parts) fun statement => .symbol .semicolon ∈ statement.written := by
  refine .bind fun kind => .ite (.bind fun first => .bind fun others => .bind fun next => ?_)
    (.failAt _)
  split
  · exact .bind fun _ => .bind fun _ => .bind fun _ => .bind fun _ => .bind fun _ =>
      .pure (by simp)
  · exact .bind fun _ => .bind fun _ => .bind fun _ => .bind fun _ => .pure (by simp)
  · exact .bind fun _ => .bind fun _ => .bind fun _ => .bind fun _ => .bind fun _ =>
      .pure (by simp)
  · unfold callEnd
    split
    · exact .bind fun _ => .pure (by simp)
    · exact .fail _

omit reads in
/-- Statements other than variable definitions that no word announces. -/
theorem semicolon_of_unannounced :
    Gives (do if ← isInvocation then invocationStatement parts else exprStatement parts)
      fun statement => .symbol .semicolon ∈ statement.written :=
  .bind fun _ => .ite (.bind fun _ => .bind fun _ => .pure (by simp)) semicolon_of_exprStatement

omit reads in
theorem semicolon_of_plainStatement :
    Gives (plainStatement parts) fun statement => .symbol .semicolon ∈ statement.written :=
  .bind fun _ => .ite (.bind fun _ => .pure (by simp [VarDef.written])) semicolon_of_unannounced

omit reads [Quiet calm] in
/-- Looking for a variable definition does not go beyond what ends it. -/
theorem startsVarDef_again [Calm calm] {stop : Kind} (ends : stop.endsType) {parser other : Parser}
    {shared left right : List Kind} (member : stop ∈ shared)
    (here : parser.cursor.kinds = shared ++ left) (there : other.cursor.kinds = shared ++ right)
    (quiet : calm parser) (calmOther : calm other) :
    startsVarDef (other.options.maxDepth + 1) other.cursor.kinds =
      startsVarDef (parser.options.maxDepth + 1) parser.cursor.kinds := by
  rw [Calm.sameOptions other parser calmOther quiet, here, there]
  exact startsVarDef_shared ends _ member right left

theorem unannounced_reads : ReadsClosed calm True
    (do if ← isInvocation then invocationStatement parts else exprStatement parts)
    Stmt.erased Stmt.written := by
  refine .choose (fun parser => startsInvocation parser.cursor.kinds)
    (fun parser => look_bind (isInvocation_eq parser))
    (fun parser => look_bind (isInvocation_eq parser)) ?_
    (invocationStatement_reads reads) (exprStatement_reads reads)
  intro parser value later added other rest ran whole passed ahead _ _ _ _
  have member := List.mem_map_of_mem (f := Word.kind) (semicolon_of_unannounced ran)
  rw [whole, List.nil_append] at member
  rw [parser.kinds_eq, passed trivial, List.map_append, other.kinds_eq, ahead, List.map_append]
  exact startsInvocation_shared (.inl rfl) member _ _

theorem plainStatement_reads :
    ReadsClosed calm True (plainStatement parts) Stmt.erased Stmt.written := by
  refine .choose (fun parser => startsVarDef (parser.options.maxDepth + 1) parser.cursor.kinds)
    (fun parser => look_bind (isVarDef_eq parser)) (fun parser => look_bind (isVarDef_eq parser))
    ?_ ?_ (unannounced_reads reads)
  · intro parser value later added other rest ran whole passed ahead quiet calmOther _ _
    have member := List.mem_map_of_mem (f := Word.kind) (semicolon_of_plainStatement ran)
    rw [whole, List.nil_append] at member
    have here : parser.cursor.kinds = added.map Word.kind ++ later.words.map Word.kind := by
      rw [parser.kinds_eq, passed trivial, List.map_append]
    have there : other.cursor.kinds = added.map Word.kind ++ rest.map Word.kind := by
      rw [other.kinds_eq, ahead, List.map_append]
    exact startsVarDef_again (.inr rfl) member here there quiet calmOther
  · exact (varDef_reads reads).mapped (fun _ => by rw [Stmt.written])
      fun _ _ same => by simp only [Stmt.erased, same]

/-! ### Branches and loops -/

/-- A rule for a statement, behind which no word may stand that goes on with it. -/
abbrev ReadsStatement (calm : Parser → Prop) (rule : Step Stmt) : Prop :=
  Rereads calm False Agree (fun _ => Continue) [] rule rule Stmt.erased Stmt.written

theorem elseIf_reads (start other : Token) :
    Rereads calm False Agree (fun _ => Anything) [] (elseIf parts start) (elseIf parts other)
      ElseIf.erased (fun branch => inParens branch.condition.written ++ branch.block.written) := by
  refine .bind (condition_reads reads.exprs).inexact fun condition _ same => ?_
  refine .bind (block_reads_of_parts reads) fun block _ sameBlock => .pure (by simp) ?_
  simp only [ElseIf.erased, same, sameBlock]

def branchesErased (found : List ElseIf × Option Block) : List ElseIf × Option Block :=
  (found.1.map ElseIf.erased, found.2.map Block.erased)

def branchesWritten (found : List ElseIf × Option Block) : List Word :=
  found.1.flatMap ElseIf.written ++ behind [.keyword .elseKw] Block.written found.2

theorem nextBranch_reads {found other : List ElseIf × Option Block} (open_ : found.2 = none)
    (openAgain : other.2 = none) (same : branchesErased other = branchesErased found) :
    Rereads calm False Continue (Rereads.behindTurn Continue Continue)
      (found.1.flatMap ElseIf.written) (nextBranch parts found) (nextBranch parts other)
      (Rereads.decided branchesErased)
      (Rereads.soFar (fun found => found.1.flatMap ElseIf.written) branchesWritten) := by
  have sameFirst : other.1.map ElseIf.erased = found.1.map ElseIf.erased := congrArg Prod.fst same
  refine .ofEat? (by simp) (fun _ => Token.word_of_keyword) ?_ fun word again => ?_
  · exact .done (by simp [branchesWritten, open_, behind]) same
  · refine .ofEat (by simp) (fun _ => Token.word_of_keyword) ?_ ?_
    · refine .bindClosed (elseIf_reads reads word again) fun branch _ sameBranch => .yield ?_ ?_
      · simp [ElseIf.written]
      · simp [branchesErased, sameFirst, sameBranch, open_, openAgain]
    · refine .bindClosed (block_reads_of_parts reads) fun block _ sameBlock => .done ?_ ?_
      · simp [branchesWritten, behind]
      · simp [branchesErased, sameFirst, sameBlock]

theorem elseBranches_reads : Rereads calm False Continue (fun _ => Continue) []
    (elseBranches parts) (elseBranches parts) branchesErased branchesWritten := by
  refine .loopOf (advancing_of_turn (nextBranch_turn reads.eager)) ?_
    (fun _ _ => nextBranch_reads reads) ([], none) ([], none) rfl rfl rfl
  intro found parser next later open_ ran
  obtain ⟨word, between, -, ran⟩ := bind_ok ran
  cases word with
  | none => cases ran
  | some word =>
      obtain ⟨isElseIf, last, -, ran⟩ := bind_ok ran
      split at ran
      · obtain ⟨branch, _, -, ran⟩ := bind_ok ran
        cases ran
        exact open_
      · obtain ⟨block, _, -, ran⟩ := bind_ok ran
        cases ran

theorem ifStatement_reads : ReadsStatement calm (ifStatement parts) := by
  refine .bind (.keyword _ (by simp)) fun _ _ _ => .bindAgree (condition_reads reads.exprs).inexact
    fun condition _ same => ?_
  refine .bindClosed (block_reads_of_parts reads) fun block _ sameBlock =>
    .bind (elseBranches_reads reads) fun found _ sameFound => .spanned (fun _ => ?_) fun _ _ => ?_
  · simp [branchesWritten, ElseIf.writtens_eq_flatMap, Block.writtenBehind_eq]
  · simp only [branchesErased, Prod.mk.injEq] at sameFound
    simp only [Stmt.erased, same, sameBlock, ElseIf.allErased_eq_map, Block.erasedIfAny_eq,
      sameFound]

theorem iterateStatement_reads :
    ReadsClosed calm False (iterateStatement parts) Stmt.erased Stmt.written := by
  refine .bind (.keyword _ (by simp)) fun _ _ _ => .bind (.symbol _ rfl) fun _ _ _ =>
    .bind reads.exprs.typeName.inexact fun type _ same => .bind .identifier fun name _ sameName => ?_
  refine .bind (.symbolLooking _) fun _ _ _ => .bind (anyExpr_reads reads.exprs).inexact
    fun collection _ sameCollection => .bindAgree (.symbol _ rfl) fun _ _ _ => ?_
  refine .bind (block_reads_of_parts reads) fun body _ sameBody => .pure (by simp [inParens]) ?_
  simp only [Stmt.erased, same, sameName, sameCollection, sameBody]

theorem whileStatement_reads :
    ReadsClosed calm False (whileStatement parts) Stmt.erased Stmt.written := by
  refine .bind (.keyword _ (by simp)) fun _ _ _ => .bind (condition_reads reads.exprs).inexact
    fun condition _ same => ?_
  refine .bind (block_reads_of_parts reads) fun body _ sameBody => .pure (by simp) ?_
  simp only [Stmt.erased, same, sameBody]

/-! ### Workers -/

theorem worker_reads : ReadsClosed calm False (worker parts) Worker.erased Worker.written := by
  refine .bind (.keyword _ (by simp)) fun _ _ _ => .bind .identifier fun name _ same => ?_
  refine .bind (reads.body _) fun body _ sameBody => .pure (by simp) ?_
  simp only [Worker.erased, same, sameBody]

theorem nextForkWorker_reads (workers others : List Worker)
    (same : others.map Worker.erased = workers.map Worker.erased) :
    Rereads calm False Agree (Rereads.behindTurn Agree (BothStart (.symbol .rightBrace)))
      (workers.flatMap Worker.written) (nextForkWorker parts workers)
      (nextForkWorker parts others) (Rereads.decided (List.map Worker.erased))
      (Rereads.soFar (fun workers => workers.flatMap Worker.written)
        (fun workers => workers.flatMap Worker.written)) := by
  have next : ReadsClosed calm False (forkWorker parts) Worker.erased Worker.written := by
    refine .bind (.check _) fun _ _ same => ?_
    cases same
    exact .ite (fun _ => worker_reads reads) fun _ => .bind .peek fun _ _ _ => .fail _
  refine .bind .current fun kind _ sameKind => ?_
  cases sameKind
  rw [List.append_nil]
  refine .ite (fun _ => ?_) fun _ => .yielded (.orRecover ?_ ?_)
  · exact (Rereads.done rfl same).weakenFront agree_of_rightBrace
  · exact (forkWorker_eager reads.eager).orderly.bind fun _ => .pure _
  · refine .bind (next.strengthenBehind fun _ _ _ _ => trivial) fun worker _ sameWorker => .pure ?_ ?_
    · simp
    · simp [same, sameWorker]

theorem forkWorkers_reads : Rereads calm False Agree
    (fun _ => BothStart (.symbol .rightBrace)) [] (forkWorkers parts) (forkWorkers parts)
    (List.map Worker.erased) (fun workers => workers.flatMap Worker.written) :=
  .loop (advancing_of_turn (nextForkWorker_turn reads.eager)) (nextForkWorker_reads reads) [] []
    rfl

end Parts

end ServiceLang.Grammar
