import ServiceLang.Proofs.Looking
import ServiceLang.Proofs.MarginsExpr
import ServiceLang.Proofs.MarginsRecovery
import ServiceLang.Proofs.OrderlyStmt

set_option autoImplicit false

/-! The rules for statements and bodies read and report the same with some levels more, unless
a refusal has been reported. Errors can only be at the token where a statement starts if it
starts with a word that opens one, and no level is taken there. -/

namespace ServiceLang

/-- Where a type starts, no reading would go on behind an error. -/
theorem Kind.isLanding_of_startsType {kind : Kind} (starts : kind.startsType = true) :
    kind.isLanding = false := by
  cases kind with
  | keyword word => cases word <;> first | rfl | cases starts
  | symbol symbol => cases starts
  | _ => first | rfl | cases starts

/-- Where an operand starts, no reading would go on behind an error. -/
theorem Kind.isLanding_of_startsOperand {kind : Kind} (starts : kind.startsOperand = true) :
    kind.isLanding = false := by
  cases kind with
  | keyword word => cases word <;> first | rfl | cases starts
  | symbol symbol => cases symbol <;> first | rfl | cases starts
  | _ => first | rfl | cases starts

theorem Cursor.isLanding_of_startsVarDef {place : Cursor} {room : Nat}
    (starts : startsVarDef room place.kinds = true) : place.peek.kind.isLanding = false := by
  refine Kind.isLanding_of_startsType ((Bool.not_eq_false _).mp fun other => ?_)
  have nothing : startsVarDef room place.kinds = false :=
    startsVarDef_of_head (fun kind head => by rwa [kind_peek, head] at other) room
  rw [nothing] at starts
  cases starts

theorem Cursor.peek_of_startsInvocation {place : Cursor}
    (starts : startsInvocation place.kinds = true) : place.peek.kind = .identifier := by
  obtain ⟨rest, kinds | kinds⟩ := startsInvocation_iff.mp starts <;> rw [kind_peek, kinds] <;> rfl

namespace Grammar

open Step Margins

variable {margins : Margins} {place : Cursor} {footing : Footing}

structure StmtParts.AreSame (margins : Margins) (parts deeper : StmtParts) : Prop where
  exprParts : parts.toExprParts.AreSame margins deeper.toExprParts
  body : ∀ kind place,
    margins.Outer place .firm (parts.body kind) (deeper.body kind) Anything
  eager : parts.AreEager (fun _ => True)

theorem notAStatement_same {α : Type} {lies : Cursor → α → Prop} :
    margins.Outer place footing notAStatement notAStatement lies :=
  .inner <| .failAt .expectedStatement fun kind =>
    Diagnostic.wantedFound "statement" kind.description

section Parts

variable {parts deeper : StmtParts} (same : parts.AreSame margins deeper)

include same

theorem block_same_of_parts : margins.Outer place .firm parts.block deeper.block Anything :=
  (same.body .block place).mapped fun _ _ _ => trivial

/-! ### Variables and assignments -/

omit same in
theorem endStatement_spanned {α : Type} (start : Span) (make : Span → α) :
    margins.Outer place .firm
      (do
        let _ ← endStatement
        return make (← spanFrom start))
      (do
        let _ ← endStatement
        return make (← spanFrom start)) Anything :=
  Outer.endStatement.thenSpan _

theorem varDef_same : margins.Outer place .firm (varDef parts) (varDef deeper) Anything :=
  .bind (same.exprParts.typeName _) fun _ _ => .bind .identifier fun _ _ =>
    .bind (.ifBehind nofun (initializer_same same.exprParts)) fun _ _ =>
    endStatement_spanned _ _

theorem varAssignment_same :
    margins.Outer place footing (varAssignment parts) (varAssignment deeper) Anything :=
  .bind (.keyword nofun) fun _ _ => .bind (references_same same.exprParts _) fun _ _ =>
    .bind (.symbol _) fun _ _ => .bind (initializer_same same.exprParts _) fun _ _ =>
    endStatement_spanned _ _

omit same in
/-- What cannot be assigned to has been passed over. -/
theorem assignmentTargets_same {exprs : List Expr}
    (behind : ∀ expr ∈ exprs, expr.span.start < place.offset) :
    margins.Inner place .firm (assignmentTargets exprs) (assignmentTargets exprs) Anything := by
  unfold assignmentTargets
  split
  · rename_i expr found
    have before := behind expr (List.mem_of_find?_eq_some found)
    exact .failInside rfl (Nat.le_of_lt before) (.inl before)
  · exact .pure trivial

theorem assignmentEnd_same {first : Expr} {others : List Expr}
    (behind : ∀ expr ∈ first :: others, expr.span.start < place.offset) :
    margins.Outer place .firm (assignmentEnd parts first others) (assignmentEnd deeper first others)
      Anything :=
  .bind (assignmentTargets_same behind) fun _ _ => .bind (.symbol _) fun _ _ =>
    .bind (initializer_same same.exprParts _) fun _ _ => endStatement_spanned _ _

omit same in
theorem sendTarget_same : margins.Same sendTarget sendTarget := by
  refine fun _ => .bind (.eat? _ nofun) fun _ found => ?_
  cases found with
  | none => exact Inner.identifier.mapped fun _ _ _ => trivial
  | some word => exact .pure trivial

omit same in
theorem sendEnd_same (first : Expr) (others : List Expr) :
    margins.Outer place .firm (sendEnd first others) (sendEnd first others) Anything :=
  .bind (.symbol _) fun _ _ => .bind (sendTarget_same _) fun _ _ => endStatement_spanned _ _

omit same in
theorem receiveEnd_same {first : Expr} {others : List Expr}
    (behind : ∀ expr ∈ first :: others, expr.span.start < place.offset) :
    margins.Outer place .firm (receiveEnd first others) (receiveEnd first others) Anything :=
  .bind (assignmentTargets_same behind) fun _ _ => .bind (.symbol _) fun _ _ =>
    .bind .identifier fun _ _ => endStatement_spanned _ _

omit same in
theorem callEnd_same {first : Expr} (others : List Expr)
    (behind : first.span.start < place.offset) :
    margins.Outer place .firm (callEnd first others) (callEnd first others) Anything := by
  unfold callEnd
  split
  · exact Outer.endStatement.mapped fun _ _ _ => trivial
  · have before : (listSpan first others).start < place.offset := by
      rw [listSpan, Span.merge_start]
      exact Nat.lt_of_le_of_lt (Nat.min_le_left _ _) behind
    exact .inner (.failInside rfl (Nat.le_of_lt before) (.inl before))

theorem exprStatementEnd_same {first : Expr} {others : List Expr}
    (behind : ∀ expr ∈ first :: others, expr.span.start < place.offset) :
    margins.Outer place .firm (exprStatementEnd parts first others)
      (exprStatementEnd deeper first others) Anything := by
  refine .look sees_current ?_
  split
  · exact assignmentEnd_same same behind
  · exact sendEnd_same first others
  · exact receiveEnd_same behind
  · exact callEnd_same others (behind first List.mem_cons_self)

theorem moreExpressions_same (place : Cursor) :
    margins.Inner place .firm (moreExpressions parts) (moreExpressions deeper)
      fun last list => ∀ expr ∈ list, expr.span.start < last.offset :=
  .bind (.eat _ nofun) fun _ _ => .ite (fun _ => expressions_same same.exprParts _)
    fun _ => .pure nofun

theorem exprStatement_same :
    margins.Outer place footing (exprStatement parts) (exprStatement deeper) Anything := by
  refine .look sees_current (.ite (fun starts => ?_) fun _ => notAStatement_same)
  refine .firm (Kind.isLanding_of_startsOperand starts) ?_
  refine .bindWith (anyExpr_same same.exprParts _) fun there first _ isBehind =>
    .bindWith (moreExpressions_same same _) fun last others onwards areBehind =>
      exprStatementEnd_same same fun expr member => ?_
  rcases List.mem_cons.mp member with rfl | among
  · exact Nat.lt_of_lt_of_le isBehind onwards.offset
  · exact areBehind expr among

/-! ### Control flow -/

omit same in
theorem wordStatement_same {word : Keyword} (make : Span → Stmt) (notNative : word ≠ .nativeKw) :
    margins.Outer place footing (wordStatement word make) (wordStatement word make) Anything :=
  .bind (.keyword notNative) fun _ _ => endStatement_spanned _ _

theorem valueStatement_same {word : Keyword} (make : Expr → Span → Stmt)
    (notNative : word ≠ .nativeKw) :
    margins.Outer place footing (valueStatement parts word make) (valueStatement deeper word make)
      Anything :=
  .bind (.keyword notNative) fun _ _ => .bind (anyExpr_same same.exprParts _) fun _ _ =>
    endStatement_spanned _ _

theorem elseIf_same (start : Token) :
    margins.Outer place .firm (elseIf parts start) (elseIf deeper start) Anything :=
  .bind (condition_same same.exprParts _) fun _ _ =>
    (block_same_of_parts same).mapped fun _ _ _ => trivial

theorem nextBranch_same (found : List ElseIf × Option Block) :
    margins.Outer place footing (nextBranch parts found) (nextBranch deeper found)
      fun _ _ => True :=
  .eat? nofun nofun (fun _ _ _ => .eat nofun nofun
      (fun _ => (elseIf_same same _).mapped fun _ _ _ => trivial)
      ((block_same_of_parts same).mapped fun _ _ _ => trivial))
    fun _ => .pure trivial

theorem elseBranches_same :
    margins.Outer place footing (elseBranches parts) (elseBranches deeper) Anything :=
  .loop (fun _ => True) (nextBranch_turn same.eager)
    (fun _ found => (nextBranch_same same found).weaken fun _ _ _ _ _ => trivial) _

theorem ifStatement_same :
    margins.Outer place footing (ifStatement parts) (ifStatement deeper) Anything :=
  .bind (.keyword nofun) fun _ _ => .bind (condition_same same.exprParts _) fun _ _ =>
    (block_same_of_parts same).andThen
      (fun _ => .bind (elseBranches_orderly same.eager) fun _ => .bind (.spanFrom _) fun _ =>
        .pure _)
      fun _ _ _ _ => (elseBranches_same same).thenSpan _

theorem iterateStatement_same :
    margins.Outer place footing (iterateStatement parts) (iterateStatement deeper) Anything :=
  .bind (.keyword nofun) fun _ _ => .bind (.symbol _) fun _ _ =>
    .bind (same.exprParts.typeName _) fun _ _ => .bind .identifier fun _ _ =>
    .bind (.symbol _) fun _ _ => .bind (anyExpr_same same.exprParts _) fun _ _ =>
    .bind (.symbol _) fun _ _ => (block_same_of_parts same).mapped fun _ _ _ => trivial

theorem whileStatement_same :
    margins.Outer place footing (whileStatement parts) (whileStatement deeper) Anything :=
  .bind (.keyword nofun) fun _ _ => .bind (condition_same same.exprParts _) fun _ _ =>
    (block_same_of_parts same).mapped fun _ _ _ => trivial

theorem returnValues_same : margins.Same (returnValues parts) (returnValues deeper) :=
  fun _ => .look sees_current <| .ite
    (fun _ => (expressions_same same.exprParts _).weaken fun _ _ _ => trivial)
    fun _ => .pure trivial

theorem returnStatement_same :
    margins.Outer place footing (returnStatement parts) (returnStatement deeper) Anything :=
  .bind (.keyword nofun) fun _ _ => .bind (returnValues_same same _) fun _ _ =>
    endStatement_spanned _ _

/-! ### Workers, forks and joins -/

theorem worker_same : margins.Outer place footing (worker parts) (worker deeper) Anything :=
  .bind (.keyword nofun) fun _ _ => .bind .identifier fun _ _ =>
    (same.body _ _).mapped fun _ _ _ => trivial

theorem forkWorker_same :
    margins.Outer place footing (forkWorker parts) (forkWorker deeper) Anything :=
  .look (sees_check _) <| .ite (fun _ => worker_same same) fun _ =>
    .inner (.peek fun _ tokens => .wrongToken tokens _)

omit same in
theorem isLanding_of_endsBody {kind : Kind} (ends : endsBody kind = true) :
    kind.isLanding = true := by
  rw [endsBody, Bool.or_eq_true, decide_eq_true_eq] at ends
  rcases ends with starts | among
  · exact Kind.isLanding_of_startsDefinition starts
  · simp only [List.mem_cons, List.not_mem_nil, or_false] at among
    rcases among with rfl | rfl | rfl | rfl | rfl <;> rfl

/-- The workers of a fork end where reading would go on. -/
theorem forkWorkers_same :
    margins.Outer place footing (forkWorkers parts) (forkWorkers deeper)
      fun last _ => last.peek.kind.isLanding = true := by
  refine .loop _ (nextForkWorker_turn same.eager) (fun there workers => ?_) []
  refine .look sees_current (.ite (fun ends => .pure fun _ _ => isLanding_of_endsBody ends)
    fun inside => ?_)
  refine (Outer.orRecover .member _ (startsDefinition_of_endsBody inside).2
    ((forkWorker_same same).mapped fun _ _ _ => trivial)).mapped fun _ _ _ _ => nofun

omit same in
theorem workerNames_same : margins.Same workerNames workerNames :=
  fun _ => .look (sees_check _) <| .ite (fun _ => .list fun _ => .identifier) fun _ => .pure trivial

omit same in
theorem firstOf_same (word : Token) : margins.Same (firstOf word) (firstOf word) := by
  refine fun _ => .bindWith (.expect _ nofun nofun) fun _ number _ behind => ?_
  split
  · exact .failInside rfl (Nat.le_of_lt behind) (.inl behind)
  · exact .bind (workerNames_same _) fun _ _ => .spanned _ trivial

omit same in
theorem everyOf_same (word : Token) : margins.Same (everyOf word) (everyOf word) :=
  fun _ => .bind (workerNames_same _) fun _ _ => .spanned _ trivial

omit same in
theorem joinCondition_same : margins.Same joinCondition joinCondition := by
  refine fun place => .advance (fun notEnd there behind => ?_) fun atEnd other tokens => ?_
  · split
    · exact firstOf_same _ there
    · exact firstOf_same _ there
    · exact everyOf_same _ there
    · refine .failInside ?_ ?_ (.inl ?_)
      · exact (isComplaint_wrongToken _ _).isError
      · rw [start_wrongToken]
        exact Nat.le_of_lt behind
      · rw [start_wrongToken]
        exact behind
  · rw [tokens.kind, atEnd]
    exact .wrongToken tokens _

omit same in
theorem bracketedCondition_same : margins.Same bracketedCondition bracketedCondition :=
  fun _ => .look sees_isJoinCondition <| .ite
    (fun _ => .bind (.symbol _) fun _ _ => .bind (joinCondition_same _) fun _ _ =>
      (Inner.symbol _).mapped fun _ _ _ => trivial)
    fun _ => .pure trivial

theorem clauseBinding_same : margins.Same (clauseBinding parts) (clauseBinding deeper) :=
  fun _ => .bind (.symbol _) fun _ _ => .bind (same.exprParts.typeName _) fun _ _ =>
    .bind .identifier fun _ _ => (Inner.symbol _).mapped fun _ _ _ => trivial

theorem joinClause_same :
    margins.Outer place footing (joinClause parts) (joinClause deeper) Anything :=
  .bind (.keyword nofun) fun _ _ => .bind (bracketedCondition_same _) fun _ _ =>
    .bind (clauseBinding_same same _) fun _ _ =>
    (block_same_of_parts same).mapped fun _ _ _ => trivial

theorem timeoutClause_same :
    margins.Outer place footing (timeoutClause parts) (timeoutClause deeper) Anything :=
  .bind (.keyword nofun) fun _ _ => .bind (condition_same same.exprParts _) fun _ _ =>
    .bind (clauseBinding_same same _) fun _ _ =>
    (block_same_of_parts same).mapped fun _ _ _ => trivial

theorem forkStatement_same :
    margins.Outer place footing (forkStatement parts) (forkStatement deeper) Anything := by
  have spanned {α : Type} (start : Span) (make : Span → α) :
      Orderly (fun _ => True) (do return make (← spanFrom start)) :=
    .bind (.spanFrom _) fun _ => .pure _
  refine .bind (.keyword nofun) fun _ _ => .bind (.symbol _) fun _ _ =>
    (forkWorkers_same same).andThen (fun _ => .bind .closeBrace fun _ =>
      .bind (.ifAt (joinClause_orderly same.eager)) fun _ =>
      .bind (.ifAt (timeoutClause_orderly same.eager)) fun _ => spanned _ _)
    fun _ _ _ landing => ?_
  refine (Outer.closeBrace landing).andThen
    (fun _ => .bind (.ifAt (joinClause_orderly same.eager)) fun _ =>
      .bind (.ifAt (timeoutClause_orderly same.eager)) fun _ => spanned _ _) fun _ _ _ _ => ?_
  refine (Outer.ifAt (joinClause_same same)).andThen
    (fun _ => .bind (.ifAt (timeoutClause_orderly same.eager)) fun _ => spanned _ _)
    fun _ _ _ _ => ?_
  exact (Outer.ifAt (timeoutClause_same same)).thenSpan _

/-! ### Try and transaction -/

theorem catchClause_same :
    margins.Outer place footing (catchClause parts) (catchClause deeper) Anything :=
  .bind (.keyword nofun) fun _ _ => .bind (clauseBinding_same same _) fun _ _ =>
    (block_same_of_parts same).mapped fun _ _ _ => trivial

omit same in
/-- A missing clause is reported where the statement starts, behind which something has been
passed over. -/
theorem checkClauses_same (catches : List Catch) (finallyBlock : Option Block) {span : Span}
    (behind : span.start < place.offset) :
    margins.Outer place footing (checkClauses catches finallyBlock span)
      (checkClauses catches finallyBlock span) Anything := by
  refine .ite (fun _ => ?_) fun _ => .pure trivial
  rintro parser other twins rfl on
  have tells := (show margins.Spans span span from
    .inl ⟨rfl, Nat.lt_of_lt_of_le behind twins.places.offset_le⟩)
  exact Outer.report (tells.error _ _) (.before behind) twins rfl on

theorem tryStatement_same :
    margins.Outer place footing (tryStatement parts) (tryStatement deeper) Anything := by
  have checked (start : Span) (body : Block) (catches : List Catch) (block : Option Block) :
      Orderly (fun _ => True) (do
        let span ← spanFrom start
        let _ ← checkClauses catches block span
        return Stmt.tryCatch body catches block span) :=
    .bind (.spanFrom _) fun _ => .bind (checkClauses_orderly _ _ _) fun _ => .pure _
  have finishes := block_eager_of_parts same.eager
  refine .bindWith (.keyword nofun) fun _ word _ behind =>
    (block_same_of_parts same).andThen (fun _ => .bind (.whileAt (catchClause_eager same.eager))
      fun _ => .bind (.ifBehind rfl finishes.orderly) fun _ => checked _ _ _ _)
    fun _ _ onBody _ => ?_
  refine (Outer.whileAt (catchClause_eager same.eager) fun _ => catchClause_same same).andThen
    (fun _ => .bind (.ifBehind rfl finishes.orderly) fun _ => checked _ _ _ _)
    fun _ _ onCatches _ => ?_
  refine (Outer.ifBehind (by nofun) (by nofun) fun _ => block_same_of_parts same).andThen
    (fun _ => checked _ _ _ _) fun last _ onFinally _ => .look (sees_spanFrom _) ?_
  have before : word.span.start < last.offset :=
    Nat.lt_of_lt_of_le behind (onBody.trans (onCatches.trans onFinally)).offset
  exact (checkClauses_same _ _ (start_spanFrom_lt _ before)).mapped fun _ _ _ => trivial

theorem handler_same (isAborted : Bool) (found : Handlers) :
    margins.Outer place footing (handler parts isAborted found) (handler deeper isAborted found)
      Anything := by
  have notNative : handlerWord isAborted ≠ .nativeKw := by cases isAborted <;> nofun
  refine .bindWith (.keyword notNative) fun _ word _ behind =>
    (block_same_of_parts same).andThen
      (fun _ => .ite (.bind (.report ⟨rfl, nofun⟩) fun _ => .pure _) (.pure _))
      fun last _ onwards _ => .ite (fun _ => ?_) fun _ => .pure trivial
  have before : word.span.start < last.offset := Nat.lt_of_lt_of_le behind onwards.offset
  rintro parser other twins rfl on
  have tells : margins.Spans word.span word.span :=
    .inl ⟨rfl, Nat.lt_of_lt_of_le before twins.places.offset_le⟩
  exact ((Outer.report (tells.error _ _) (.before before)).mapped fun _ _ _ => trivial) twins rfl on

theorem nextHandler_same (found : Handlers) :
    margins.Outer place footing (nextHandler parts found) (nextHandler deeper found) Anything :=
  .look (sees_check _) <| .ite (fun _ => (handler_same same true found).mapped fun _ _ _ => trivial)
    fun _ => .look (sees_check _) <| .ite
      (fun _ => (handler_same same false found).mapped fun _ _ _ => trivial)
      fun _ => .pure trivial

theorem handlers_same : margins.Outer place footing (handlers parts) (handlers deeper) Anything :=
  .loop (fun _ => True) (nextHandler_turn same.eager)
    (fun _ found => (nextHandler_same same found).weaken fun _ _ _ _ _ => trivial) _

theorem transactionStatement_same :
    margins.Outer place footing (transactionStatement parts) (transactionStatement deeper)
      Anything :=
  .bind (.keyword nofun) fun _ _ => (block_same_of_parts same).andThen
    (fun _ => .bind (handlers_orderly same.eager) fun _ => .bind (.spanFrom _) fun _ => .pure _)
    fun _ _ _ _ => (handlers_same same).thenSpan _

/-! ### Transform -/

theorem transformStatement_same :
    margins.Outer place footing (transformStatement parts) (transformStatement deeper) Anything :=
  .bind (.keyword nofun) fun _ _ => (same.body _ _).mapped fun _ _ _ => trivial

theorem transformVarDef_same :
    margins.Outer place .firm (transformVarDef parts) (transformVarDef deeper) Anything :=
  .bind (same.exprParts.typeName _) fun _ _ => .bind .identifier fun _ _ =>
    .bind (.symbol _) fun _ _ => .bind (anyExpr_same same.exprParts _) fun _ _ =>
    endStatement_spanned _ _

theorem transformAssignment_same (notEnd : place.peek.kind ≠ .endOfFile) :
    margins.Outer place .firm (transformAssignment parts) (transformAssignment deeper) Anything :=
  .peekInside notEnd <| .bind (references_same same.exprParts _) fun _ _ =>
    .bind (.symbol _) fun _ _ => .bind (anyExpr_same same.exprParts _) fun _ _ =>
    endStatement_spanned _ _

theorem transformItem_same :
    margins.Outer place footing (transformItem parts) (transformItem deeper) Anything := by
  refine .look (sees_check _) <| .ite (fun _ => transformStatement_same same) fun _ =>
    .look sees_isVarDef <| .ite (fun starts => ?_) fun _ => .look (sees_check _) <| .ite
      (fun here => ?_) fun _ => notAStatement_same
  · exact .firm (Cursor.isLanding_of_startsVarDef starts) (transformVarDef_same same)
  · have here : place.peek.kind = .identifier := beq_iff_eq.mp here
    exact .firm (here ▸ rfl) (transformAssignment_same same (here ▸ nofun))

/-! ### Statements and bodies -/

omit same in
theorem namespaceDecl_same : margins.Outer place footing namespaceDecl namespaceDecl Anything :=
  .bind (.keyword nofun) fun _ _ => .bind (.expect _ nofun nofun) fun _ _ =>
    .bind (.ifBehind nofun fun _ => .identifier) fun _ _ => endStatement_spanned _ _

theorem invocationStatement_same :
    margins.Outer place .firm (invocationStatement parts) (invocationStatement deeper) Anything :=
  .bind (invocation_same same.exprParts _) fun _ _ =>
    Outer.endStatement.mapped fun _ _ _ => trivial

theorem plainStatement_same :
    margins.Outer place footing (plainStatement parts) (plainStatement deeper) Anything :=
  .look sees_isVarDef <| .ite
    (fun starts => .firm (Cursor.isLanding_of_startsVarDef starts)
      ((varDef_same same).mapped fun _ _ _ => trivial))
    fun _ => .look sees_isInvocation <| .ite
      (fun starts => .firm (Cursor.peek_of_startsInvocation starts ▸ rfl)
        (invocationStatement_same same))
      fun _ => exprStatement_same same

theorem statementWith_same :
    margins.Outer place footing (statementWith parts) (statementWith deeper) Anything := by
  refine .look sees_current ?_
  split
  · exact varAssignment_same same
  · exact ifStatement_same same
  · exact iterateStatement_same same
  · exact whileStatement_same same
  · exact wordStatement_same _ nofun
  · exact wordStatement_same _ nofun
  · exact wordStatement_same _ nofun
  · exact forkStatement_same same
  · exact tryStatement_same same
  · exact valueStatement_same same _ nofun
  · exact returnStatement_same same
  · exact valueStatement_same same _ nofun
  · exact transformStatement_same same
  · exact transactionStatement_same same
  · exact namespaceDecl_same.mapped fun _ _ _ => trivial
  · exact plainStatement_same same

theorem bodyItem_same (kind : BodyKind) (items : BodyItems)
    (notEnd : place.peek.kind ≠ .endOfFile) :
    margins.Outer place footing (bodyItem parts kind items) (bodyItem deeper kind items)
      Anything :=
  .look (sees_check _) <| .ite
    (fun _ => .ite (fun _ => (worker_same same).mapped fun _ _ _ => trivial)
      fun _ => .peekInside notEnd (.inner (.failInside rfl (Nat.le_refl _) (.inr notEnd))))
    fun _ => .ite (fun _ => (transformItem_same same).mapped fun _ _ _ => trivial)
      fun _ => (statementWith_same same).mapped fun _ _ _ => trivial

/-- The items of a body end where reading would go on. -/
theorem bodyItems_same (kind : BodyKind) :
    margins.Outer place footing (bodyItems parts kind) (bodyItems deeper kind)
      fun last _ => last.peek.kind.isLanding = true := by
  refine .loop _ (nextBodyItem_turn same.eager kind) (fun there items => ?_) _
  refine Outer.takeComments.andThen (fun comments => ?_) fun last comments _ _ =>
    .look sees_current (.ite (fun ends => .pure fun _ _ => isLanding_of_endsBody ends)
      fun inside => ?_)
  · exact .bind .current fun _ => .ite (.pure _)
      (.bind (fun parser => Run.orRecover ((bodyItem_eager same.eager kind _).orderly parser)
        trivial) fun _ => .pure _)
  · have notEnd := (startsDefinition_of_endsBody inside).2
    exact (Outer.orRecover .statement _ notEnd (bodyItem_same same kind _ notEnd)).mapped
      fun _ _ _ _ => nofun

theorem bodyWith_same (kind : BodyKind) :
    margins.Outer place footing (bodyWith parts kind) (bodyWith deeper kind) Anything :=
  .bind (.symbol _) fun _ _ => (bodyItems_same same kind).andThen
    (fun _ => .bind .closeBrace fun _ => .bind (.spanFrom _) fun _ => .pure _)
    fun _ _ _ landing => (Outer.closeBrace landing).thenSpan _

end Parts

/-- Only a body in which a level is refused can be read otherwise with some levels more. -/
theorem body_same (room : Nat) (kind : BodyKind) (place : Cursor) :
    margins.Outer place .firm (body room kind) (body (room + margins.extra) kind) Anything := by
  induction room generalizing kind place with
  | zero =>
      refine .inner (.tooDeep (.inl rfl) fun alike => ?_)
      rw [alike]
      rfl
  | succ room ih =>
      rw [Nat.succ_add]
      exact bodyWith_same ⟨ExprParts.within_areSame room, ih, StmtParts.within_areEager room⟩ kind

theorem StmtParts.within_areSame (room : Nat) :
    (StmtParts.within room).AreSame margins (.within (room + margins.extra)) :=
  ⟨ExprParts.within_areSame room, body_same room, StmtParts.within_areEager room⟩

end Grammar

end ServiceLang
