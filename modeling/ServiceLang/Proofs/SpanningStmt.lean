import ServiceLang.Proofs.SpanningExpr

set_option autoImplicit false

/-! Statements and bodies over the tokens of a source. A broken statement leaves a node over
all tokens that were skipped, and a comment stands outside of the order. -/

namespace ServiceLang

structure Layout.Loose (layout : Layout) (first behind : Nat) (outlines : List Outline) :
    Prop where
  row : layout.Row first behind (outlines.filter fun outline => !outline.isComment)
  comments : ∀ child ∈ outlines, child.isComment = true →
    child.Nests ∧ ∀ node ∈ child.nodes, layout.Holds node

abbrev Layout.Leading {α : Type} (layout : Layout) (outline : String → α → Outline)
    (first behind : Nat) (value : α) : Prop :=
  ∃ last, last ≤ behind ∧ layout.Node outline first last value

namespace Layout.Loose

variable {layout : Layout} {first middle behind start stop : Nat} {outlines others : List Outline}
  {outline : Outline}

theorem nil (order : first ≤ behind) : layout.Loose first behind [] :=
  ⟨Row.nil order, nofun⟩

theorem wider (loose : layout.Loose start middle outlines) (starts : first ≤ start)
    (upTo : middle ≤ behind) : layout.Loose first behind outlines :=
  ⟨loose.row.wider starts upTo, loose.comments⟩

theorem snoc (loose : layout.Loose first middle outlines)
    (covers : layout.Covers start stop outline) (starts : middle ≤ start) (upTo : stop ≤ behind) :
    layout.Loose first behind (outlines ++ [outline]) := by
  have less := covers.placed.less
  constructor
  · rw [List.filter_append]
    cases isComment : outline.isComment with
    | false =>
        rw [List.filter_cons_of_pos (by rw [isComment]; rfl), List.filter_nil]
        exact loose.row.append (Row.single covers starts upTo)
    | true =>
        rw [List.filter_cons_of_neg (by rw [isComment]; nofun), List.filter_nil, List.append_nil]
        exact loose.row.wider (Nat.le_refl _) (by omega)
  · intro child member isComment
    rcases List.mem_append.mp member with member | member
    · exact loose.comments child member isComment
    · rw [List.mem_singleton.mp member]
      exact ⟨covers.nests, covers.each⟩

theorem append_comments (loose : layout.Loose first behind outlines)
    (comments : ∀ child ∈ others,
      child.isComment = true ∧ child.Nests ∧ ∀ node ∈ child.nodes, layout.Holds node) :
    layout.Loose first behind (outlines ++ others) := by
  constructor
  · have none : others.filter (fun outline => !outline.isComment) = [] := by
      apply List.filter_eq_nil_iff.mpr
      intro child member kept
      rw [(comments child member).1] at kept
      cases kept
    rw [List.filter_append, none, List.append_nil]
    exact loose.row
  · intro child member isComment
    rcases List.mem_append.mp member with member | member
    · exact loose.comments child member isComment
    · exact (comments child member).2

theorem gathers (loose : layout.Loose first behind outlines)
    (inside : behind < layout.buffer.length) : layout.Gathers first behind outlines := by
  have kept := Gathers.of_row loose.row inside
  have isKept : ∀ child ∈ outlines, child.isComment = false →
      child ∈ outlines.filter fun outline => !outline.isComment := by
    intro child member notComment
    apply List.mem_filter.mpr
    exact ⟨member, by rw [notComment]; rfl⟩
  constructor
  · intro child member
    cases isComment : child.isComment with
    | false => exact kept.nests child (isKept child member isComment)
    | true => exact (loose.comments child member isComment).1
  · intro child member notComment
    exact kept.within child (isKept child member notComment) notComment
  · intro role
    have same : Outline.inRole role outlines =
        Outline.inRole role (outlines.filter fun outline => !outline.isComment) := by
      rw [Outline.inRole, Outline.inRole, List.filter_filter]
      apply List.filter_congr
      intro child _
      cases child.isComment <;> simp
    rw [same]
    exact kept.apart role
  · intro child member
    cases isComment : child.isComment with
    | false => exact kept.each child (isKept child member isComment)
    | true => exact (loose.comments child member isComment).2

end Layout.Loose

namespace Grammar

open Step Layout

variable {layout : Layout} {index first behind : Nat}

structure BodyItems.Lie (layout : Layout) (first behind : Nat) (items : BodyItems) : Prop where
  statements : layout.Loose first behind (Stmt.outlines "stmt" items.statements)
  workers : layout.Nodes Worker.outline first behind items.workers

namespace BodyItems.Lie

variable {middle : Nat} {items : BodyItems} (lie : items.Lie layout first behind)

include lie

theorem addStatement {statement : Stmt} {last : Nat}
    (isStatement : layout.Leading Stmt.outline behind last statement) :
    (items.addStatement statement).Lie layout first last := by
  obtain ⟨stop, upTo, isStatement⟩ := isStatement
  have less := (isStatement "").placed.less
  constructor
  · rw [Stmt.outlines_eq, BodyItems.addStatement, List.map_append, ← Stmt.outlines_eq]
    exact lie.statements.snoc (isStatement _) (Nat.le_refl _) upTo
  · exact fun role => (lie.workers role).wider (Nat.le_refl _) (by omega)

theorem addWorker {worker : Worker} {last : Nat}
    (isWorker : layout.Node Worker.outline behind last worker) :
    (items.addWorker worker).Lie layout first last := by
  have less := (isWorker "").placed.less
  constructor
  · exact lie.statements.wider (Nat.le_refl _) (by omega)
  · exact lie.workers.snoc isWorker (Nat.le_refl _) (Nat.le_refl _)

theorem addComments {comments : List Token}
    (proper : ∀ comment ∈ comments,
      comment.span.start < comment.span.stop ∧ layout.fits comment.span) :
    (items.addComments comments).Lie layout first behind := by
  constructor
  · rw [Stmt.outlines_eq, BodyItems.addComments, List.map_append, ← Stmt.outlines_eq]
    apply lie.statements.append_comments
    rintro child isChild
    obtain ⟨statement, isStatement, rfl⟩ := List.mem_map.mp isChild
    obtain ⟨comment, isComment, rfl⟩ := List.mem_map.mp isStatement
    obtain ⟨less, fits⟩ := proper comment isComment
    exact ⟨rfl, .node (Nat.le_of_lt less) (fun empty => absurd empty (Nat.ne_of_lt less)) nofun
      (fun _ => List.Pairwise.nil) nofun, Outline.forall_mem_nodes (.inl fits) nofun⟩
  · exact lie.workers

end BodyItems.Lie

def IsBody (layout : Layout) (first behind : Nat) (body : CallableBody) : Prop :=
  layout.Node CallableBody.outline first behind body ∧
    layout.Node Block.outline first behind body.toBlock

theorem over_block {block : Block} (isBlock : layout.Node Block.outline first behind block) :
    layout.Over first behind block.span := by
  cases block
  exact (isBlock "").placed

structure StmtParts.AreSpanned (layout : Layout) (parts : StmtParts) : Prop where
  exprParts : parts.toExprParts.AreSpanned layout
  body : ∀ kind index, layout.Spans index (parts.body kind) (IsBody layout index)
  eager : parts.AreEager fun _ => True

/-- What ends a statement does not belong to any node below it. -/
theorem endStatement_spans : layout.Spans index Step.endStatement fun _ _ => True :=
  .skipped .endStatement

section Parts

variable {parts : StmtParts} (spanned : parts.AreSpanned layout)

include spanned

theorem block_spans_of_parts : layout.Spans index parts.block (layout.Node Block.outline index) :=
  .mapped (spanned.body .block _) fun _ _ _ isBody => isBody.2

/-! ### Variables and assignments -/

theorem varDef_spans : layout.Spans index (varDef parts) (layout.Node VarDef.outline index) := by
  refine .bind (spanned.exprParts.typeName _) fun _ type _ isType => ?_
  have less := (isType "").placed.less
  refine .bind .identifier fun _ name _ ⟨rfl, isName⟩ => ?_
  refine .bind (.ifBehind (fun _ => initializer_spans spanned.exprParts) nofun)
    fun _ init order isInit => ?_
  refine .bind endStatement_spans fun _ _ _ _ => ?_
  refine .mapped (.spanFrom (over_type isType) (by omega)) fun _ span _ ⟨rfl, isSpan⟩ role => ?_
  exact .of_row isSpan (.cons (isType _) (Nat.le_refl _) (.cons (isName _) (by omega)
    ((isInit _).wider (by omega) (by omega))))

omit spanned in
theorem assign_spans {declares : Bool} {start : Span} {value : Step Expr} {stop : Nat}
    {targets : List Reference}
    (isStart : index + 1 < layout.buffer.length → layout.Over first stop start)
    (upTo : stop ≤ index + 1)
    (isTargets : layout.Nodes Reference.outline first index targets)
    (spans : ∀ index, layout.Spans index value (layout.Node Expr.outline index)) :
    layout.Spans index (do
      let _ ← expectSymbol .equal
      let value ← value
      let _ ← endStatement
      return .assign declares targets value (← spanFrom start))
      (layout.Leading Stmt.outline first) := by
  refine .bind (.symbol _) fun _ _ _ ⟨here, isEqual⟩ => ?_
  refine .bind (spans _) fun _ value _ isValue => ?_
  have less := (isValue "").placed.less
  refine .bind endStatement_spans fun _ _ order _ => ?_
  refine .mapped (.spanFrom (isStart (here ▸ isEqual.inside)) (by omega)) fun _ span _ ⟨rfl, isSpan⟩ => ?_
  refine ⟨_, Nat.le_refl _, fun role => ?_⟩
  exact .of_row isSpan ((isTargets _).append (.single (isValue _) (by omega) (by omega)))

theorem varAssignment_spans :
    layout.Spans index (varAssignment parts) (layout.Leading Stmt.outline index) := by
  refine .bind (.keyword _) fun _ word _ ⟨rfl, isWord⟩ => ?_
  refine .bind (references_spans spanned.exprParts) fun _ targets order isTargets => ?_
  exact assign_spans (fun _ => isWord) (by omega)
    (fun role => (isTargets role).wider (by omega) (Nat.le_refl _))
    fun _ => initializer_spans spanned.exprParts

omit spanned in
/-- Targets are laid as the expressions that they have been read as. -/
theorem assignmentTargets_spans {exprs : List Expr}
    (isExprs : layout.Nodes Expr.outline first index exprs) :
    layout.Spans index (assignmentTargets exprs) fun behind targets =>
      behind = index ∧ layout.Nodes Reference.outline first index targets := by
  unfold assignmentTargets
  split
  · exact .fail _
  · rename_i all
    refine .pure ⟨rfl, fun role => ?_⟩
    have same : (exprs.filterMap Expr.reference?).map (Reference.outline role) =
        exprs.map (Expr.outline role) := by
      clear isExprs
      induction exprs with
      | nil => rfl
      | cons expr exprs ih =>
          rw [List.find?_eq_none] at all
          have here := all expr List.mem_cons_self
          have rest := ih (List.find?_eq_none.mpr fun other member =>
            all other (List.mem_cons_of_mem _ member))
          cases expr with
          | reference target => exact congrArg (target.outline role :: ·) rest
          | _ => exact absurd rfl here
    rw [same]
    exact isExprs role

section Ends

variable {expr : Expr} {others : List Expr} {stop : Nat}
  (isExpr : layout.Node Expr.outline first stop expr)
  (isOthers : layout.Nodes Expr.outline stop index others)

include isExpr isOthers

omit spanned in
theorem nodes_of_cons : layout.Nodes Expr.outline first index (expr :: others) :=
  fun role => .cons (isExpr role) (Nat.le_refl _) (isOthers role)

theorem assignmentEnd_spans :
    layout.Spans index (assignmentEnd parts expr others) (layout.Leading Stmt.outline first) := by
  have order := (isOthers "").le
  apply Spans.bind (assignmentTargets_spans (nodes_of_cons isExpr isOthers))
  rintro behind targets - ⟨rfl, isTargets⟩
  exact assign_spans (fun _ => over_expr isExpr) (by omega) isTargets
    fun _ => initializer_spans spanned.exprParts

omit spanned isExpr isOthers in
theorem sendTarget_spans : layout.Spans index sendTarget (layout.Node SendTarget.outline index) := by
  refine .bind (.eat? _ nofun) fun behind found order isFound => ?_
  obtain ⟨rfl, rfl⟩ | ⟨word, rfl, rfl, placed⟩ := isFound
  · exact .mapped .identifier fun _ name _ ⟨_, isName⟩ role => isName role
  · exact .pure fun role => .leaf placed

omit spanned in
theorem sendEnd_spans :
    layout.Spans index (sendEnd expr others) (layout.Leading Stmt.outline first) := by
  have order := (isOthers "").le
  refine .bind (.symbol _) fun _ _ _ ⟨rfl, _⟩ => ?_
  refine .bind sendTarget_spans fun _ target _ isTarget => ?_
  have less := (isTarget "").placed.less
  refine .bind endStatement_spans fun _ _ order _ => ?_
  refine .mapped (.spanFrom (over_expr isExpr) (by omega)) fun _ span _ ⟨rfl, isSpan⟩ => ?_
  refine ⟨_, Nat.le_refl _, fun role => ?_⟩
  exact .of_row isSpan ((nodes_of_cons isExpr isOthers _).append
    (.single (isTarget _) (by omega) (by omega)))

omit spanned in
theorem receiveEnd_spans :
    layout.Spans index (receiveEnd expr others) (layout.Leading Stmt.outline first) := by
  have order := (isOthers "").le
  apply Spans.bind (assignmentTargets_spans (nodes_of_cons isExpr isOthers))
  rintro behind - - ⟨rfl, -⟩
  refine .bind (.symbol _) fun _ _ _ ⟨rfl, _⟩ => ?_
  refine .bind .identifier fun _ worker _ ⟨rfl, isWorker⟩ => ?_
  refine .bind endStatement_spans fun _ _ order _ => ?_
  refine .mapped (.spanFrom (over_expr isExpr) (by omega)) fun _ span _ ⟨rfl, isSpan⟩ => ?_
  refine ⟨_, Nat.le_refl _, fun role => ?_⟩
  exact .of_row isSpan ((nodes_of_cons isExpr isOthers _).append
    (.single (isWorker _) (by omega) (by omega)))

omit spanned in
/-- A call goes up to its closing parenthesis, not over the semicolon. -/
theorem callEnd_spans :
    layout.Spans index (callEnd expr others) (layout.Leading Stmt.outline first) := by
  have order := (isOthers "").le
  unfold callEnd
  split
  · exact .mapped endStatement_spans fun _ _ _ _ => ⟨stop, by omega, isExpr⟩
  · exact .fail _

theorem exprStatementEnd_spans :
    layout.Spans index (exprStatementEnd parts expr others)
      (layout.Leading Stmt.outline first) := by
  refine .current fun kind _ => ?_
  split
  · exact assignmentEnd_spans spanned isExpr isOthers
  · exact sendEnd_spans isExpr isOthers
  · exact receiveEnd_spans isExpr isOthers
  · exact callEnd_spans isExpr isOthers

end Ends

theorem moreExpressions_spans :
    layout.Spans index (moreExpressions parts) (layout.Nodes Expr.outline index) := by
  refine .bind (.weaken (.eat _ nofun) fun _ _ order _ => order) fun _ _ order _ => ?_
  refine .ite (fun _ => ?_) fun _ => .pure (.nil order)
  exact .weaken (expressions_spans spanned.exprParts) fun _ _ _ nodes role =>
    (nodes role).wider order (Nat.le_refl _)

theorem exprStatement_spans :
    layout.Spans index (exprStatement parts) (layout.Leading Stmt.outline index) := by
  refine .current fun _ _ => .ite (fun _ => ?_) fun _ => .failAt _
  refine .bind (anyExpr_spans spanned.exprParts) fun last expr _ isExpr => ?_
  exact .bind (moreExpressions_spans spanned) fun _ others _ isOthers =>
    exprStatementEnd_spans spanned isExpr isOthers

/-! ### Control flow -/

omit spanned in
theorem wordStatement_spans {word : Keyword} {make : Span → Stmt}
    (outlined : ∀ span role, ∃ kind, (make span).outline role = Outline.leaf role kind span []) :
    layout.Spans index (wordStatement word make) (layout.Leading Stmt.outline index) := by
  refine .bind (.keyword _) fun _ word _ ⟨rfl, isWord⟩ => ?_
  refine .bind endStatement_spans fun _ _ order _ => ?_
  refine .mapped (.spanFrom isWord (by omega)) fun _ span _ ⟨rfl, isSpan⟩ => ?_
  refine ⟨_, Nat.le_refl _, fun role => ?_⟩
  obtain ⟨kind, same⟩ := outlined span role
  rw [same]
  exact .leaf isSpan

theorem valueStatement_spans {word : Keyword} {make : Expr → Span → Stmt}
    (outlined : ∀ value span role, ∃ kind, (make value span).outline role =
      .node role kind span [] [value.outline "value"]) :
    layout.Spans index (valueStatement parts word make) (layout.Leading Stmt.outline index) := by
  refine .bind (.keyword _) fun _ word _ ⟨rfl, isWord⟩ => ?_
  refine .bind (anyExpr_spans spanned.exprParts) fun _ value _ isValue => ?_
  have less := (isValue "").placed.less
  refine .bind endStatement_spans fun _ _ order _ => ?_
  refine .mapped (.spanFrom isWord (by omega)) fun _ span _ ⟨rfl, isSpan⟩ => ?_
  refine ⟨_, Nat.le_refl _, fun role => ?_⟩
  obtain ⟨kind, same⟩ := outlined value span role
  rw [same]
  exact .of_row isSpan (.single (isValue _) (by omega) (by omega))

theorem elseIf_spans {start : Token} {stop : Nat} (isStart : layout.Over first stop start.span)
    (upTo : stop ≤ index) :
    layout.Spans index (elseIf parts start) (layout.Node ElseIf.outline first) := by
  have less := isStart.less
  refine .bind (condition_spans spanned.exprParts) fun _ condition _ ⟨last, here, isCondition⟩ => ?_
  have lessCondition := (isCondition "").placed.less
  refine .mapped (block_spans_of_parts spanned) fun _ block _ isBlock role => ?_
  have lessBlock := (isBlock "").placed.less
  exact .of_row (isStart.merge (over_block isBlock) (by omega) (by omega))
    (.cons (isCondition _) (by omega) (.single (isBlock _) (by omega) (Nat.le_refl _)))

/-- The branches of an `if` stand one behind the other, a plain `else` behind all others. -/
theorem elseBranches_spans : layout.Spans index (elseBranches parts) fun behind found =>
    ∃ middle, layout.Nodes ElseIf.outline index middle found.1 ∧
      layout.Optional Block.outline middle behind found.2 := by
  let holds (behind : Nat) (found : List ElseIf × Option Block) : Prop :=
    layout.Nodes ElseIf.outline index behind found.1 ∧ found.2 = none
  have start : holds index ([], none) := ⟨.nil (Nat.le_refl _), rfl⟩
  apply Spans.loopTo start
  · rintro behind ⟨branches, _⟩ order ⟨isBranches, rfl⟩
    refine .bind (.eat? _ nofun) fun middle found orderWord isFound => ?_
    obtain ⟨rfl, rfl⟩ | ⟨word, rfl, rfl, isWord⟩ := isFound
    · exact .done ⟨_, isBranches, .none (Nat.le_refl _)⟩
    · refine .bind (.weaken (.eat _ nofun) fun _ _ order _ => order) fun _ _ orderIf _ => ?_
      refine .ite (fun _ => ?_) fun _ => ?_
      · exact .yielded (elseIf_spans spanned isWord orderIf) fun _ branch _ isBranch =>
          ⟨isBranches.snoc isBranch (Nat.le_refl _) (Nat.le_refl _), rfl⟩
      · exact .mapped (block_spans_of_parts spanned) fun _ block _ isBlock =>
          ⟨_, isBranches, .some isBlock (by omega) (Nat.le_refl _)⟩
  · rintro behind ⟨branches, _⟩ ⟨isBranches, rfl⟩
    exact ⟨_, isBranches, .none (Nat.le_refl _)⟩

theorem ifStatement_spans :
    layout.Spans index (ifStatement parts) (layout.Leading Stmt.outline index) := by
  refine .bind (.keyword _) fun _ word _ ⟨rfl, isWord⟩ => ?_
  refine .bind (condition_spans spanned.exprParts) fun _ condition _ ⟨last, here, isCondition⟩ => ?_
  refine .bind (block_spans_of_parts spanned) fun _ block order isBlock => ?_
  refine .bind (elseBranches_spans spanned) fun _ found _ ⟨middle, isBranches, isElse⟩ => ?_
  have orderElse := (isElse "").le
  have orderBranches := (isBranches "").le
  refine .mapped (.spanFrom isWord (by omega)) fun _ span _ ⟨rfl, isSpan⟩ => ?_
  refine ⟨_, Nat.le_refl _, fun role => .of_row isSpan ?_⟩
  have isRest := (isBranches "else_if").append (isElse "else")
  rw [← ElseIf.outlines_eq, ← Block.outlines_eq] at isRest
  exact .cons (isCondition _) (by omega) (.cons (isBlock _) (by omega) isRest)

theorem iterateStatement_spans :
    layout.Spans index (iterateStatement parts) (layout.Leading Stmt.outline index) := by
  refine .bind (.keyword _) fun _ word _ ⟨rfl, isWord⟩ => ?_
  refine .bind (.symbol _) fun _ _ _ ⟨rfl, _⟩ => ?_
  refine .bind (spanned.exprParts.typeName _) fun _ type _ isType => ?_
  have lessType := (isType "").placed.less
  refine .bind .identifier fun _ name _ ⟨rfl, isName⟩ => ?_
  refine .bind (.symbol _) fun _ _ _ ⟨rfl, _⟩ => ?_
  refine .bind (anyExpr_spans spanned.exprParts) fun _ collection _ isCollection => ?_
  have less := (isCollection "").placed.less
  refine .bind (.symbol _) fun _ _ _ ⟨rfl, _⟩ => ?_
  refine .mapped (block_spans_of_parts spanned) fun _ body _ isBlock => ?_
  have lessBody := (isBlock "").placed.less
  refine ⟨_, Nat.le_refl _, fun role => ?_⟩
  exact .of_row (isWord.merge (over_block isBlock) (by omega) (by omega))
    (.cons (isType _) (by omega) (.cons (isName _) (by omega) (.cons (isCollection _) (by omega)
      (.single (isBlock _) (by omega) (Nat.le_refl _)))))

theorem whileStatement_spans :
    layout.Spans index (whileStatement parts) (layout.Leading Stmt.outline index) := by
  refine .bind (.keyword _) fun _ word _ ⟨rfl, isWord⟩ => ?_
  refine .bind (condition_spans spanned.exprParts) fun _ condition _ ⟨last, here, isCondition⟩ => ?_
  have lessCondition := (isCondition "").placed.less
  refine .mapped (block_spans_of_parts spanned) fun _ body _ isBlock => ?_
  have lessBody := (isBlock "").placed.less
  refine ⟨_, Nat.le_refl _, fun role => ?_⟩
  exact .of_row (isWord.merge (over_block isBlock) (by omega) (by omega))
    (.cons (isCondition _) (by omega) (.single (isBlock _) (by omega) (Nat.le_refl _)))

theorem returnStatement_spans :
    layout.Spans index (returnStatement parts) (layout.Leading Stmt.outline index) := by
  refine .bind (.keyword _) fun _ word _ ⟨rfl, isWord⟩ => ?_
  have isValues (start : Nat) : layout.Spans start (returnValues parts)
      (layout.Nodes Expr.outline start) :=
    .current fun _ _ => .ite (fun _ => expressions_spans spanned.exprParts) fun _ =>
      .pure (.nil (Nat.le_refl _))
  refine .bind (isValues _) fun _ values order isValues => ?_
  refine .bind endStatement_spans fun _ _ _ _ => ?_
  refine .mapped (.spanFrom isWord (by omega)) fun _ span _ ⟨rfl, isSpan⟩ => ?_
  refine ⟨_, Nat.le_refl _, fun role => ?_⟩
  exact .of_row isSpan ((isValues _).wider (by omega) (by omega))

/-! ### Workers, forks and joins -/

omit spanned in
theorem over_body {body : CallableBody} (isBody : IsBody layout first behind body) :
    layout.Over first behind body.span := by
  cases body
  exact (isBody.1 "").placed

theorem worker_spans : layout.Spans index (worker parts) (layout.Node Worker.outline index) := by
  refine .bind (.keyword _) fun _ word _ ⟨rfl, isWord⟩ => ?_
  refine .bind .identifier fun _ name _ ⟨rfl, isName⟩ => ?_
  refine .mapped (spanned.body _ _) fun _ body _ isBody role => ?_
  have less := (over_body isBody).less
  exact .of_row (isWord.merge (over_body isBody) (by omega) (by omega))
    (.cons (isName _) (by omega) (.single (isBody.1 _) (by omega) (Nat.le_refl _)))

/-- A broken worker leaves nothing. -/
theorem forkWorkers_spans :
    layout.Spans index (forkWorkers parts) (layout.Nodes Worker.outline index) := by
  refine .loop (.nil (Nat.le_refl _)) fun behind workers order isWorkers => ?_
  refine .current fun kind more => .ite (fun _ => .done isWorkers) fun inside => ?_
  have isWorker : layout.Spans behind (forkWorker parts) (layout.Node Worker.outline behind) :=
    .check fun _ => .ite (fun _ => worker_spans spanned) fun _ => .peek fun _ _ => .fail _
  refine .yielded (.orRecover (more (startsDefinition_of_endsBody inside).2) ?_
    (.mapped isWorker fun _ _ _ isWorker => ?_) fun last _ placed => ?_) fun _ _ _ isNext => isNext
  · exact .bind (forkWorker_eager spanned.eager).orderly fun _ => .pure _
  · exact isWorkers.snoc isWorker (Nat.le_refl _) (Nat.le_refl _)
  · have less := placed.less
    exact fun role => (isWorkers role).wider (Nat.le_refl _) (by omega)

omit spanned in
theorem workerNames_spans :
    layout.Spans index workerNames (layout.Nodes Identifier.outline index) := by
  refine .check fun _ => .ite (fun _ => ?_) fun _ => .pure (.nil (Nat.le_refl _))
  exact .commaSeparated fun _ => .weaken .identifier fun _ _ _ isName => isName.2

omit spanned in
theorem everyOf_spans {word : Token} {stop : Nat} (isWord : layout.Over first stop word.span)
    (upTo : stop ≤ index) :
    layout.Spans index (everyOf word) (layout.Node JoinCondition.outline first) := by
  have less := isWord.less
  refine .bind workerNames_spans fun _ names order isNames => ?_
  refine .mapped (.spanFrom isWord (by omega)) fun _ span _ ⟨rfl, isSpan⟩ role => ?_
  exact .of_row isSpan ((isNames _).wider (by omega) (by omega))

omit spanned in
theorem firstOf_spans {word : Token} {stop : Nat} (isWord : layout.Over first stop word.span)
    (upTo : stop ≤ index) :
    layout.Spans index (firstOf word) (layout.Node JoinCondition.outline first) := by
  have less := isWord.less
  refine .bind (.expect _ nofun) fun _ number _ ⟨rfl, _⟩ => ?_
  split
  · exact .fail _
  · refine .bind workerNames_spans fun _ names order isNames => ?_
    refine .mapped (.spanFrom isWord (by omega)) fun _ span _ ⟨rfl, isSpan⟩ role => ?_
    exact .of_row isSpan ((isNames _).wider (by omega) (by omega))

omit spanned in
theorem joinCondition_spans :
    layout.Spans index joinCondition (layout.Node JoinCondition.outline index) := by
  refine .advance (fun ends ran => ?_) fun word isWord => ?_
  · simp only [ends] at ran
    exact absurd ran fail_ne_ok
  · split
    · exact firstOf_spans isWord (Nat.le_refl _)
    · exact firstOf_spans isWord (Nat.le_refl _)
    · exact everyOf_spans isWord (Nat.le_refl _)
    · exact .fail _

omit spanned in
theorem bracketedCondition_spans :
    layout.Spans index bracketedCondition (layout.Optional JoinCondition.outline index) := by
  refine .look _ isJoinCondition_eq fun _ _ => .ite (fun _ => ?_) fun _ =>
    .pure (.none (Nat.le_refl _))
  refine .bind (.symbol _) fun _ _ _ ⟨rfl, _⟩ => ?_
  refine .bind joinCondition_spans fun _ condition _ isCondition => ?_
  refine .mapped (.symbol _) fun _ _ _ ⟨rfl, _⟩ => ?_
  exact .some isCondition (by omega) (by omega)

theorem clauseBinding_spans : layout.Spans index (clauseBinding parts) fun behind found =>
    ∃ middle last, layout.Node TypeName.outline (index + 1) middle found.1 ∧
      layout.Node Identifier.outline middle last found.2 ∧ behind = last + 1 := by
  refine .bind (.symbol _) fun _ _ _ ⟨rfl, _⟩ => ?_
  refine .bind (spanned.exprParts.typeName _) fun _ type _ isType => ?_
  refine .bind .identifier fun _ name _ ⟨_, isName⟩ => ?_
  exact .mapped (.symbol _) fun _ _ _ ⟨isBehind, _⟩ => ⟨_, _, isType, isName, isBehind⟩

theorem joinClause_spans :
    layout.Spans index (joinClause parts) (layout.Node Join.outline index) := by
  refine .bind (.keyword _) fun _ word _ ⟨rfl, isWord⟩ => ?_
  refine .bind bracketedCondition_spans fun _ condition order isCondition => ?_
  refine .bind (clauseBinding_spans spanned) fun _ found _ isFound => ?_
  obtain ⟨middle, last, isType, isName, rfl⟩ := isFound
  have lessType := (isType "").placed.less
  have lessName := (isName "").placed.less
  refine .mapped (block_spans_of_parts spanned) fun _ body _ isBlock role => ?_
  have less := (over_block isBlock).less
  exact .of_row (isWord.merge (over_block isBlock) (by omega) (by omega))
    (((isCondition _).wider (by omega) (Nat.le_refl _)).append
      (.cons (isType _) (by omega) (.cons (isName _) (Nat.le_refl _)
        (.single (isBlock _) (by omega) (Nat.le_refl _)))))

theorem timeoutClause_spans :
    layout.Spans index (timeoutClause parts) (layout.Node Timeout.outline index) := by
  refine .bind (.keyword _) fun _ word _ ⟨rfl, isWord⟩ => ?_
  refine .bind (condition_spans spanned.exprParts) fun _ timeout _ ⟨stop, here, isTimeout⟩ => ?_
  have lessTimeout := (isTimeout "").placed.less
  refine .bind (clauseBinding_spans spanned) fun _ found _ isFound => ?_
  obtain ⟨middle, last, isType, isName, rfl⟩ := isFound
  have lessType := (isType "").placed.less
  have lessName := (isName "").placed.less
  refine .mapped (block_spans_of_parts spanned) fun _ body _ isBlock role => ?_
  have less := (over_block isBlock).less
  exact .of_row (isWord.merge (over_block isBlock) (by omega) (by omega))
    (.cons (isTimeout _) (by omega) (.cons (isType _) (by omega) (.cons (isName _) (Nat.le_refl _)
      (.single (isBlock _) (by omega) (Nat.le_refl _)))))

theorem forkStatement_spans :
    layout.Spans index (forkStatement parts) (layout.Leading Stmt.outline index) := by
  refine .bind (.keyword _) fun _ word _ ⟨rfl, isWord⟩ => ?_
  refine .bind (.symbol _) fun _ _ _ ⟨rfl, _⟩ => ?_
  refine .bind (forkWorkers_spans spanned) fun _ workers order isWorkers => ?_
  refine .bind .closeBrace fun _ _ orderClose _ => ?_
  refine .bind (.ifAt fun _ => joinClause_spans spanned) fun _ join orderJoin isJoin => ?_
  refine .bind (.ifAt fun _ => timeoutClause_spans spanned) fun _ timeout _ isTimeout => ?_
  refine .mapped (.spanFrom isWord (by omega)) fun _ span _ ⟨rfl, isSpan⟩ => ?_
  refine ⟨_, Nat.le_refl _, fun role => .of_row isSpan ?_⟩
  have isRow := ((isWorkers "worker").append ((isJoin "join").wider orderClose (Nat.le_refl _))).append
    (isTimeout "timeout")
  rw [← Worker.outlines_eq, ← Join.outlines_eq, ← Timeout.outlines_eq] at isRow
  exact isRow.wider (by omega) (by omega)

/-! ### Try and transaction -/

theorem catchClause_spans :
    layout.Spans index (catchClause parts) (layout.Node Catch.outline index) := by
  refine .bind (.keyword _) fun _ word _ ⟨rfl, isWord⟩ => ?_
  refine .bind (clauseBinding_spans spanned) fun _ found _ isFound => ?_
  obtain ⟨middle, last, isType, isName, rfl⟩ := isFound
  have lessType := (isType "").placed.less
  have lessName := (isName "").placed.less
  refine .mapped (block_spans_of_parts spanned) fun _ body _ isBlock role => ?_
  have less := (over_block isBlock).less
  exact .of_row (isWord.merge (over_block isBlock) (by omega) (by omega))
    (.cons (isType _) (by omega) (.cons (isName _) (Nat.le_refl _)
      (.single (isBlock _) (by omega) (Nat.le_refl _))))

theorem tryStatement_spans :
    layout.Spans index (tryStatement parts) (layout.Leading Stmt.outline index) := by
  refine .bind (.keyword _) fun _ word _ ⟨rfl, isWord⟩ => ?_
  refine .bind (block_spans_of_parts spanned) fun _ body order isBlock => ?_
  have less := (over_block isBlock).less
  refine .bind (.whileAt fun _ => catchClause_spans spanned) fun _ catches _ isCatches => ?_
  refine .bind (.ifBehind (fun _ => block_spans_of_parts spanned) nofun)
    fun _ finallyBlock _ isFinally => ?_
  refine .bind (.spanFrom isWord (by omega)) fun _ span _ ⟨isLast, isSpan⟩ => ?_
  refine .mapped (.skipped (checkClauses_orderly _ _ _)) fun _ _ order _ => ?_
  refine ⟨_, isLast ▸ order, fun role => .of_row isSpan ?_⟩
  have isRow := (isCatches "catch").append (isFinally "finally")
  rw [← Catch.outlines_eq, ← Block.outlines_eq] at isRow
  exact .cons (isBlock _) (by omega) (isRow.wider (by omega) (by omega))

theorem handlers_spans : layout.Spans index (handlers parts) fun behind found =>
    layout.Optional Block.outline index behind found.aborted ∧
      layout.Optional Block.outline index behind found.committed := by
  have isHandler {behind : Nat} {found : Handlers} (isAborted : Bool) (order : index ≤ behind)
      (isFound : layout.Optional Block.outline index behind found.aborted ∧
        layout.Optional Block.outline index behind found.committed) :
      layout.Spans behind (handler parts isAborted found) fun last next =>
        layout.Optional Block.outline index last next.aborted ∧
          layout.Optional Block.outline index last next.committed := by
    refine .bind (.keyword _) fun _ _ _ ⟨rfl, _⟩ => ?_
    refine .bind (block_spans_of_parts spanned) fun _ block _ isBlock => ?_
    have less := (over_block isBlock).less
    have wider {found : Option Block} {last : Nat} (upTo : behind ≤ last)
        (isFound : layout.Optional Block.outline index behind found) :
        layout.Optional Block.outline index last found :=
      fun role => (isFound role).wider (Nat.le_refl _) upTo
    refine .ite (fun _ => ?_) fun _ => .pure ?_
    · exact .mapped (.skipped (.report ⟨rfl, nofun⟩)) fun _ _ _ _ =>
        ⟨wider (by omega) isFound.1, wider (by omega) isFound.2⟩
    · cases isAborted with
      | true => exact ⟨.some isBlock (by omega) (Nat.le_refl _), wider (by omega) isFound.2⟩
      | false => exact ⟨wider (by omega) isFound.1, .some isBlock (by omega) (Nat.le_refl _)⟩
  refine .loop ⟨.none (Nat.le_refl _), .none (Nat.le_refl _)⟩ fun behind found order isFound => ?_
  refine .check fun _ => .ite (fun _ => ?_) fun _ => .check fun _ => .ite (fun _ => ?_) fun _ => ?_
  · exact .yielded (isHandler true order isFound) fun _ _ _ isNext => isNext
  · exact .yielded (isHandler false order isFound) fun _ _ _ isNext => isNext
  · exact .done isFound

theorem transactionStatement_spans :
    layout.Spans index (transactionStatement parts) (layout.Leading Stmt.outline index) := by
  refine .bind (.keyword _) fun _ word _ ⟨rfl, isWord⟩ => ?_
  refine .bind (block_spans_of_parts spanned) fun middle body order isBlock => ?_
  have less := (over_block isBlock).less
  refine .bind (handlers_spans spanned) fun last found _ ⟨isAborted, isCommitted⟩ => ?_
  refine .mapped (.spanFrom isWord (by omega)) fun _ span _ ⟨rfl, isSpan⟩ => ?_
  refine ⟨_, Nat.le_refl _, fun role => .node isSpan ?_⟩
  rw [Block.outlines_eq, Block.outlines_eq]
  have isRow : layout.Row index _ _ :=
    .cons (isBlock "body") (by omega) (isAborted "aborted")
  apply Gathers.append (.of_row isRow isSpan.inside)
    (.of_row ((isCommitted _).wider (by omega) (Nat.le_refl _)) isSpan.inside)
  intro left isLeft right isRight
  rw [Outline.role_of_mem_optional (Block.role_outline · _) isRight]
  rcases List.mem_cons.mp isLeft with rfl | isLeft
  · rw [Block.role_outline]
    decide
  · rw [Outline.role_of_mem_optional (Block.role_outline · _) isLeft]
    decide

/-! ### Transform -/

theorem transformStatement_spans :
    layout.Spans index (transformStatement parts) (layout.Leading Stmt.outline index) := by
  refine .bind (.keyword _) fun _ word _ ⟨rfl, isWord⟩ => ?_
  refine .mapped (spanned.body _ _) fun _ body _ isBody => ?_
  have less := (over_body isBody).less
  refine ⟨_, Nat.le_refl _, fun role => ?_⟩
  exact .of_row (isWord.merge (over_body isBody) (by omega) (by omega))
    (.single (isBody.2 _) (by omega) (Nat.le_refl _))

theorem transformVarDef_spans :
    layout.Spans index (transformVarDef parts) (layout.Leading Stmt.outline index) := by
  refine .bind (spanned.exprParts.typeName _) fun _ type _ isType => ?_
  have less := (isType "").placed.less
  refine .bind .identifier fun _ name _ ⟨rfl, isName⟩ => ?_
  refine .bind (.symbol _) fun _ _ _ ⟨rfl, _⟩ => ?_
  refine .bind (anyExpr_spans spanned.exprParts) fun _ init _ isInit => ?_
  have lessInit := (isInit "").placed.less
  refine .bind endStatement_spans fun _ _ _ _ => ?_
  refine .mapped (.spanFrom (over_type isType) (by omega)) fun _ span _ ⟨rfl, isSpan⟩ => ?_
  refine ⟨_, Nat.le_refl _, fun role => ?_⟩
  exact .of_row isSpan (.cons (isType _) (Nat.le_refl _) (.cons (isName _) (by omega)
    (.single (isInit _) (by omega) (by omega))))

theorem transformAssignment_spans :
    layout.Spans index (transformAssignment parts) (layout.Leading Stmt.outline index) := by
  refine .peek fun token isToken => ?_
  refine .bind (references_spans spanned.exprParts) fun _ targets order isTargets => ?_
  exact assign_spans (fun inside => isToken (by omega)) (by omega) isTargets
    fun _ => anyExpr_spans spanned.exprParts

theorem transformItem_spans :
    layout.Spans index (transformItem parts) (layout.Leading Stmt.outline index) := by
  refine .check fun _ => .ite (fun _ => transformStatement_spans spanned) fun _ => ?_
  refine .isVarDef fun _ => .ite (fun _ => transformVarDef_spans spanned) fun _ => ?_
  exact .check fun _ => .ite (fun _ => transformAssignment_spans spanned) fun _ => .failAt _

/-! ### Statements and bodies -/

omit spanned in
theorem namespaceDecl_spans :
    layout.Spans index namespaceDecl (layout.Node NamespaceDecl.outline index) := by
  refine .bind (.keyword _) fun _ word _ ⟨rfl, isWord⟩ => ?_
  refine .bind (.expect _ nofun) fun _ uri _ ⟨rfl, _⟩ => ?_
  refine .bind (.ifBehind (fun _ => .weaken .identifier fun _ _ _ isName => isName.2) nofun)
    fun _ localName order isName => ?_
  refine .bind endStatement_spans fun _ _ _ _ => ?_
  refine .mapped (.spanFrom isWord (by omega)) fun _ span _ ⟨rfl, isSpan⟩ role => ?_
  exact .of_row isSpan ((isName _).wider (by omega) (by omega))

/-- An invocation goes up to its closing parenthesis, not over the semicolon. -/
theorem invocationStatement_spans :
    layout.Spans index (invocationStatement parts) (layout.Leading Stmt.outline index) := by
  refine .bind (invocation_spans spanned.exprParts) fun last _ _ isInvocation => ?_
  exact .mapped endStatement_spans fun _ _ order _ => ⟨last, order, isInvocation⟩

theorem plainStatement_spans :
    layout.Spans index (plainStatement parts) (layout.Leading Stmt.outline index) := by
  refine .isVarDef fun _ => .ite (fun _ => ?_) fun _ => ?_
  · exact .mapped (varDef_spans spanned) fun _ _ _ isDef => ⟨_, Nat.le_refl _, isDef⟩
  · exact .look _ isInvocation_eq fun _ _ =>
      .ite (fun _ => invocationStatement_spans spanned) fun _ => exprStatement_spans spanned

theorem statementWith_spans :
    layout.Spans index (statementWith parts) (layout.Leading Stmt.outline index) := by
  refine .current fun kind _ => ?_
  split
  · exact varAssignment_spans spanned
  · exact ifStatement_spans spanned
  · exact iterateStatement_spans spanned
  · exact whileStatement_spans spanned
  · exact wordStatement_spans fun _ _ => ⟨_, rfl⟩
  · exact wordStatement_spans fun _ _ => ⟨_, rfl⟩
  · exact wordStatement_spans fun _ _ => ⟨_, rfl⟩
  · exact forkStatement_spans spanned
  · exact tryStatement_spans spanned
  · exact valueStatement_spans spanned fun _ _ _ => ⟨_, rfl⟩
  · exact returnStatement_spans spanned
  · exact valueStatement_spans spanned fun _ _ _ => ⟨_, rfl⟩
  · exact transformStatement_spans spanned
  · exact transactionStatement_spans spanned
  · exact .mapped namespaceDecl_spans fun _ _ _ isDecl => ⟨_, Nat.le_refl _, isDecl⟩
  · exact plainStatement_spans spanned

theorem bodyItem_spans {kind : BodyKind} {items : BodyItems} (lie : items.Lie layout first index) :
    layout.Spans index (bodyItem parts kind items) (BodyItems.Lie layout first) := by
  refine .check fun _ => .ite (fun _ => .ite (fun _ => ?_) fun _ => ?_) fun _ =>
    .ite (fun _ => ?_) fun _ => ?_
  · exact .mapped (worker_spans spanned) fun _ _ _ isWorker => lie.addWorker isWorker
  · exact .peek fun _ _ => .fail _
  · exact .mapped (transformItem_spans spanned) fun _ _ _ isStatement => lie.addStatement isStatement
  · exact .mapped (statementWith_spans spanned) fun _ _ _ isStatement => lie.addStatement isStatement

theorem bodyItems_spans (kind : BodyKind) :
    layout.Spans index (bodyItems parts kind) (BodyItems.Lie layout index) := by
  apply Spans.loop ⟨.nil (Nat.le_refl _), .nil (Nat.le_refl _)⟩
  intro behind items order lie
  apply Spans.bind .takeComments
  rintro last comments - ⟨rfl, proper⟩
  have lie := lie.addComments proper
  refine .current fun kind more => .ite (fun _ => .done lie) fun inside => ?_
  refine .yielded (.orRecover (more (startsDefinition_of_endsBody inside).2)
    (bodyItem_eager spanned.eager _ _).orderly (bodyItem_spans spanned lie) fun behind _ placed => ?_)
    fun _ _ _ isNext => isNext
  exact lie.addStatement ⟨behind, Nat.le_refl _, fun _ => .leaf placed⟩

theorem bodyWith_spans (kind : BodyKind) :
    layout.Spans index (bodyWith parts kind) (IsBody layout index) := by
  refine .bind (.symbol _) fun _ open_ _ ⟨rfl, isOpen⟩ => ?_
  refine .bind (bodyItems_spans spanned kind) fun last items _ lie => ?_
  refine .bind .closeBrace fun _ close orderClose isClose => ?_
  refine .mapped (.spanFrom isOpen (by omega)) fun _ span _ ⟨rfl, isSpan⟩ => ?_
  -- Statements and workers may be mixed, but each of the two lists is in order.
  have inside := isSpan.inside
  have statements : layout.Gathers index _ _ :=
    (lie.statements.wider (by omega) orderClose).gathers inside
  have workers : layout.Gathers index _ _ :=
    .of_row ((lie.workers "worker").wider (by omega) orderClose) inside
  have closes := isClose "close" index (by omega)
  have roleOfStatement (child : Outline)
      (member : child ∈ items.statements.map (Stmt.outline "stmt")) : child.role = "stmt" :=
    Outline.role_of_mem_each (Stmt.role_outline · _) member
  rw [Stmt.outlines_eq] at statements
  constructor
  · refine fun role => .node isSpan ?_
    rw [Stmt.outlines_eq, Worker.outlines_eq]
    apply Gathers.append (statements.append workers ?_) closes
    · intro left isLeft right isRight
      rw [List.mem_singleton.mp isRight]
      rcases List.mem_append.mp isLeft with isLeft | isLeft
      · rw [roleOfStatement left isLeft]
        change "stmt" ≠ "close"
        decide
      · rw [Outline.role_of_mem_each (Worker.role_outline · _) isLeft]
        change "worker" ≠ "close"
        decide
    · intro left isLeft right isRight
      rw [roleOfStatement left isLeft, Outline.role_of_mem_each (Worker.role_outline · _) isRight]
      decide
  · refine fun role => .node isSpan ?_
    rw [Stmt.outlines_eq]
    apply statements.append closes
    intro left isLeft right isRight
    rw [List.mem_singleton.mp isRight, roleOfStatement left isLeft]
    change "stmt" ≠ "close"
    decide

end Parts

theorem body_spans (room : Nat) (kind : BodyKind) :
    layout.Spans index (body room kind) (IsBody layout index) := by
  induction room generalizing kind index with
  | zero => exact .tooDeep
  | succ room ih =>
      exact bodyWith_spans ⟨within_areSpanned room, fun kind _ => ih kind,
        StmtParts.within_areEager room⟩ kind

theorem StmtParts.within_areSpanned (room : Nat) : (StmtParts.within room).AreSpanned layout :=
  ⟨Grammar.within_areSpanned room, fun kind _ => body_spans room kind,
    StmtParts.within_areEager room⟩

theorem block_spans (room : Nat) :
    layout.Spans index (block room) (layout.Node Block.outline index) :=
  .mapped (body_spans room .block) fun _ _ _ isBody => isBody.2

end Grammar

end ServiceLang
