import ServiceLang.Proofs.SpanningStmt

set_option autoImplicit false

/-! Annotations, definitions and whole sources over the tokens of a source. A broken
definition leaves a node over all tokens that were skipped, a broken member or header line
leaves none. -/

namespace ServiceLang.Grammar

open Step Layout

variable {layout : Layout} {index first behind : Nat}

/-! ### Annotations -/

theorem unsignedLiteral_spans :
    layout.Spans index unsignedLiteral (layout.Node Literal.outline index) := by
  apply Spans.weaken (.takes (fun token literal => literal.span = token.span) ?_)
  · rintro behind literal - ⟨rfl, token, sameSpan, placed⟩
    exact isLiteral (sameSpan ▸ placed)
  · intro parser literal later ran
    rw [unsignedLiteral, look_bind (peek_eq parser)] at ran
    by_cases ends : parser.cursor.peek.kind = .endOfFile
    · rw [if_pos ends] at ran
      exact absurd ran fail_ne_ok
    · rw [if_neg ends] at ran
      obtain ⟨found, between, ranLiteral, ran⟩ := bind_ok ran
      obtain ⟨value, -, rfl, rfl⟩ := literalOf_ok ranLiteral
      rw [bind_of_ok (advance_eq _)] at ran
      cases ran
      exact ⟨ends, rfl, rfl⟩

theorem simpleLiteral_spans :
    layout.Spans index simpleLiteral (layout.Node Literal.outline index) :=
  .look _ startsNegativeLiteral_eq fun _ _ =>
    .ite (fun _ => negativeLiteral_spans) fun _ => unsignedLiteral_spans

section Values

variable {value : Step AnnotationValue}
  (spans : ∀ index, layout.Spans index value (layout.Node AnnotationValue.outline index))

include spans

theorem annotationEntry_spans :
    layout.Spans index (annotationEntry value) (layout.Node Attribute.outline index) := by
  refine .bind .identifier fun _ key _ ⟨rfl, isKey⟩ => ?_
  refine .bind (.symbol _) fun _ _ _ ⟨rfl, _⟩ => ?_
  refine .mapped (spans _) fun _ value _ isValue role => ?_
  have placed := (isValue "").placed
  rw [AnnotationValue.span_outline] at placed
  have less := placed.less
  exact .of_row ((isKey "").placed.merge placed (by omega) (by omega))
    (.cons (isKey _) (Nat.le_refl _) (.single (isValue _) (by omega) (Nat.le_refl _)))

theorem attachmentWith_spans :
    layout.Spans index (attachmentWith value) (layout.Node Attachment.outline index) := by
  refine .bind (.symbol _) fun _ sign _ ⟨rfl, isSign⟩ => ?_
  refine .bind nameReference_spans fun _ name _ isName => ?_
  have less := (isName "").placed.less
  refine .bind (.symbol _) fun _ _ _ ⟨rfl, _⟩ => ?_
  refine .mapped (.closedList fun _ => annotationEntry_spans spans) fun _ found _ isFound role => ?_
  obtain ⟨last, order, rfl, isEntries, isClose⟩ := isFound
  have isRow := isEntries "attribute"
  rw [← Attribute.outlines_eq] at isRow
  exact .of_row (isSign.merge isClose (by omega) (by omega))
    (.cons (isName _) (by omega) (isRow.wider (by omega) (by omega)))

theorem annotationArray_spans :
    layout.Spans index (annotationArray value) (layout.Node AnnotationValue.outline index) := by
  refine .bind (.symbol _) fun _ open_ _ ⟨rfl, isOpen⟩ => ?_
  refine .mapped (.closedList spans) fun _ found _ isFound role => ?_
  obtain ⟨last, order, rfl, isElements, isClose⟩ := isFound
  have isRow := isElements "element"
  rw [← AnnotationValue.outlines_eq] at isRow
  exact .of_row (isOpen.merge isClose (by omega) (by omega)) (isRow.wider (by omega) (by omega))

end Values

theorem annotationValue_spans (room : Nat) :
    layout.Spans index (annotationValue room) (layout.Node AnnotationValue.outline index) := by
  induction room generalizing index with
  | zero =>
      refine .current fun kind _ => ?_
      split
      · exact .tooDeep
      · exact .tooDeep
      · exact .mapped simpleLiteral_spans fun _ _ _ isLiteral => isLiteral
  | succ room ih =>
      refine .current fun kind _ => ?_
      split
      · exact .mapped (attachmentWith_spans fun _ => ih) fun _ _ _ isAttachment => isAttachment
      · exact annotationArray_spans fun _ => ih
      · exact .mapped simpleLiteral_spans fun _ _ _ isLiteral => isLiteral

theorem attachments_spans (room : Nat) :
    layout.Spans index (attachments room) (layout.Nodes Attachment.outline index) := by
  apply Spans.whileAt
  intro index
  cases room with
  | zero => exact .tooDeep
  | succ room => exact attachmentWith_spans fun _ => annotationValue_spans room

/-! ### Signatures -/

variable (room : Nat)

theorem param_spans : layout.Spans index (param room) (layout.Node Param.outline index) := by
  refine .peek fun start isStart => ?_
  refine .bind (attachments_spans room) fun _ attachments order isAttachments => ?_
  refine .bind (typeName_spans room) fun _ type _ isType => ?_
  have less := (isType "").placed.less
  refine .mapped .identifier fun _ name _ ⟨here, isName⟩ role => ?_
  have placed := (isName "").placed
  have inside := placed.inside
  exact .of_row ((isStart (by omega)).merge placed (by omega) (by omega))
    ((isAttachments _).append (.cons (isType _) (Nat.le_refl _)
      (.single (isName _) (Nat.le_refl _) (Nat.le_refl _))))

theorem params_spans :
    layout.Spans index (params room) (layout.Nodes Param.outline index) := by
  refine .bind (.symbol _) fun _ _ _ ⟨rfl, _⟩ => ?_
  refine .mapped (.closedList fun _ => param_spans room) fun _ found _ isFound role => ?_
  obtain ⟨last, order, rfl, isParams, -⟩ := isFound
  exact (isParams role).wider (by omega) (by omega)

theorem resultsAreNamed_spans :
    layout.Spans index resultsAreNamed fun behind _ => behind = index := by
  refine .check fun _ => .ite (fun _ => .pure rfl) fun _ => ?_
  intro parser later named stands ran
  rw [isVarDef_eq] at ran
  cases ran
  exact ⟨index, Nat.le_refl _, stands, rfl⟩

theorem results_spans : layout.Spans index (results room) fun behind returns =>
    layout.Row index behind returns.outlines := by
  apply Spans.bind resultsAreNamed_spans
  rintro _ named - rfl
  apply Spans.ite
  · intro _
    exact .mapped (.commaSeparated fun _ => param_spans room) fun _ _ _ isParams => isParams _
  · intro _
    exact .mapped (.commaSeparated fun _ => typeName_spans room) fun _ _ _ isTypes => isTypes _

theorem returns_spans : layout.Spans index (returns room) fun behind returns =>
    layout.Row index behind returns.outlines := by
  refine .bind (.symbol _) fun _ _ _ ⟨rfl, _⟩ => ?_
  refine .bind (results_spans room) fun _ returns _ isRow => ?_
  exact .mapped (.symbol _) fun _ _ _ ⟨rfl, _⟩ => isRow.wider (by omega) (by omega)

theorem signature_spans :
    layout.Spans index (signature room) (layout.Node Signature.outline index) := by
  refine .bind .identifier fun _ name _ ⟨rfl, isName⟩ => ?_
  refine .bind (params_spans room) fun _ params order isParams => ?_
  have isReturns (start : Nat) : layout.Spans start (ifAt (.symbol .leftParen) (returns room))
      fun behind found => layout.Row start behind ((found.map Returns.outlines).getD []) := by
    refine .check fun _ => .ite (fun _ => ?_) fun _ => .pure (.nil (Nat.le_refl _))
    exact .mapped (returns_spans room) fun _ _ _ isRow => isRow
  refine .bind (isReturns _) fun _ returns _ isReturns => ?_
  refine .mapped (.spanFrom (isName "").placed (by omega)) fun _ span _ ⟨rfl, isSpan⟩ role => ?_
  exact .of_row isSpan (.cons (isName _) (Nat.le_refl _) ((isParams _).append isReturns))

theorem callableEnd_spans {α : Type} {native : Bool} {body : Step α}
    {outline : String → α → Outline} (spans : layout.Spans index body (layout.Node outline index)) :
    layout.Spans index (callableEnd native body) (layout.Optional outline index) := by
  refine .ite (fun _ => ?_) fun _ => ?_
  · exact .mapped endStatement_spans fun _ _ order _ => .none order
  · exact .mapped spans fun _ _ _ isBody => .some isBody (Nat.le_refl _) (Nat.le_refl _)

/-! ### Members -/

/-- A broken member leaves nothing. -/
theorem members_spans {α : Type} {member : Step α} {outline : String → α → Outline}
    (eager : Eager (fun _ => True) member)
    (spans : ∀ index, layout.Spans index member (layout.Node outline index)) :
    layout.Spans index (members member) (layout.Nodes outline index) := by
  have isFound : layout.Spans index (loop (nextMember member) [])
      (layout.Nodes outline index) := by
    refine .loop (.nil (Nat.le_refl _)) fun behind found order isFound => ?_
    refine .current fun kind more => .kindNth fun next => .ite (fun _ => .done isFound)
      fun inside => ?_
    refine .yielded (.orRecover (more (isBarrier_of_endsMembers inside).2)
      (.bind eager.orderly fun _ => .pure _) (.mapped (spans _) fun _ _ _ isMember => ?_)
      fun last _ placed => ?_) fun _ _ _ isNext => isNext
    · exact isFound.snoc isMember (Nat.le_refl _) (Nat.le_refl _)
    · have less := placed.less
      exact fun role => (isFound role).wider (Nat.le_refl _) (by omega)
  refine .bind isFound fun last found _ isFound => ?_
  exact .mapped .closeBrace fun _ _ order _ role => (isFound role).wider (Nat.le_refl _) order

theorem resource_spans :
    layout.Spans index (resource room) (layout.Node ResourceDef.outline index) := by
  refine .peek fun start isStart => ?_
  refine .bind (attachments_spans room) fun _ attachments order isAttachments => ?_
  refine .bind (.keyword _) fun _ _ _ ⟨rfl, _⟩ => ?_
  refine .bind .identifier fun _ name _ ⟨rfl, isName⟩ => ?_
  refine .bind (params_spans room) fun _ params _ isParams => ?_
  refine .mapped (body_spans room _) fun _ body _ isBody role => ?_
  have placed := over_body isBody
  have less := placed.less
  have inside := placed.inside
  exact .of_row ((isStart (by omega)).merge placed (by omega) (by omega))
    (((isAttachments _).append (.cons (isName _) (by omega) (isParams _))).append
      (.single (isBody.1 _) (Nat.le_refl _) (Nat.le_refl _)))

theorem action_spans :
    layout.Spans index (action room) (layout.Node (CallableDef.outline "Action") index) := by
  refine .peek fun start isStart => ?_
  refine .bind (attachments_spans room) fun _ attachments order isAttachments => ?_
  refine .bind (.weaken (.eat _ nofun) fun _ _ order _ => order) fun _ native _ _ => ?_
  refine .bind (.keyword _) fun _ _ _ ⟨rfl, _⟩ => ?_
  refine .bind (signature_spans room) fun _ signature _ isSignature => ?_
  have less := (isSignature "").placed.less
  refine .bind (callableEnd_spans (.weaken (body_spans room _) fun _ _ _ isBody => isBody.1))
    fun _ body _ isBody => ?_
  refine .mapped (.spanFromPeek (by omega) isStart) fun _ span _ ⟨rfl, isSpan⟩ role => ?_
  exact .of_row isSpan ((isAttachments _).append (.cons (isSignature _) (by omega) (isBody _)))

theorem typedField_spans :
    layout.Spans index (typedField room) (layout.Node FieldDef.outline index) := by
  refine .bind (typeName_spans room) fun _ type _ isType => ?_
  have less := (isType "").placed.less
  refine .bind .identifier fun _ name _ ⟨rfl, isName⟩ => ?_
  refine .bind (.ifBehind (fun _ => simpleLiteral_spans) nofun) fun _ default _ isDefault => ?_
  refine .bind endStatement_spans fun _ _ _ _ => ?_
  refine .mapped (.spanFrom (over_type isType) (by omega)) fun _ span _ ⟨rfl, isSpan⟩ role => ?_
  exact .of_row isSpan (.cons (isType _) (Nat.le_refl _) (.cons (isName _) (by omega)
    ((isDefault _).wider (by omega) (by omega))))

theorem fields_spans :
    layout.Spans index (members (field room)) (layout.Nodes FieldDef.outline index) :=
  members_spans (field_eager room) fun _ => .current fun _ _ =>
    .ite (fun _ => typedField_spans room) fun _ => .failAt _

section Mixed

variable {α β : Type} {left : String → α → Outline} {right : String → β → Outline}
  {found : List (α ⊕ β)}

def eitherOutline (left : String → α → Outline) (right : String → β → Outline) (role : String) :
    α ⊕ β → Outline
  | .inl member => left role member
  | .inr member => right role member

theorem lefts_nodes (nodes : layout.Nodes (eitherOutline left right) first behind found) :
    layout.Nodes left first behind (found.filterMap Sum.getLeft?) := by
  refine fun role => (nodes role).sublist ?_
  clear nodes
  induction found with
  | nil => exact .slnil
  | cons member found ih =>
      cases member with
      | inl member => exact ih.cons_cons _
      | inr member => exact ih.cons _

theorem rights_nodes (nodes : layout.Nodes (eitherOutline left right) first behind found) :
    layout.Nodes right first behind (found.filterMap Sum.getRight?) := by
  refine fun role => (nodes role).sublist ?_
  clear nodes
  induction found with
  | nil => exact .slnil
  | cons member found ih =>
      cases member with
      | inl member => exact ih.cons _
      | inr member => exact ih.cons_cons _

end Mixed

theorem serviceMember_spans : layout.Spans index (serviceMember room)
    (layout.Node (eitherOutline VarDef.outline ResourceDef.outline) index) := by
  refine .current fun kind _ => .ite (fun _ => ?_) fun _ =>
    .isVarDef fun _ => .ite (fun _ => ?_) fun _ => .failAt _
  · exact .mapped (resource_spans room) fun _ _ _ isResource => isResource
  · exact .mapped (varDef_spans (StmtParts.within_areSpanned room)) fun _ _ _ isDef => isDef

theorem connectorMember_spans : layout.Spans index (connectorMember room)
    (layout.Node (eitherOutline VarDef.outline (CallableDef.outline "Action")) index) := by
  refine .current fun kind _ => .ite (fun _ => ?_) fun _ =>
    .isVarDef fun _ => .ite (fun _ => ?_) fun _ => .failAt _
  · exact .mapped (action_spans room) fun _ _ _ isAction => isAction
  · exact .mapped (varDef_spans (StmtParts.within_areSpanned room)) fun _ _ _ isDef => isDef

/-! ### Definitions -/

structure Header.Lies (layout : Layout) (first behind : Nat) (header : Header) : Prop where
  attachments : layout.Nodes Attachment.outline first behind header.attachments
  start : first + 1 < layout.buffer.length → layout.Over first (first + 1) header.start

section Headed

variable {header : Header} (lies : header.Lies layout first index)

include lies

theorem Header.Lies.le : first ≤ index :=
  (lies.attachments "").le

theorem function_spans :
    layout.Spans index (function room header)
      (layout.Node (CallableDef.outline "Function") first) := by
  have order := lies.le
  refine .bind (.weaken (.eat _ nofun) fun _ _ order _ => order) fun _ native _ _ => ?_
  refine .bind (.keyword _) fun _ _ _ ⟨rfl, _⟩ => ?_
  refine .bind (signature_spans room) fun _ signature _ isSignature => ?_
  have less := (isSignature "").placed.less
  refine .bind (callableEnd_spans (.weaken (body_spans room _) fun _ _ _ isBody => isBody.1))
    fun _ body _ isBody => ?_
  refine .mapped (.spanFromPeek (by omega) lies.start) fun _ span _ ⟨rfl, isSpan⟩ role => ?_
  exact .of_row isSpan
    ((lies.attachments _).append (.cons (isSignature _) (by omega) (isBody _)))

theorem struct_spans :
    layout.Spans index (struct room header) (layout.Node StructDef.outline first) := by
  have order := lies.le
  refine .bind (.keyword _) fun _ _ _ ⟨rfl, _⟩ => ?_
  refine .bind .identifier fun _ name _ ⟨rfl, isName⟩ => ?_
  refine .bind (.symbol _) fun _ _ _ ⟨rfl, _⟩ => ?_
  refine .bind (fields_spans room) fun _ fields _ isFields => ?_
  refine .mapped (.spanFromPeek (by omega) lies.start) fun _ span _ ⟨rfl, isSpan⟩ role => ?_
  exact .of_row isSpan ((lies.attachments _).append (.cons (isName _) (by omega)
    ((isFields _).wider (by omega) (by omega))))

omit lies in
theorem attachPoint_spans :
    layout.Spans index attachPoint (layout.Node AttachPoint.outline index) := by
  apply Spans.weaken (.takes (fun token point => point.span = token.span) ?_)
  · rintro behind point - ⟨rfl, token, sameSpan, placed⟩ role
    exact .leaf (sameSpan ▸ placed)
  · intro parser point later ran
    rw [attachPoint, look_bind (peek_eq parser)] at ran
    cases isTarget : AttachTarget.ofKind? parser.cursor.peek.kind with
    | none =>
        simp only [isTarget] at ran
        exact absurd ran fail_ne_ok
    | some target =>
        simp only [isTarget] at ran
        rw [bind_of_ok (advance_eq _)] at ran
        cases ran
        refine ⟨fun ends => ?_, rfl, rfl⟩
        rw [ends] at isTarget
        cases isTarget

theorem annotationDef_spans :
    layout.Spans index (annotationDef room header) (layout.Node AnnotationDef.outline first) := by
  have order := lies.le
  refine .bind (.keyword _) fun _ _ _ ⟨rfl, _⟩ => ?_
  refine .bind .identifier fun _ name _ ⟨rfl, isName⟩ => ?_
  have isPoints (start : Nat) : layout.Spans start attachPoints
      (layout.Nodes AttachPoint.outline start) := by
    refine .bind (.weaken (.eat _ nofun) fun _ _ order _ => order) fun _ _ order _ => ?_
    refine .ite (fun _ => ?_) fun _ => .pure (.nil order)
    exact .weaken (.commaSeparated fun _ => attachPoint_spans) fun _ _ _ isPoints role =>
      (isPoints role).wider order (Nat.le_refl _)
  refine .bind (isPoints _) fun _ points _ isPoints => ?_
  refine .bind (.symbol _) fun _ _ _ ⟨rfl, _⟩ => ?_
  refine .bind (fields_spans room) fun _ fields _ isFields => ?_
  refine .mapped (.spanFromPeek (by omega) lies.start) fun _ span _ ⟨rfl, isSpan⟩ role => ?_
  exact .of_row isSpan (((lies.attachments _).append (.cons (isName _) (by omega)
    (isPoints _))).append ((isFields _).wider (by omega) (by omega)))

theorem typeMapper_spans :
    layout.Spans index (typeMapper room header) (layout.Node TypeMapperDef.outline first) := by
  have order := lies.le
  refine .bind (.weaken (.eat _ nofun) fun _ _ order _ => order) fun _ native _ _ => ?_
  refine .bind (.keyword _) fun _ _ _ ⟨rfl, _⟩ => ?_
  refine .bind .identifier fun _ name _ ⟨rfl, isName⟩ => ?_
  refine .bind (.symbol _) fun _ _ _ ⟨rfl, _⟩ => ?_
  refine .bind (param_spans room) fun _ param _ isParam => ?_
  refine .bind (.symbol _) fun _ _ _ ⟨rfl, _⟩ => .bind (.symbol _) fun _ _ _ ⟨rfl, _⟩ => ?_
  refine .bind (typeName_spans room) fun _ type _ isType => ?_
  refine .bind (.symbol _) fun _ _ _ ⟨rfl, _⟩ => ?_
  refine .bind (callableEnd_spans (block_spans room)) fun _ body _ isBody => ?_
  have lessParam := (isParam "").placed.less
  have lessType := (isType "").placed.less
  refine .mapped (.spanFromPeek (by omega) lies.start) fun _ span _ ⟨rfl, isSpan⟩ role => ?_
  exact .of_row isSpan (((lies.attachments _).append (.cons (isName _) (by omega)
    (.cons (isParam _) (by omega) (.single (isType _) (by omega) (Nat.le_refl _))))).append
      ((isBody _).wider (by omega) (Nat.le_refl _)))

theorem constant_spans :
    layout.Spans index (constant room header) (layout.Node ConstantDef.outline first) := by
  have order := lies.le
  refine .bind (.keyword _) fun _ _ _ ⟨rfl, _⟩ => ?_
  have isType (start : Nat) : layout.Spans start (constantType room)
      (layout.Node TypeName.outline start) :=
    .peek fun _ _ => .ite (fun _ => baseType_spans fun _ => typeName_spans room) fun _ => .fail _
  refine .bind (isType _) fun _ type _ isType => ?_
  have lessType := (isType "").placed.less
  refine .bind .identifier fun _ name _ ⟨rfl, isName⟩ => ?_
  refine .bind (.symbol _) fun _ _ _ ⟨rfl, _⟩ => ?_
  refine .bind ((within_areSpanned room).expr 0 _) fun _ value _ isValue => ?_
  have lessValue := (isValue "").placed.less
  refine .bind endStatement_spans fun _ _ _ _ => ?_
  refine .mapped (.spanFromPeek (by omega) lies.start) fun _ span _ ⟨rfl, isSpan⟩ role => ?_
  exact .of_row isSpan ((lies.attachments _).append (.cons (isType _) (by omega)
    (.cons (isName _) (by omega) (.single (isValue _) (by omega) (by omega)))))

theorem globalVar_spans :
    layout.Spans index (globalVar room header) (layout.Node GlobalVarDef.outline first) := by
  have order := lies.le
  refine .bind (typeName_spans room) fun _ type _ isType => ?_
  have lessType := (isType "").placed.less
  refine .bind .identifier fun _ name _ ⟨rfl, isName⟩ => ?_
  refine .bind (.ifBehind (fun _ => (within_areSpanned room).expr 0 _) nofun)
    fun _ init _ isInit => ?_
  refine .bind endStatement_spans fun _ _ _ _ => ?_
  refine .mapped (.spanFromPeek (by omega) lies.start) fun _ span _ ⟨rfl, isSpan⟩ role => ?_
  exact .of_row isSpan (((lies.attachments _).append (.cons (isType _) (by omega)
    (.single (isName _) (by omega) (Nat.le_refl _)))).append
      ((isInit _).wider (by omega) (by omega)))

omit lies in
/-- Variables may stand among the other members, but each of the two lists is in order. -/
theorem members_gather {α β : Type} {found : List (α ⊕ β)} {front : List Outline}
    {left : String → α → Outline} {right : String → β → Outline} {leftRole rightRole : String}
    {start stop : Nat} (isFront : layout.Row first start front) (starts : start ≤ index)
    (inside : stop < layout.buffer.length)
    (isFound : layout.Nodes (eitherOutline left right) index behind found) (upTo : behind ≤ stop)
    (different : leftRole ≠ rightRole) (frontRoles : ∀ child ∈ front, child.role ≠ rightRole)
    (leftRoles : ∀ member, (left leftRole member).role = leftRole)
    (rightRoles : ∀ member, (right rightRole member).role = rightRole) :
    layout.Gathers first stop (front ++
      Outline.each left leftRole (found.filterMap Sum.getLeft?) ++
      Outline.each right rightRole (found.filterMap Sum.getRight?)) := by
  have order := isFront.le
  have isLeft := isFront.append ((lefts_nodes isFound leftRole).wider starts upTo)
  have isRight := (rights_nodes isFound rightRole).wider (Nat.le_trans order starts) upTo
  apply Gathers.append (.of_row isLeft inside) (.of_row isRight inside)
  intro child isChild other isOther
  rw [Outline.role_of_mem_each rightRoles isOther]
  rcases List.mem_append.mp isChild with isChild | isChild
  · exact frontRoles child isChild
  · rw [Outline.role_of_mem_each leftRoles isChild]
    exact different

theorem service_spans :
    layout.Spans index (service room header) (layout.Node ServiceDef.outline first) := by
  have order := lies.le
  refine .bind (.keyword _) fun _ _ _ ⟨rfl, _⟩ => .bind (.symbol _) fun _ _ _ ⟨rfl, _⟩ => ?_
  refine .bind .identifier fun _ protocol _ ⟨rfl, isProtocol⟩ => ?_
  refine .bind (.symbol _) fun _ _ _ ⟨rfl, _⟩ => ?_
  refine .bind .identifier fun _ name _ ⟨rfl, isName⟩ => ?_
  refine .bind (.symbol _) fun _ _ _ ⟨rfl, _⟩ => ?_
  refine .bind (members_spans (serviceMember_eager room) fun _ => serviceMember_spans room)
    fun _ found _ isFound => ?_
  refine .mapped (.spanFromPeek (by omega) lies.start) fun _ span _ ⟨rfl, isSpan⟩ role => ?_
  refine .node isSpan ?_
  have isFront := (lies.attachments "annotation").append
    (.cons (isProtocol "protocol") (by omega) (.single (isName "name") (by omega) (Nat.le_refl _)))
  refine members_gather isFront (by omega) isSpan.inside isFound (Nat.le_refl _) (by decide) ?_
    (fun _ => rfl) fun _ => rfl
  intro child isChild
  simp only [List.mem_append, List.mem_cons, List.not_mem_nil, or_false] at isChild
  rcases isChild with isChild | rfl | rfl
  · rw [Outline.role_of_mem_each (fun attachment => by cases attachment; rfl) isChild]
    decide
  · change "protocol" ≠ "resource"
    decide
  · change "name" ≠ "resource"
    decide

theorem connector_spans :
    layout.Spans index (connector room header) (layout.Node ConnectorDef.outline first) := by
  have order := lies.le
  refine .bind (.keyword _) fun _ _ _ ⟨rfl, _⟩ => ?_
  refine .bind .identifier fun _ name _ ⟨rfl, isName⟩ => ?_
  refine .bind (params_spans room) fun _ params _ isParams => ?_
  refine .bind (.symbol _) fun _ _ _ ⟨rfl, _⟩ => ?_
  refine .bind (members_spans (connectorMember_eager room) fun _ => connectorMember_spans room)
    fun _ found _ isFound => ?_
  refine .mapped (.spanFromPeek (by omega) lies.start) fun _ span _ ⟨rfl, isSpan⟩ role => ?_
  refine .node isSpan ?_
  have isFront := (lies.attachments "annotation").append
    (.cons (isName "name") (by omega) (isParams "param"))
  refine members_gather isFront (by omega) isSpan.inside isFound (Nat.le_refl _) (by decide) ?_
    (fun _ => rfl) fun _ => rfl
  intro child isChild
  simp only [List.mem_append, List.mem_cons] at isChild
  rcases isChild with isChild | rfl | isChild
  · rw [Outline.role_of_mem_each (fun attachment => by cases attachment; rfl) isChild]
    decide
  · change "name" ≠ "action"
    decide
  · rw [Outline.role_of_mem_each (fun _ => rfl) isChild]
    decide

theorem nativeDefinition_spans :
    layout.Spans index (nativeDefinition room header) (layout.Node Definition.outline first) := by
  refine .kindNth fun kind => ?_
  split
  · exact .mapped (function_spans room lies) fun _ _ _ isDef => isDef
  · exact .mapped (typeMapper_spans room lies) fun _ _ _ isDef => isDef
  · exact .look _ cursor_eq fun _ _ => .fail _

theorem plainDefinition_spans :
    layout.Spans index (plainDefinition room header) (layout.Node Definition.outline first) := by
  refine .isVarDef fun _ => .ite (fun _ => ?_) fun _ => .failAt _
  exact .mapped (globalVar_spans room lies) fun _ _ _ isDef => isDef

omit lies in
theorem misplacedDirective_spans {lies : Nat → Definition → Prop} :
    layout.Spans index misplacedDirective lies :=
  .peek fun _ _ => .fail _

theorem headedDefinition_spans :
    layout.Spans index (headedDefinition room header) (layout.Node Definition.outline first) := by
  refine .current fun kind _ => ?_
  split
  · exact .mapped (service_spans room lies) fun _ _ _ isDef => isDef
  · exact .mapped (function_spans room lies) fun _ _ _ isDef => isDef
  · exact nativeDefinition_spans room lies
  · exact .mapped (connector_spans room lies) fun _ _ _ isDef => isDef
  · exact .mapped (struct_spans room lies) fun _ _ _ isDef => isDef
  · exact .mapped (typeMapper_spans room lies) fun _ _ _ isDef => isDef
  · exact .mapped (constant_spans room lies) fun _ _ _ isDef => isDef
  · exact .mapped (annotationDef_spans room lies) fun _ _ _ isDef => isDef
  · exact misplacedDirective_spans
  · exact misplacedDirective_spans
  · exact misplacedDirective_spans
  · exact plainDefinition_spans room lies

end Headed

theorem definition_spans :
    layout.Spans index (definition room) (layout.Node Definition.outline index) :=
  .peek fun _ isStart => .bind (attachments_spans room) fun _ _ _ isAttachments =>
    headedDefinition_spans room ⟨isAttachments, isStart⟩

/-! ### Sources -/

section Sources

omit room

theorem packageName_spans :
    layout.Spans index packageName (layout.Node PackageName.outline index) := by
  refine .bind .identifier fun _ name _ ⟨rfl, isName⟩ => ?_
  have isSegments (start : Nat) (isFirst : layout.Nodes Identifier.outline index start [name]) :
      layout.Spans start (loop nextSegment [name]) (layout.Nodes Identifier.outline index) := by
    refine .loop isFirst fun behind segments _ isSegments => ?_
    refine .check fun _ => .kindNth fun _ => .ite (fun _ => ?_) fun _ => .done isSegments
    refine .bind (.symbol _) fun _ _ _ ⟨rfl, _⟩ => ?_
    exact .yielded .identifier fun _ segment _ ⟨rfl, isSegment⟩ =>
      isSegments.snoc isSegment (by omega) (Nat.le_refl _)
  refine .bind (isSegments _ fun role => .single (isName role) (Nat.le_refl _) (Nat.le_refl _))
    fun _ segments _ isSegments => ?_
  refine .mapped (.spanFrom (isName "").placed (by omega)) fun _ span _ ⟨rfl, isSpan⟩ role => ?_
  exact .of_row isSpan (isSegments _)

theorem packageDecl_spans :
    layout.Spans index packageDecl (layout.Node PackageDecl.outline index) := by
  refine .bind (.keyword _) fun _ word _ ⟨rfl, isWord⟩ => ?_
  refine .bind packageName_spans fun _ name _ isName => ?_
  have less := (isName "").placed.less
  refine .bind endStatement_spans fun _ _ _ _ => ?_
  refine .mapped (.spanFrom isWord (by omega)) fun _ span _ ⟨rfl, isSpan⟩ role => ?_
  exact .of_row isSpan (.single (isName _) (by omega) (by omega))

theorem directive_spans :
    layout.Spans index directive (layout.Node Directive.outline index) := by
  refine .check fun _ => .ite (fun _ => ?_) fun _ => ?_
  · refine .mapped ?_ fun _ declaration _ isDecl => isDecl
    refine .bind (.keyword _) fun _ word _ ⟨rfl, isWord⟩ => ?_
    refine .bind packageName_spans fun _ package _ isPackage => ?_
    have less := (isPackage "").placed.less
    refine .bind (.ifBehind (fun _ => .weaken .identifier fun _ _ _ isName => isName.2) nofun)
      fun _ localName order isName => ?_
    refine .bind endStatement_spans fun _ _ _ _ => ?_
    refine .mapped (.spanFrom isWord (by omega)) fun _ span _ ⟨rfl, isSpan⟩ role => ?_
    exact .of_row isSpan (.cons (isPackage _) (by omega)
      ((isName _).wider (Nat.le_refl _) (by omega)))
  · exact .mapped namespaceDecl_spans fun _ _ _ isDecl => isDecl

/-- A broken package declaration leaves nothing. -/
theorem packageHeader_spans :
    layout.Spans index packageHeader (layout.Optional PackageDecl.outline index) := by
  refine .look _ (fun parser => check_eq parser _) fun parser stands => .ite (fun here => ?_)
    fun _ => .pure (.none (Nat.le_refl _))
  have more := stands.more (beq_iff_eq.mp here ▸ nofun)
  refine .orSkip more (.bind packageDecl_eager.orderly fun _ => .pure _)
    (.mapped packageDecl_spans fun _ _ _ isDecl =>
      .some isDecl (Nat.le_refl _) (Nat.le_refl _)) fun _ _ placed => .none (Nat.le_of_lt placed.less)

theorem directives_spans :
    layout.Spans index directives (layout.Nodes Directive.outline index) := by
  refine .loop (.nil (Nat.le_refl _)) fun behind found order isFound => ?_
  refine .current fun kind more => .ite (fun here => ?_) fun _ => .done isFound
  have notEnd : kind ≠ .endOfFile := by
    rintro rfl
    simp at here
  refine .yielded (.orSkip (more notEnd) (.bind directive_eager.orderly fun _ => .pure _)
    (.mapped directive_spans fun _ _ _ isDecl => ?_) fun last _ placed => ?_) fun _ _ _ isNext => isNext
  · exact isFound.snoc isDecl (Nat.le_refl _) (Nat.le_refl _)
  · have less := placed.less
    exact fun role => (isFound role).wider (Nat.le_refl _) (by omega)

end Sources

/-- A broken definition leaves a node over all that was skipped. -/
theorem definitions_spans :
    layout.Spans index (definitions room) (layout.Nodes Definition.outline index) := by
  refine .loop (.nil (Nat.le_refl _)) fun behind found order isFound => ?_
  refine .look _ (fun parser => check_eq parser _) fun parser stands => .ite
    (fun _ => .done isFound) fun inside => ?_
  have more := stands.more (by simpa using inside)
  exact .yielded (.orSkip more (definition_eager room).orderly (definition_spans room)
    fun _ _ placed _ => .leaf placed) fun _ _ _ isDef =>
      isFound.snoc isDef (Nat.le_refl _) (Nat.le_refl _)

/-- Package, directives and definitions of a source stand one behind the other, and the
source goes from the first token up to the end of the last one. -/
theorem sourceUnit_spans : layout.Spans index (sourceUnit room) fun behind unit =>
    layout.Row index behind (Outline.optional PackageDecl.outline "package" unit.package ++
      Outline.each Directive.outline "directive" unit.directives ++
      Outline.each Definition.outline "item" unit.items) ∧
    unit.span.start ≤ layout.startAt index ∧ layout.stopAt behind ≤ unit.span.stop := by
  refine .look _ peek_eq fun parser stands => ?_
  refine .bind packageHeader_spans fun _ package _ isPackage => ?_
  refine .bind directives_spans fun _ directives _ isDirectives => ?_
  refine .bind (definitions_spans room) fun _ items _ isItems => ?_
  refine .look _ peek_eq fun later standsLater => .pure ⟨?_, ?_, ?_⟩
  · exact ((isPackage _).append (isDirectives _)).append (isItems _)
  · rw [stands.startAt_eq]
    dsimp only
    rw [Span.merge_start]
    omega
  · rw [standsLater.stopAt_eq]
    dsimp only
    rw [Span.merge_stop]
    omega

end ServiceLang.Grammar
