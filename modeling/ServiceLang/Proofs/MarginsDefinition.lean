import ServiceLang.Proofs.Isolation
import ServiceLang.Proofs.MarginsStmt
import ServiceLang.Proofs.OrderlyDefinition

set_option autoImplicit false

/-! The rules for annotations, definitions and whole sources read and report the same with some
levels more, unless a refusal has been reported. Reading goes on at the sign of an annotation,
where a level is taken: there the first parse has to allow for one, or a refusal might be
dropped. -/

namespace ServiceLang.Grammar

open Step Margins

variable {margins : Margins} {place : Cursor} {footing : Footing}

/-! ### Annotations -/

theorem unsignedLiteral_same : margins.Same unsignedLiteral unsignedLiteral := by
  refine fun place => .peek fun other tokens => ?_
  rw [tokens.kind]
  by_cases atEnd : place.peek.kind = .endOfFile
  · rw [if_pos atEnd, if_pos atEnd]
    exact .fail (tokens.spans.error _ _) (.upTo (Nat.le_refl _))
  · rw [if_neg atEnd, if_neg atEnd, tokens.same atEnd]
    refine (literalOf_same (Nat.le_refl _) (.inr atEnd)).bindWith fun there literal _ known => ?_
    obtain ⟨-, rfl⟩ := known
    exact (Inner.advanceInside atEnd (.inl rfl)).mapped fun _ _ _ => trivial

theorem simpleLiteral_same : margins.Same simpleLiteral simpleLiteral :=
  fun _ => .look startsNegativeLiteral_sees <| .ite
    (fun _ => (negativeLiteral_same _).weaken fun _ _ _ => trivial) fun _ => unsignedLiteral_same _

section Value

variable {value deeper : Step AnnotationValue} (same : margins.Same value deeper)

include same

theorem annotationEntry_same : margins.Same (annotationEntry value) (annotationEntry deeper) :=
  fun _ => .bind .identifier fun _ _ => .bind (.symbol _) fun _ _ =>
    (same _).mapped fun _ _ _ => trivial

theorem attachmentWith_same :
    margins.Inner place footing (attachmentWith value) (attachmentWith deeper) Anything :=
  .bind (.symbol _) fun _ _ => .bind (nameReference_same _) fun _ _ => .bind (.symbol _) fun _ _ =>
    (Inner.closedList _ (annotationEntry_same same)).mapped fun _ _ _ => trivial

theorem annotationArray_same : margins.Same (annotationArray value) (annotationArray deeper) :=
  fun _ => .bind (.symbol _) fun _ _ => (Inner.closedList _ same).mapped fun _ _ _ => trivial

end Value

/-- Only an annotation value that is refused a level can be read otherwise with some levels
more. -/
theorem annotationValue_same (room : Nat) :
    margins.Same (annotationValue room) (annotationValue (room + margins.extra)) := by
  have literal (place : Cursor) : margins.Inner place .firm
      (do return AnnotationValue.literal (← simpleLiteral))
      (do return AnnotationValue.literal (← simpleLiteral)) Anything :=
    (simpleLiteral_same place).mapped fun _ _ _ => trivial
  induction room with
  | zero =>
      intro place
      rw [Nat.zero_add]
      cases more : margins.extra with
      | zero =>
          refine .look sees_current ?_
          split
          · exact .tooDeep (.inl rfl) fun _ => rfl
          · exact .tooDeep (.inl rfl) fun _ => rfl
          · exact literal place
      | succ extra =>
          refine .look sees_current ?_
          split
          · exact .tooDeep (.inl rfl) fun none => by omega
          · exact .tooDeep (.inl rfl) fun none => by omega
          · exact literal place
  | succ room ih =>
      rw [Nat.succ_add]
      refine fun place => .look sees_current ?_
      split
      · exact (attachmentWith_same ih).mapped fun _ _ _ => trivial
      · exact annotationArray_same ih place
      · exact literal place

/-- Wherever reading goes on at the sign of an annotation, there is a level for it. -/
theorem attachment_same (room : Nat)
    (known : footing = .firm ∨ margins.extra = 0 ∨ room ≠ 0) :
    margins.Inner place footing (attachment room) (attachment (room + margins.extra)) Anything := by
  cases room with
  | zero =>
      refine .tooDeep (known.imp_right fun known => known.resolve_right (absurd rfl))
        fun alike => ?_
      rw [alike]
      rfl
  | succ room =>
      rw [Nat.succ_add]
      exact attachmentWith_same (annotationValue_same room)

theorem attachments_same (room : Nat) :
    margins.Same (attachments room) (attachments (room + margins.extra)) :=
  fun _ => .loopFirm (fun _ _ _ => .look (sees_check _) (.ite
    (fun _ => (attachment_same room (.inl rfl)).mapped fun _ _ _ => trivial)
    fun _ => .pure trivial)) trivial

-- The levels that are left where a definition stands.
variable {room : Nat}

theorem attachments_then {α : Type} {next further : List Attachment → Step α}
    {lies : Cursor → α → Prop} (known : footing = .firm ∨ margins.extra = 0 ∨ room ≠ 0)
    (present : ∀ there list, margins.Outer there .firm (next list) (further list) lies)
    (absent : place.peek.kind ≠ .symbol .atSign →
      margins.Outer place footing (next []) (further []) lies) :
    margins.Outer place footing (attachments room >>= next)
      (attachments (room + margins.extra) >>= further) lies := by
  by_cases here : place.peek.kind = .symbol .atSign
  · exact .bind (.whileAt (fun _ => attachment_same room (.inl rfl)) (attachment_same room known)
      here) present
  · rintro parser other twins rfl on
    have ran := attachments_of_other room here
    have otherRan := attachments_of_other (room + margins.extra)
      fun same => here (twins.places.kind.symm.trans same)
    rw [bind_of_ok ran, bind_of_ok otherRan, after, bind_of_ok ran]
    exact absent here twins rfl on

/-! ### Signatures -/

/-- At the end of file there is no parameter, so where it would start does not matter. -/
theorem param_same : margins.Same (param room) (param (room + margins.extra)) := by
  refine fun place => .peek fun other tokens => ?_
  by_cases atEnd : place.peek.kind = .endOfFile
  · refine .bindWith (attachments_same room place) fun there _ onwards _ => ?_
    exact (Inner.never (show Eager (fun _ => True) _ from typeName_eager room).strict
      (onwards.peek_isEnd atEnd) (typeName_same room there)).bindWith fun _ _ _ none => none.elim
  · rw [tokens.same atEnd]
    exact .bind (attachments_same room place) fun _ _ => .bind (typeName_same room _) fun _ _ =>
      Inner.identifier.mapped fun _ _ _ => trivial

theorem params_same : margins.Same (params room) (params (room + margins.extra)) :=
  fun _ => .bind (.symbol _) fun _ _ =>
    (Inner.closedList _ param_same).mapped fun _ _ _ => trivial

theorem resultsAreNamed_sees :
    margins.Sees place resultsAreNamed
      (place.peek.kind == .symbol .atSign ||
        startsVarDef (margins.depth + 1) place.kinds) := by
  intro parser other twins known
  obtain ⟨left, right⟩ := sees_check (.symbol .atSign) twins known
  obtain ⟨left', right'⟩ := sees_isVarDef twins known
  rw [resultsAreNamed, look_bind left, look_bind right]
  cases place.peek.kind == .symbol .atSign with
  | true => exact ⟨rfl, rfl⟩
  | false => exact ⟨left', right'⟩

theorem results_same : margins.Same (results room) (results (room + margins.extra)) :=
  fun _ => .look resultsAreNamed_sees <| .ite
    (fun _ => (Inner.list param_same).mapped fun _ _ _ => trivial)
    fun _ => (Inner.list (typeName_same room)).mapped fun _ _ _ => trivial

theorem returns_same : margins.Same (returns room) (returns (room + margins.extra)) :=
  fun _ => .bind (.symbol _) fun _ _ => .bind (results_same _) fun _ _ =>
    (Inner.symbol _).mapped fun _ _ _ => trivial

theorem signature_same : margins.Same (signature room) (signature (room + margins.extra)) :=
  fun _ => .bind .identifier fun _ _ => .bind (params_same _) fun _ _ =>
    .bind (.ifAt _ fun _ => returns_same _) fun _ _ => .spanned _ trivial

theorem callableEnd_same {α : Type} {native : Bool} {body deeper : Step α}
    (same : margins.Outer place .firm body deeper Anything) :
    margins.Outer place .firm (callableEnd native body) (callableEnd native deeper) Anything :=
  .ite (fun _ => Outer.endStatement.mapped fun _ _ _ => trivial)
    fun _ => same.mapped fun _ _ _ => trivial

/-! ### Members -/

theorem isLanding_of_endsMembers {kind next : Kind} (ends : endsMembers kind next = true) :
    kind.isLanding = true := by
  rw [endsMembers, Bool.or_eq_true, Bool.or_eq_true, Bool.and_eq_true, beq_iff_eq,
    beq_iff_eq] at ends
  rcases ends with (rfl | rfl) | ⟨starts, -⟩
  · rfl
  · rfl
  · exact Kind.isLanding_of_startsDefinition starts

/-- Among members the word `native` stands before an action. -/
theorem native_of_endsMembers {kind next : Kind} (inside : ¬endsMembers kind next = true)
    (native : kind = .keyword .nativeKw) : next = .keyword .actionKw := by
  subst native
  simpa [endsMembers, Kind.startsDefinition, Keyword.startsDefinition] using inside

/-- The members of a definition end where reading would go on. -/
theorem members_same {α : Type} {member deeper : Step α} (eager : Eager (fun _ => True) member)
    (same : ∀ there, ¬endsMembers there.peek.kind (there.peekNth 1).kind = true →
      margins.Outer there .loose member deeper Anything) :
    margins.Outer place footing (members member) (members deeper) Anything := by
  have loop : margins.Outer place footing (loop (nextMember member) [])
      (loop (nextMember deeper) []) fun last _ => last.peek.kind.isLanding = true := by
    refine .loop _ (nextMember_turn eager) (fun there found => ?_) []
    refine .look sees_current <| .look (sees_kindNth 1) <| .ite
      (fun ends => .pure fun _ _ => isLanding_of_endsMembers ends) fun inside => ?_
    have notEnd := (isBarrier_of_endsMembers inside).2
    refine .mapped (.orRecover .member _ notEnd ?_) fun _ _ _ _ => nofun
    exact (same there inside).mapped fun _ _ _ => trivial
  exact loop.andThen (fun _ => .bind .closeBrace fun _ => .pure _) fun _ _ _ landing =>
    (Outer.closeBrace landing).mapped fun _ _ _ => trivial

theorem notAMember_same {α : Type} (wanted : String) {lies : Cursor → α → Prop} :
    margins.Outer place footing (notAMember wanted) (notAMember wanted) lies :=
  .inner <| .failAt .expectedMember fun kind => Diagnostic.wantedFound wanted kind.description

/-- The word `native` where an error may have been reported, and may have been at the word
behind it: there reading goes on. -/
theorem eatNative_then {α : Type} {next further : Bool → Step α} {lies : Cursor → α → Prop}
    (known : place.peek.kind = .keyword .nativeKw → (place.peekNth 1).kind.isLanding = true)
    (behind : ∀ there native, margins.Outer there .loose (next native) (further native) lies) :
    margins.Outer place footing (eat (.keyword .nativeKw) >>= next)
      (eat (.keyword .nativeKw) >>= further) lies := by
  rintro parser other twins rfl on
  by_cases here : parser.cursor.peek.kind = .keyword .nativeKw
  · have ran := eat_of_kind here
    have otherRan := eat_of_kind (twins.places.kind.trans here)
    rw [bind_of_ok ran, bind_of_ok otherRan, after, bind_of_ok ran]
    have more := parser.cursor.remaining_pos (by simp [here])
    have rising := twins.places.rising
    refine (behind _ true (twins.moved twins.places.advance) rfl fun offset member => ?_).imp_left
      (.behind (rising.onwards more))
    refine Cursor.Passed.advanceBy rising (on.loosen offset member).reaches
      ⟨more, fun none => absurd none Nat.one_ne_zero, fun _ _ => ?_⟩
    rw [Cursor.peek_advanceBy]
    exact known here
  · have ran := eat_of_other here
    have otherRan := eat_of_other (fun same => here (twins.places.kind.symm.trans same))
    rw [bind_of_ok ran, bind_of_ok otherRan, after, bind_of_ok ran]
    exact behind _ false twins rfl on.loosen

variable (level : margins.extra = 0 ∨ room ≠ 0)

include level

theorem resource_same (notEnd : place.peek.kind ≠ .endOfFile) :
    margins.Outer place footing (resource room) (resource (room + margins.extra)) Anything := by
  have rest {place : Cursor} {footing : Footing} (start : Span) (attachments : List Attachment) :
      margins.Outer place footing
        (do
          let _ ← expectKeyword .resourceKw
          let name ← expectIdentifier
          let params ← params room
          let body ← body room .callable
          return (⟨attachments, name, params, body, start.merge body.span⟩ : ResourceDef))
        (do
          let _ ← expectKeyword .resourceKw
          let name ← expectIdentifier
          let params ← params (room + margins.extra)
          let body ← body (room + margins.extra) .callable
          return ⟨attachments, name, params, body, start.merge body.span⟩) Anything :=
    .bind (.keyword nofun) fun _ _ => .bind .identifier fun _ _ => .bind (params_same _) fun _ _ =>
      (body_same room _ _).mapped fun _ _ _ => trivial
  exact .peekInside notEnd <| attachments_then (.inr level) (fun _ _ => rest _ _) fun _ => rest _ _

theorem serviceMember_same (notEnd : place.peek.kind ≠ .endOfFile) :
    margins.Outer place footing (serviceMember room) (serviceMember (room + margins.extra))
      Anything :=
  .look sees_current <| .ite (fun _ => (resource_same level notEnd).mapped fun _ _ _ => trivial)
    fun _ => .look sees_isVarDef <| .ite
      (fun starts => .firm (Cursor.isLanding_of_startsVarDef starts)
        ((varDef_same (StmtParts.within_areSame room)).mapped fun _ _ _ => trivial))
      fun _ => notAMember_same _

theorem action_same (notEnd : place.peek.kind ≠ .endOfFile)
    (known : place.peek.kind = .keyword .nativeKw → (place.peekNth 1).kind = .keyword .actionKw) :
    margins.Outer place footing (action room) (action (room + margins.extra)) Anything := by
  have rest {place : Cursor} {footing : Footing} (start : Span) (attachments : List Attachment)
      (native : Bool) :
      margins.Outer place footing
        (do
          let _ ← expectKeyword .actionKw
          let signature ← signature room
          let body ← callableEnd native (body room .callable)
          return (⟨attachments, native, signature, body, ← spanFrom start⟩ : CallableDef))
        (do
          let _ ← expectKeyword .actionKw
          let signature ← signature (room + margins.extra)
          let body ← callableEnd native (body (room + margins.extra) .callable)
          return ⟨attachments, native, signature, body, ← spanFrom start⟩) Anything :=
    .bind (.keyword nofun) fun _ _ => .bind (signature_same _) fun _ _ =>
      (callableEnd_same (body_same room _ _)).thenSpan _
  refine .peekInside notEnd <| attachments_then (.inr level)
    (fun _ _ => .bind (.eat _ nofun) fun _ _ => rest _ _ _) fun _ => eatNative_then
    (fun native => ?_) fun _ _ => rest _ _ _
  rw [known native]
  rfl

theorem connectorMember_same (inside : ¬endsMembers place.peek.kind (place.peekNth 1).kind = true) :
    margins.Outer place footing (connectorMember room) (connectorMember (room + margins.extra))
      Anything := by
  have notEnd := (isBarrier_of_endsMembers inside).2
  exact .look sees_current <| .ite
    (fun _ => (action_same level notEnd (native_of_endsMembers inside)).mapped
      fun _ _ _ => trivial)
    fun _ => .look sees_isVarDef <| .ite
      (fun starts => .firm (Cursor.isLanding_of_startsVarDef starts)
        ((varDef_same (StmtParts.within_areSame room)).mapped fun _ _ _ => trivial))
      fun _ => notAMember_same _

omit level

theorem typedField_same :
    margins.Outer place .firm (typedField room) (typedField (room + margins.extra)) Anything :=
  .bind (typeName_same room _) fun _ _ => .bind .identifier fun _ _ =>
    .bind (.ifBehind nofun simpleLiteral_same) fun _ _ => endStatement_spanned _ _

theorem field_same :
    margins.Outer place footing (field room) (field (room + margins.extra)) Anything :=
  .look sees_current <| .ite
    (fun starts => .firm (Kind.isLanding_of_startsType starts) typedField_same)
    fun _ => notAMember_same _

/-! ### Definitions -/

section Headed

variable (header : Header)

theorem service_same (level : margins.extra = 0 ∨ room ≠ 0) :
    margins.Outer place footing (service room header) (service (room + margins.extra) header)
      Anything :=
  .bind (.keyword nofun) fun _ _ => .bind (.symbol _) fun _ _ => .bind .identifier fun _ _ =>
    .bind (.symbol _) fun _ _ => .bind .identifier fun _ _ => .bind (.symbol _) fun _ _ =>
    (members_same (serviceMember_eager room) fun _ inside =>
      serviceMember_same level (isBarrier_of_endsMembers inside).2).thenSpan _

/-- A function behind its word, with the word `native` in front of that or without. -/
theorem function_same
    (known : place.peek.kind = .keyword .nativeKw → (place.peekNth 1).kind = .keyword .functionKw) :
    margins.Outer place footing (function room header) (function (room + margins.extra) header)
      Anything := by
  refine eatNative_then (fun native => ?_) fun _ _ => .bind (.keyword nofun) fun _ _ =>
    .bind (signature_same _) fun _ _ => (callableEnd_same (body_same room _ _)).thenSpan _
  rw [known native]
  rfl

theorem connector_same (level : margins.extra = 0 ∨ room ≠ 0) :
    margins.Outer place footing (connector room header) (connector (room + margins.extra) header)
      Anything :=
  .bind (.keyword nofun) fun _ _ => .bind .identifier fun _ _ => .bind (params_same _) fun _ _ =>
    .bind (.symbol _) fun _ _ =>
    (members_same (connectorMember_eager room) fun _ inside =>
      connectorMember_same level inside).thenSpan _

theorem struct_same :
    margins.Outer place footing (struct room header) (struct (room + margins.extra) header)
      Anything :=
  .bind (.keyword nofun) fun _ _ => .bind .identifier fun _ _ => .bind (.symbol _) fun _ _ =>
    (members_same (field_eager room) fun _ _ => field_same).thenSpan _

omit room in
theorem attachPoint_same : margins.Same attachPoint attachPoint := by
  refine fun place => .peek fun other tokens => ?_
  by_cases atEnd : place.peek.kind = .endOfFile
  · rw [tokens.kind, atEnd]
    exact .wrongToken tokens _
  · rw [tokens.same atEnd]
    split
    · exact (Inner.advanceInside atEnd (.inl rfl)).mapped fun _ _ _ => trivial
    · exact .failInside (isComplaint_wrongToken _ _).isError
        (by rw [start_wrongToken]; exact Nat.le_refl _) (.inr atEnd)

omit room in
theorem attachPoints_same : margins.Same attachPoints attachPoints :=
  fun _ => .bind (.eat _ nofun) fun _ _ => .ite (fun _ => .list attachPoint_same)
    fun _ => .pure trivial

theorem annotationDef_same :
    margins.Outer place footing (annotationDef room header)
      (annotationDef (room + margins.extra) header) Anything :=
  .bind (.keyword nofun) fun _ _ => .bind .identifier fun _ _ => .bind (attachPoints_same _)
    fun _ _ => .bind (.symbol _) fun _ _ =>
    (members_same (field_eager room) fun _ _ => field_same).thenSpan _

theorem block_same :
    margins.Outer place .firm (block room) (block (room + margins.extra)) Anything :=
  (body_same room .block place).mapped fun _ _ _ => trivial

theorem typeMapper_same
    (known : place.peek.kind = .keyword .nativeKw →
      (place.peekNth 1).kind = .keyword .typemapperKw) :
    margins.Outer place footing (typeMapper room header)
      (typeMapper (room + margins.extra) header) Anything := by
  refine eatNative_then (fun native => ?_) fun _ _ => .bind (.keyword nofun) fun _ _ =>
    .bind .identifier fun _ _ => .bind (.symbol _) fun _ _ => .bind (param_same _) fun _ _ =>
    .bind (.symbol _) fun _ _ => .bind (.symbol _) fun _ _ => .bind (typeName_same room _)
      fun _ _ => .bind (.symbol _) fun _ _ => (callableEnd_same block_same).thenSpan _
  rw [known native]
  rfl

theorem constantType_same :
    margins.Same (constantType room) (constantType (room + margins.extra)) := by
  refine fun place => .peek fun other tokens => ?_
  rw [tokens.kind]
  exact .ite (fun _ => baseType_same (typeName_same room) place) fun _ =>
    .fail (tokens.spans.error _ _) (.upTo (Nat.le_refl _))

theorem constant_same :
    margins.Outer place footing (constant room header) (constant (room + margins.extra) header)
      Anything :=
  .bind (.keyword nofun) fun _ _ => .bind (constantType_same _) fun _ _ => .bind .identifier
    fun _ _ => .bind (.symbol _) fun _ _ => .bind (expr_same room 0 _) fun _ _ =>
    endStatement_spanned _ _

theorem globalVar_same :
    margins.Outer place .firm (globalVar room header) (globalVar (room + margins.extra) header)
      Anything :=
  .bind (typeName_same room _) fun _ _ => .bind .identifier fun _ _ =>
    .bind (.ifBehind nofun fun _ => expr_same room 0 _) fun _ _ => endStatement_spanned _ _

theorem plainDefinition_same :
    margins.Outer place footing (plainDefinition room header)
      (plainDefinition (room + margins.extra) header) Anything :=
  .look sees_isVarDef <| .ite
    (fun starts => .firm (Cursor.isLanding_of_startsVarDef starts)
      ((globalVar_same header).mapped fun _ _ _ => trivial))
    fun _ => .inner <| .failAt .expectedDefinition fun kind =>
      Diagnostic.wantedFound "definition" kind.description

/-- The error about what is not native is at the word behind. -/
theorem nativeDefinition_same (native : place.peek.kind = .keyword .nativeKw) :
    margins.Outer place footing (nativeDefinition room header)
      (nativeDefinition (room + margins.extra) header) Anything := by
  refine .look (sees_kindNth 1) ?_
  split
  · rename_i function
    exact (function_same header fun _ => function).mapped fun _ _ _ => trivial
  · rename_i typemapper
    exact (typeMapper_same header fun _ => typemapper).mapped fun _ _ _ => trivial
  · rename_i notFunction notTypemapper
    rintro parser other twins rfl on
    rw [look_bind (cursor_eq parser), look_bind (cursor_eq other), after,
      look_bind (cursor_eq parser)]
    have more := parser.cursor.remaining_pos (by simp [native])
    have tokens := twins.places.tokens_peekNth more
    refine .inl (.error (tokens.wrongToken _) twins (.refl _) on.loosen ?_)
    refine .stray ⟨native, ?_⟩ (by rw [start_wrongToken])
    simp only [List.mem_cons, List.not_mem_nil, or_false, not_or]
    exact ⟨notFunction, notTypemapper⟩

omit room in
theorem misplacedDirective_same :
    margins.Outer place footing misplacedDirective misplacedDirective Anything :=
  .inner <| .peek fun _ tokens => .fail (tokens.error _ fun kind =>
    kind.description ++ " must come before all definitions") (.upTo (Nat.le_refl _))

theorem headedDefinition_same (level : margins.extra = 0 ∨ room ≠ 0) :
    margins.Outer place footing (headedDefinition room header)
      (headedDefinition (room + margins.extra) header) Anything := by
  refine .look sees_current ?_
  generalize known : place.peek.kind = kind
  split
  · exact (service_same header level).mapped fun _ _ _ => trivial
  · exact (function_same header fun native => nomatch known.symm.trans native).mapped
      fun _ _ _ => trivial
  · exact nativeDefinition_same header known
  · exact (connector_same header level).mapped fun _ _ _ => trivial
  · exact (struct_same header).mapped fun _ _ _ => trivial
  · exact (typeMapper_same header fun native => nomatch known.symm.trans native).mapped
      fun _ _ _ => trivial
  · exact (constant_same header).mapped fun _ _ _ => trivial
  · exact (annotationDef_same header).mapped fun _ _ _ => trivial
  · exact misplacedDirective_same
  · exact misplacedDirective_same
  · exact misplacedDirective_same
  · exact plainDefinition_same header

end Headed

theorem definition_same (level : margins.extra = 0 ∨ room ≠ 0)
    (notEnd : place.peek.kind ≠ .endOfFile) :
    margins.Outer place footing (definition room) (definition (room + margins.extra)) Anything :=
  .peekInside notEnd <| attachments_then (.inr level)
    (fun _ _ => headedDefinition_same _ level) fun _ => headedDefinition_same _ level

/-! ### Sources -/

section Sources

omit room

theorem nextSegment_same (segments : List Identifier) :
    margins.Same (nextSegment segments) (nextSegment segments) :=
  fun _ => .look (sees_check _) <| .look (sees_kindNth 1) <| .ite
    (fun _ => .bind (.symbol _) fun _ _ => Inner.identifier.mapped fun _ _ _ => trivial)
    fun _ => .pure trivial

theorem segments_same (found : List Identifier) :
    margins.Same (loop nextSegment found) (loop nextSegment found) :=
  fun _ => .loopFirm (fun there segments _ => nextSegment_same segments there) trivial

theorem packageName_same : margins.Same packageName packageName :=
  fun _ => .bind .identifier fun _ _ => .bind (segments_same _ _) fun _ _ => .spanned _ trivial

theorem packageDecl_same : margins.Outer place footing packageDecl packageDecl Anything :=
  .bind (.keyword nofun) fun _ _ => .bind (packageName_same _) fun _ _ => endStatement_spanned _ _

theorem importDecl_same : margins.Outer place footing importDecl importDecl Anything :=
  .bind (.keyword nofun) fun _ _ => .bind (packageName_same _) fun _ _ =>
    .bind (.ifBehind nofun fun _ => .identifier) fun _ _ => endStatement_spanned _ _

theorem directive_same : margins.Outer place footing directive directive Anything :=
  .look (sees_check _) <| .ite (fun _ => importDecl_same.mapped fun _ _ _ => trivial)
    fun _ => namespaceDecl_same.mapped fun _ _ _ => trivial

theorem packageHeader_same : margins.Outer place footing packageHeader packageHeader Anything :=
  .look (sees_check _) <| .ite
    (fun here => .orSkip _ (beq_iff_eq.mp here ▸ nofun)
      (packageDecl_same.mapped fun _ _ _ => trivial))
    fun _ => .pure trivial

theorem directives_same : margins.Outer place footing directives directives Anything := by
  refine .loop (fun _ => True) nextDirective_turn (fun there found => ?_) []
  refine .look sees_current <| .ite (fun here => ?_) fun _ => .pure fun _ _ => trivial
  have notEnd : there.peek.kind ≠ .endOfFile := by
    intro atEnd
    rw [atEnd] at here
    simp at here
  exact (Outer.orSkip _ notEnd (directive_same.mapped fun _ _ _ => trivial)).mapped
    fun _ _ _ _ _ => trivial

end Sources

theorem definitions_same (level : margins.extra = 0 ∨ room ≠ 0) :
    margins.Outer place footing (definitions room) (definitions (room + margins.extra))
      fun last _ => last.peek.kind = .endOfFile := by
  refine .loop _ (nextDefinition_turn room) (fun there found => ?_) []
  refine .look (sees_check _) <| .ite (fun atEnd => .pure fun _ _ => beq_iff_eq.mp atEnd)
    fun inside => ?_
  have notEnd : there.peek.kind ≠ .endOfFile := fun atEnd => inside (beq_iff_eq.mpr atEnd)
  exact (Outer.orSkip _ notEnd (definition_same level notEnd)).mapped fun _ _ _ _ => nofun

def sourceParts (room : Nat) : Step (Option PackageDecl × List Directive × List Definition) := do
  let package ← packageHeader
  let directives ← directives
  let items ← definitions room
  return (package, directives, items)

theorem sourceParts_succeeds (room : Nat) : Succeeds (sourceParts room) :=
  .bind packageHeader_succeeds fun _ => .bind directives_succeeds fun _ =>
    .bind (definitions_succeeds room) fun _ => .pure _

/-- The span of a source goes from its first token to its end. -/
theorem sourceUnit_of_parts {parser later : Parser}
    {parts : Option PackageDecl × List Directive × List Definition}
    (ran : sourceParts room parser = .ok parts later) :
    sourceUnit room parser = .ok ⟨parts.1, parts.2.1, parts.2.2,
      parser.cursor.peek.span.merge later.cursor.peek.span⟩ later := by
  obtain ⟨package, between, ranPackage, ran⟩ := bind_ok ran
  obtain ⟨directives, behind, ranDirectives, ran⟩ := bind_ok ran
  obtain ⟨items, last, ranItems, ran⟩ := bind_ok ran
  cases ran
  rw [sourceUnit, look_bind (peek_eq parser), bind_of_ok ranPackage, bind_of_ok ranDirectives,
    bind_of_ok ranItems, look_bind (peek_eq _)]
  rfl

theorem sourceParts_of_end {parser : Parser} (atEnd : parser.cursor.peek.kind = .endOfFile) :
    sourceParts room parser = .ok (none, [], []) parser := by
  have noPackage : packageHeader parser = .ok none parser := by
    rw [packageHeader, look_bind (check_eq parser _), atEnd]
    rfl
  have noDirectives : directives parser = .ok [] parser := by
    refine loop_of_done ?_
    rw [nextDirective, look_bind (current_eq parser), atEnd]
    rfl
  have noItems : definitions room parser = .ok [] parser := by
    refine loop_of_done ?_
    rw [nextDefinition, isEnd, look_bind (check_eq parser _), atEnd]
    rfl
  rw [sourceParts, bind_of_ok noPackage, bind_of_ok noDirectives, bind_of_ok noItems, pure_eq]

theorem sourceParts_same (level : margins.extra = 0 ∨ room ≠ 0) :
    margins.Outer place footing (sourceParts room) (sourceParts (room + margins.extra))
      fun last _ => last.peek.kind = .endOfFile :=
  packageHeader_same.andThen
    (fun _ => .bind directives_orderly fun _ => .bind (definitions_orderly room) fun _ => .pure _)
    fun _ _ _ _ => directives_same.andThen
      (fun _ => .bind (definitions_orderly room) fun _ => .pure _)
      fun _ _ _ _ => (definitions_same level).mapped fun _ _ atEnd => atEnd

/-- What two parses of a source come to, the first of which has not been refused a level that
the second one has. -/
theorem sourceParts_of_twins {parser other : Parser} (twins : margins.Twins parser other)
    (on : parser.On .firm) (level : margins.extra = 0 ∨ room ≠ 0)
    (allowed : margins.extra ≠ 0 → ¬(after (sourceParts room) parser).HasRefusal) :
    ∃ parts later last, sourceParts room parser = .ok parts later ∧
      sourceParts (room + margins.extra) other = .ok parts last ∧
      margins.Twins later last ∧ later.cursor.peek.kind = .endOfFile := by
  obtain ⟨parts, later, ran⟩ := sourceParts_succeeds room parser
  rcases sourceParts_same level twins rfl on with outcomes | ⟨deeper, refusal⟩
  · rw [ran] at outcomes
    generalize otherRan : sourceParts (room + margins.extra) other = right at outcomes
    cases outcomes with
    | ok twins onwards here => exact ⟨parts, later, _, ran, rfl, twins, here.2⟩
  · exact absurd refusal (allowed deeper)

end ServiceLang.Grammar

namespace ServiceLang.Margins

variable {margins : Margins}

theorem Twins.ofTokens {tokens others : List Token} {options otherOptions : Options}
    (places : margins.Places (.ofTokens tokens) (.ofTokens others))
    (noLimit : options.maxErrors = none) (otherNoLimit : otherOptions.maxErrors = none)
    (depth : options.maxDepth = margins.depth)
    (otherDepth : otherOptions.maxDepth = margins.depth + margins.extra)
    (comments : otherOptions.keepComments = options.keepComments) :
    margins.Twins (.ofTokens tokens [] options) (.ofTokens others [] otherOptions) := by
  refine ⟨places, ⟨⟨rfl, noLimit⟩, ⟨rfl, otherNoLimit⟩, fun offset => ?_, fun offset => ?_, .nil⟩,
    depth, otherDepth, comments⟩
  · exact iff_of_false List.not_mem_nil fun ⟨_, member, _⟩ => nomatch member
  · exact iff_of_false List.not_mem_nil fun ⟨_, member, _⟩ => nomatch member

end ServiceLang.Margins
