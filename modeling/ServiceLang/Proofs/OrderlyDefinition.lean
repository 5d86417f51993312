import ServiceLang.Grammar.Definition
import ServiceLang.Proofs.OrderlyStmt

set_option autoImplicit false

/-! The rules for annotations and definitions are orderly: a definition passes over
the word that opens it and over no other such word, unless a token right before
takes it. -/

namespace ServiceLang.Grammar

open Step

variable {legal : Cursor → Prop} [permissive : Permissive legal]

/-! ### Annotations -/

omit permissive in
theorem literalOf_ok {token : Token} {literal : Literal} {parser later : Parser}
    (ran : literalOf token parser = .ok literal later) :
    ∃ value, literalValue? token = some value ∧ literal = ⟨value, false, token.span⟩ ∧
      later = parser := by
  rw [literalOf] at ran
  cases found : literalValue? token with
  | none =>
      rw [found] at ran
      exact absurd ran fail_ne_ok
  | some value =>
      rw [found] at ran
      cases ran
      exact ⟨value, rfl, rfl, rfl⟩

omit permissive in
theorem isBarrier_of_literalValue? {token : Token} {value : LiteralValue}
    (found : literalValue? token = some value) : token.kind.isBarrier = false := by
  unfold literalValue? at found
  split at found
  case h_6 => cases found
  all_goals
    rename_i kind
    rw [kind]
    rfl

theorem unsignedLiteral_orderly : Orderly legal unsignedLiteral := by
  refine fun parser => .lookThen (fun _ alike => peek_alike alike) ?_
  split
  · exact Orderly.fail ⟨rfl, by nofun⟩ parser
  · refine .bind (literalOf_orderly _ parser) fun literal later ran => ?_
    obtain ⟨value, found, -, rfl⟩ := literalOf_ok ran
    exact .bind (Run.advanceOf rfl (isBarrier_of_literalValue? found)) fun _ last _ => Orderly.pure _ last

theorem simpleLiteral_orderly : Orderly legal simpleLiteral := by
  refine fun parser => .lookThen (fun _ alike => startsNegativeLiteral_alike alike) ?_
  split
  · rename_i starts
    rw [Bool.and_eq_true] at starts
    exact (negativeLiteral_eagerAt starts.2).run
  · exact unsignedLiteral_orderly parser

theorem annotationEntry_orderly {value : Step AnnotationValue} (orderly : Orderly legal value) :
    Orderly legal (annotationEntry value) :=
  .bind .expectIdentifier fun _ => .bind (.symbol _) fun _ => .bind orderly fun _ => .pure _

theorem attachmentWith_eager {value : Step AnnotationValue} (orderly : Orderly legal value) :
    Eager legal (attachmentWith value) :=
  .bind (.symbol _) fun _ => .bind nameReference_eager.orderly fun _ => .bind (.symbol _) fun _ =>
    .bind (.closedList (annotationEntry_orderly orderly)) fun _ => .pure _

theorem annotationArray_orderly {value : Step AnnotationValue} (orderly : Orderly legal value) :
    Orderly legal (annotationArray value) :=
  .bind (.symbol _) fun _ => .bind (.closedList orderly) fun _ => .pure _

theorem annotationValue_orderly (room : Nat) : Orderly legal (annotationValue room) := by
  induction room with
  | zero =>
      refine .bind .current fun kind => ?_
      split
      · exact .tooDeep
      · exact .tooDeep
      · exact .bind simpleLiteral_orderly fun _ => .pure _
  | succ room ih =>
      refine .bind .current fun kind => ?_
      split
      · exact .bind (attachmentWith_eager ih).orderly fun _ => .pure _
      · exact annotationArray_orderly ih
      · exact .bind simpleLiteral_orderly fun _ => .pure _

theorem attachment_eager (room : Nat) : Eager legal (attachment room) := by
  cases room with
  | zero => exact .tooDeep
  | succ room => exact attachmentWith_eager (annotationValue_orderly room)

theorem attachments_orderly (room : Nat) : Orderly legal (attachments room) :=
  .whileAt (attachment_eager room)

/-! ### Signatures -/

variable (room : Nat)

theorem param_orderly : Orderly legal (param room) :=
  .bind .peek fun _ => .bind (attachments_orderly room) fun _ =>
    .bind (typeName_eager room).orderly fun _ => .bind .expectIdentifier fun _ => .pure _

theorem params_orderly : Orderly legal (params room) :=
  .bind (.symbol _) fun _ => .bind (.closedList (param_orderly room)) fun _ => .pure _

omit permissive in
theorem resultsAreNamed_orderly : Orderly legal resultsAreNamed :=
  .bind (.check _) fun _ => .ite (.pure _) .isVarDef

theorem results_orderly : Orderly legal (results room) :=
  .bind resultsAreNamed_orderly fun _ => .ite
    (.bind (.commaSeparated (param_orderly room)) fun _ => .pure _)
    (.bind (.commaSeparated (typeName_eager room).orderly) fun _ => .pure _)

theorem returns_orderly : Orderly legal (returns room) :=
  .bind (.symbol _) fun _ => .bind (results_orderly room) fun _ => .bind (.symbol _) fun _ =>
    .pure _

theorem signature_orderly : Orderly legal (signature room) :=
  .bind .expectIdentifier fun _ => .bind (params_orderly room) fun _ =>
    .bind (.ifAt (returns_orderly room)) fun _ => .bind (.spanFrom _) fun _ => .pure _

theorem callableEnd_orderly {α : Type} {native : Bool} {body : Step α}
    (orderly : Orderly legal body) : Orderly legal (callableEnd native body) :=
  .ite (.bind .endStatement fun _ => .pure _) (.bind orderly fun _ => .pure _)

/-! ### Members -/

omit permissive in
theorem isBarrier_of_endsMembers {kind next : Kind} (inside : ¬endsMembers kind next = true) :
    kind.isBarrier = false ∧ kind ≠ .endOfFile := by
  constructor
  · cases barrier : kind.isBarrier with
    | false => rfl
    | true =>
        have starts := Kind.startsDefinition_of_isBarrier barrier
        have notNative : kind ≠ .keyword .nativeKw := by
          rintro rfl
          cases barrier
        simp [endsMembers, starts, notNative] at inside
  · rintro rfl
    simp [endsMembers] at inside

theorem nextMember_turn {α : Type} {member : Step α} (eager : Eager legal member)
    (found : List α) : Turn legal (nextMember member found) := by
  refine .ofAt fun parser => .lookThen (fun _ alike => current_alike alike) ?_
  refine .lookThen (fun _ alike => kindNth_alike alike 1) ?_
  split
  · exact .done found
  · rename_i inside
    obtain ⟨free, more⟩ := isBarrier_of_endsMembers inside
    refine .eager (.bind ?_ fun _ later _ => Orderly.pure _ later)
    refine .orRecover (.of (.bind eager fun _ => .pure _)) ?_ more
    exact permissive.ofIsOpen _ (.of_kind rfl free)

theorem members_orderly {α : Type} {member : Step α} (eager : Eager legal member) :
    Orderly legal (members member) :=
  .bind (.loop (nextMember_turn eager) []) fun _ => .bind .closeBrace fun _ => .pure _

omit permissive in
theorem notAMember_eager {α : Type} (wanted : String) :
    Eager legal (notAMember wanted : Step α) :=
  .failAt fun _ => ⟨rfl, nofun⟩

theorem resource_eager : Eager legal (resource room) :=
  .behind .peek fun _ => .behind (attachments_orderly room) fun _ => .bind (.keyword rfl) fun _ =>
    .bind .expectIdentifier fun _ => .bind (params_orderly room) fun _ =>
    .bind (body_eager room _).orderly fun _ => .pure _

theorem serviceMember_eager : Eager legal (serviceMember room) :=
  .behind .current fun _ => .ite (.bind (resource_eager room) fun _ => .pure _) <|
    .behind .isVarDef fun _ => .ite
      (.bind (varDef_eager (StmtParts.within_areEager room)) fun _ => .pure _)
      (notAMember_eager _)

theorem action_eager : Eager legal (action room) :=
  .behind .peek fun _ => .behind (attachments_orderly room) fun _ => .behind (.eat rfl) fun _ =>
    .bind (.keyword rfl) fun _ => .bind (signature_orderly room) fun _ =>
    .bind (callableEnd_orderly (body_eager room _).orderly) fun _ => .bind (.spanFrom _) fun _ =>
    .pure _

theorem connectorMember_eager : Eager legal (connectorMember room) :=
  .behind .current fun _ => .ite (.bind (action_eager room) fun _ => .pure _) <|
    .behind .isVarDef fun _ => .ite
      (.bind (varDef_eager (StmtParts.within_areEager room)) fun _ => .pure _)
      (notAMember_eager _)

theorem typedField_eager : Eager legal (typedField room) :=
  .bind (typeName_eager room) fun _ => .bind .expectIdentifier fun _ =>
    .bind (.ifBehind rfl simpleLiteral_orderly) fun _ => .bind .endStatement fun _ =>
    .bind (.spanFrom _) fun _ => .pure _

theorem field_eager : Eager legal (field room) :=
  .behind .current fun _ => .ite (typedField_eager room) (notAMember_eager _)

/-! ### Definitions -/

omit room in
theorem attachPoint_run {parser : Parser} (sheltered : parser.cursor.IsSheltered) :
    RunsIn legal attachPoint parser := by
  refine .lookThen (fun _ alike => peek_alike alike) ?_
  split
  · exact .bind (Run.advance fun _ => permissive.ofIsOpen _ (.inr sheltered)) fun _ later _ =>
      Orderly.pure _ later
  · exact Orderly.fail (isComplaint_wrongToken _ _) parser

omit room in
/-- Every attachment point stands behind the word `attach` or behind a comma. -/
theorem attachPointLoop_run (found : List AttachPoint) {parser : Parser}
    (sheltered : parser.cursor.IsSheltered) :
    RunsIn legal (loop (nextListed attachPoint) found) parser := by
  have goesOn : ∀ point between next later, attachPoint parser = .ok point between →
      (eat (.symbol .comma) >>= fun more =>
        (if more then pure (.yield (found ++ [point])) else pure (.done (found ++ [point])) :
          Step (ForInStep (List AttachPoint)))) between = .ok (.yield next) later →
      later.cursor.IsSheltered ∧ later.cursor.remaining < parser.cursor.remaining := by
    intro point between next later ranPoint ran
    have run : RunsIn legal attachPoint parser := attachPoint_run sheltered
    have before := run.remaining_le_of_ok ranPoint
    by_cases comma : between.cursor.peek.kind = .symbol .comma
    · rw [bind_of_ok (eat_of_kind comma)] at ran
      cases ran
      have passed := between.remaining_advance (by rw [comma]; simp)
      exact ⟨Cursor.isSheltered_advance comma (by simp) rfl, by omega⟩
    · rw [bind_of_ok (eat_of_other comma)] at ran
      cases ran
  refine .loop ?_ (fun next later ran => ?_) fun next later ran => ?_
  · exact .bind (attachPoint_run sheltered) fun point between _ =>
      Orderly.bind (.eat rfl) (fun _ => .ite (.pure _) (.pure _)) between
  · obtain ⟨point, between, ranPoint, ran⟩ := bind_ok ran
    exact (goesOn point between next later ranPoint ran).2
  · obtain ⟨point, between, ranPoint, ran⟩ := bind_ok ran
    have behind := goesOn point between next later ranPoint ran
    have shorter := behind.2
    exact attachPointLoop_run next behind.1
termination_by parser.cursor.remaining

omit room in
theorem attachPoints_orderly : Orderly legal attachPoints := by
  intro parser
  by_cases here : parser.cursor.peek.kind = .keyword .attachKw
  · refine .bind (Orderly.eat rfl parser) fun found later ran => ?_
    rw [eat_of_kind here] at ran
    cases ran
    exact attachPointLoop_run [] (Cursor.isSheltered_advance here (by simp) rfl)
  · refine .bind (Orderly.eat rfl parser) fun found later ran => ?_
    rw [eat_of_other here] at ran
    cases ran
    exact Orderly.pure _ parser

theorem constantType_orderly : Orderly legal (constantType room) :=
  .bind .peek fun _ => .ite (baseType_eager (typeName_eager room).orderly).orderly (.fail ⟨rfl, nofun⟩)

theorem globalVar_eager (header : Header) : Eager legal (globalVar room header) :=
  .bind (typeName_eager room) fun _ => .bind .expectIdentifier fun _ =>
    .bind (.ifBehind rfl (expr_eager room 0).orderly) fun _ => .bind .endStatement fun _ =>
    .bind (.spanFrom _) fun _ => .pure _

theorem plainDefinition_eager (header : Header) : Eager legal (plainDefinition room header) :=
  .behind .isVarDef fun _ => .ite (.bind (globalVar_eager room header) fun _ => .pure _)
    (.failAt fun _ => ⟨rfl, nofun⟩)

omit permissive in
/-- The word `native` is looked at together with the word behind it. -/
theorem headedDefinition_eq (header : Header) : headedDefinition room header = (do
    if (← check (.keyword .nativeKw)) && (← kindNth 1) == .keyword .functionKw then
      return .function (← function room header)
    else if (← check (.keyword .nativeKw)) && (← kindNth 1) == .keyword .typemapperKw then
      return .typeMapper (← typeMapper room header)
    else
      match ← current with
      | .keyword .serviceKw => return .service (← service room header)
      | .keyword .functionKw => return .function (← function room header)
      | .keyword .nativeKw => fail (wrongToken ((← cursor).peekNth 1) "'function' or 'typemapper'")
      | .keyword .connectorKw => return .connector (← connector room header)
      | .keyword .structKw => return .struct (← struct room header)
      | .keyword .typemapperKw => return .typeMapper (← typeMapper room header)
      | .keyword .constKw => return .constant (← constant room header)
      | .keyword .annotationKw => return .annotationDef (← annotationDef room header)
      | .keyword .packageKw | .keyword .importKw | .keyword .xmlnsKw => misplacedDirective
      | _ => plainDefinition room header) := by
  funext parser
  rw [headedDefinition, look_bind (current_eq parser), look_bind (check_eq parser _),
    look_bind (kindNth_eq parser 1)]
  by_cases native : parser.cursor.peek.kind = .keyword .nativeKw
  · simp only [native]
    rw [nativeDefinition, look_bind (kindNth_eq parser 1)]
    by_cases function : (parser.cursor.peekNth 1).kind = .keyword .functionKw
    · rw [if_pos (by simp [function])]
      simp only [function]
    rw [if_neg (by simp [function]), look_bind (check_eq parser _),
      look_bind (kindNth_eq parser 1)]
    by_cases typemapper : (parser.cursor.peekNth 1).kind = .keyword .typemapperKw
    · rw [if_pos (by simp [native, typemapper])]
      simp only [typemapper]
    rw [if_neg (by simp [typemapper]), look_bind (current_eq parser)]
    simp only [native]
  · rw [beq_eq_false_iff_ne.mpr native, Bool.false_and, if_neg (by simp),
      look_bind (check_eq parser _), look_bind (kindNth_eq parser 1),
      beq_eq_false_iff_ne.mpr native, Bool.false_and, if_neg (by simp),
      look_bind (current_eq parser)]
    refine congrFun ?_ parser
    generalize parser.cursor.peek.kind = kind at native
    cases kind with
    | keyword word => cases word <;> first | rfl | exact absurd rfl native
    | _ => rfl

omit permissive in
theorem misplacedDirective_eager : Eager legal misplacedDirective :=
  .behind .peek fun _ => .fail ⟨rfl, nofun⟩

section Headed

variable (header : Header) {parser : Parser} (start : legal parser.cursor)

include start

omit room permissive in
/-- A definition passes over the word that opens it. -/
theorem openingWord_eagerAt (word : Keyword) : EagerAt legal (expectKeyword word) parser :=
  .expect (by simp) fun _ => start

theorem service_eagerAt : EagerAt legal (service room header) parser :=
  .bind (openingWord_eagerAt start _) fun _ later _ =>
    Orderly.bind (.symbol _) (fun _ => .bind .expectIdentifier fun _ => .bind (.symbol _) fun _ =>
      .bind .expectIdentifier fun _ => .bind (.symbol _) fun _ =>
      .bind (members_orderly (serviceMember_eager room)) fun _ => .bind (.spanFrom _) fun _ =>
      .pure _) later

theorem connector_eagerAt : EagerAt legal (connector room header) parser :=
  .bind (openingWord_eagerAt start _) fun _ later _ =>
    Orderly.bind .expectIdentifier (fun _ => .bind (params_orderly room) fun _ =>
      .bind (.symbol _) fun _ => .bind (members_orderly (connectorMember_eager room)) fun _ =>
      .bind (.spanFrom _) fun _ => .pure _) later

theorem struct_eagerAt : EagerAt legal (struct room header) parser :=
  .bind (openingWord_eagerAt start _) fun _ later _ =>
    Orderly.bind .expectIdentifier (fun _ => .bind (.symbol _) fun _ =>
      .bind (members_orderly (field_eager room)) fun _ => .bind (.spanFrom _) fun _ =>
      .pure _) later

/-- Behind the word `native` the word that opens a definition is taken. -/
theorem nativeWord_eagerAt {α : Type} (word : Keyword) {next : Bool → Token → Step α}
    (onwards : ∀ native token, Orderly legal (next native token)) :
    EagerAt legal (eat (.keyword .nativeKw) >>= fun native =>
      expectKeyword word >>= next native) parser := by
  by_cases native : parser.cursor.peek.kind = .keyword .nativeKw
  · have sheltered := Cursor.isSheltered_advance native (by simp) rfl
    have passed := parser.remaining_advance (by rw [native]; simp)
    have rest : EagerAt legal (expectKeyword word >>= next true) parser.advance :=
      .bind (openingWord_eagerAt (permissive.ofIsOpen _ (.inr sheltered)) word)
        fun token later _ => onwards true token later
    refine ⟨.bind (Run.eat fun _ => start) fun found later ran => ?_, fun ran => ?_⟩
    · rw [eat_of_kind native] at ran
      cases ran
      exact rest.run
    · rw [bind_of_ok (eat_of_kind native)] at ran
      exact Nat.lt_trans (rest.advances ran) passed
  · have rest : EagerAt legal (expectKeyword word >>= next false) parser :=
      .bind (openingWord_eagerAt start word) fun token later _ => onwards false token later
    refine ⟨.bind (Run.eat fun _ => start) fun found later ran => ?_, fun ran => ?_⟩
    · rw [eat_of_other native] at ran
      cases ran
      exact rest.run
    · rw [bind_of_ok (eat_of_other native)] at ran
      exact rest.advances ran

theorem function_eagerAt : EagerAt legal (function room header) parser :=
  nativeWord_eagerAt start _ fun _ _ => .bind (signature_orderly room) fun _ =>
    .bind (callableEnd_orderly (body_eager room _).orderly) fun _ => .bind (.spanFrom _) fun _ =>
    .pure _

theorem typeMapper_eagerAt : EagerAt legal (typeMapper room header) parser :=
  nativeWord_eagerAt start _ fun _ _ => .bind .expectIdentifier fun _ => .bind (.symbol _) fun _ =>
    .bind (param_orderly room) fun _ => .bind (.symbol _) fun _ => .bind (.symbol _) fun _ =>
    .bind (typeName_eager room).orderly fun _ => .bind (.symbol _) fun _ =>
    .bind (callableEnd_orderly (block_eager room).orderly) fun _ => .bind (.spanFrom _) fun _ =>
    .pure _

theorem annotationDef_eagerAt : EagerAt legal (annotationDef room header) parser :=
  .bind (openingWord_eagerAt start _) fun _ later _ =>
    Orderly.bind .expectIdentifier (fun _ => .bind attachPoints_orderly fun _ =>
      .bind (.symbol _) fun _ => .bind (members_orderly (field_eager room)) fun _ =>
      .bind (.spanFrom _) fun _ => .pure _) later

theorem constant_eagerAt : EagerAt legal (constant room header) parser :=
  .bind (openingWord_eagerAt start _) fun _ later _ =>
    Orderly.bind (constantType_orderly room) (fun _ => .bind .expectIdentifier fun _ =>
      .bind (.symbol _) fun _ => .bind (expr_eager room 0).orderly fun _ =>
      .bind .endStatement fun _ => .bind (.spanFrom _) fun _ => .pure _) later

theorem nativeDefinition_eagerAt : EagerAt legal (nativeDefinition room header) parser := by
  refine .lookThen (fun _ alike => kindNth_alike alike 1) ?_
  split
  · exact .bind (function_eagerAt room header start) fun _ later _ => Orderly.pure _ later
  · exact .bind (typeMapper_eagerAt room header start) fun _ later _ => Orderly.pure _ later
  · exact .of (.behind .cursor fun _ => .fail (isComplaint_wrongToken _ _))

theorem headedDefinition_eagerAt : EagerAt legal (headedDefinition room header) parser := by
  refine .lookThen (fun _ alike => current_alike alike) ?_
  split
  · exact .bind (service_eagerAt room header start) fun _ later _ => Orderly.pure _ later
  · exact .bind (function_eagerAt room header start) fun _ later _ => Orderly.pure _ later
  · exact nativeDefinition_eagerAt room header start
  · exact .bind (connector_eagerAt room header start) fun _ later _ => Orderly.pure _ later
  · exact .bind (struct_eagerAt room header start) fun _ later _ => Orderly.pure _ later
  · exact .bind (typeMapper_eagerAt room header start) fun _ later _ => Orderly.pure _ later
  · exact .bind (constant_eagerAt room header start) fun _ later _ => Orderly.pure _ later
  · exact .bind (annotationDef_eagerAt room header start) fun _ later _ => Orderly.pure _ later
  · exact .of misplacedDirective_eager
  · exact .of misplacedDirective_eager
  · exact .of misplacedDirective_eager
  · exact .of (plainDefinition_eager room header)

end Headed

/-- Where every place is legal, annotations may stand before any definition. -/
theorem definition_eager : Eager (fun _ => True) (definition room) :=
  .behind .peek fun _ => .behind (attachments_orderly room) fun _ =>
    .ofAt fun _ => headedDefinition_eagerAt room _ trivial

/-! ### Sources -/

section Sources

omit room

theorem nextSegment_turn (segments : List Identifier) : Turn legal (nextSegment segments) :=
  .behind (.check _) fun _ => .behind (.kindNth 1) fun _ =>
    .ite (.eager (.bind (.symbol _) fun _ => .bind .expectIdentifier fun _ => .pure _)) (.done _)

theorem packageName_orderly : Orderly legal packageName :=
  .bind .expectIdentifier fun _ => .bind (.loop nextSegment_turn _) fun _ => .bind (.spanFrom _)
    fun _ => .pure _

theorem packageDecl_eager : Eager legal packageDecl :=
  .bind (.keyword rfl) fun _ => .bind packageName_orderly fun _ => .bind .endStatement fun _ =>
    .bind (.spanFrom _) fun _ => .pure _

theorem importDecl_eager : Eager legal importDecl :=
  .bind (.keyword rfl) fun _ => .bind packageName_orderly fun _ =>
    .bind (.ifBehind rfl .expectIdentifier) fun _ => .bind .endStatement fun _ =>
    .bind (.spanFrom _) fun _ => .pure _

theorem directive_eager : Eager legal directive :=
  .behind (.check _) fun _ => .ite (.bind importDecl_eager fun _ => .pure _)
    (.bind namespaceDecl_eager fun _ => .pure _)

theorem packageHeader_orderly : Orderly legal packageHeader := by
  refine fun parser => .lookThen (fun _ alike => check_alike alike _) ?_
  split
  · rename_i here
    refine Run.orSkip (Orderly.bind packageDecl_eager.orderly (fun _ => .pure _) parser) ?_
    exact permissive.ofIsOpen _ (.of_kind (beq_iff_eq.mp here) rfl)
  · exact Orderly.pure _ parser

theorem nextDirective_turn (found : List Directive) : Turn legal (nextDirective found) := by
  refine .ofAt fun parser => .lookThen (fun _ alike => current_alike alike) ?_
  split
  · rename_i here
    have free : parser.cursor.peek.kind.isBarrier = false ∧
        parser.cursor.peek.kind ≠ .endOfFile := by
      simp only [List.mem_cons, List.not_mem_nil, or_false] at here
      rcases here with here | here <;> rw [here] <;> exact ⟨rfl, by simp⟩
    refine .eager (.bind ?_ fun _ later _ => Orderly.pure _ later)
    refine .orSkip (.of (.bind directive_eager fun _ => .pure _)) ?_ free.2
    exact permissive.ofIsOpen _ (.of_kind rfl free.1)
  · exact .done found

theorem directives_orderly : Orderly legal directives :=
  .loop nextDirective_turn []

end Sources

theorem nextDefinition_turn (found : List Definition) :
    Turn (fun _ => True) (nextDefinition room found) := by
  refine .ofAt fun parser => .lookThen (fun _ alike => check_alike alike _) ?_
  split
  · exact .done found
  · rename_i inside
    refine .eager (.bind ?_ fun _ later _ => Orderly.pure _ later)
    exact .orSkip (.of (definition_eager room)) trivial (by simpa using inside)

theorem definitions_orderly : Orderly (fun _ => True) (definitions room) :=
  .loop (nextDefinition_turn room) []

theorem sourceUnit_orderly : Orderly (fun _ => True) (sourceUnit room) :=
  .bind .peek fun _ => .bind packageHeader_orderly fun _ => .bind directives_orderly fun _ =>
    .bind (definitions_orderly room) fun _ => .bind .peek fun _ => .pure _

end ServiceLang.Grammar
