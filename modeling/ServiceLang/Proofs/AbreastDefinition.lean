import ServiceLang.Grammar.Definition
import ServiceLang.Proofs.AbreastStmt
import ServiceLang.Proofs.Ending

set_option autoImplicit false

/-! The rules for annotations, definitions and whole sources keep abreast, so that a source
is read alike wherever its tokens stand. -/

namespace ServiceLang.Grammar

open Step

variable {matching : Matching}

/-! ### Annotations -/

theorem unsignedLiteral_steady : Steady matching unsignedLiteral := by
  refine .bind .peek fun _ _ token => ?_
  rw [token.kind]
  exact .ite (.fail (View.error_agree _ _ token.spans))
    (.bind (literalOf_abreast token) fun _ _ values => .bind .advance fun _ _ _ => .pure values)

theorem simpleLiteral_steady : Steady matching simpleLiteral :=
  .seen sees_startsNegativeLiteral fun _ => .ite negativeLiteral_steady unsignedLiteral_steady

section Value

variable {value : Step AnnotationValue} (steady : Steady matching value)

include steady

theorem annotationEntry_steady : Steady matching (annotationEntry value) := by
  refine .bind .expectIdentifier fun _ _ key => .bind (.symbol _) fun _ _ _ =>
    .bind steady fun _ _ values => .pure ?_
  have spans := matching.merge key.spans values.spans
  exact ⟨by simp only [Attribute.placedBy, key.same, values.same, matching.shown_eq spans], spans⟩

theorem attachmentWith_steady : Steady matching (attachmentWith value) := by
  refine .bind (.symbol _) fun _ _ sign => .bind nameReference_steady fun _ _ name =>
    .bind (.symbol _) fun _ _ _ =>
      .bind (.closedList (annotationEntry_steady steady) _) fun _ _ list => .pure ?_
  have spans := matching.merge sign.spans list.2.spans
  exact ⟨by simp only [Attachment.placedBy, name.same, Attribute.allPlacedBy_eq_map,
    View.map_eq_of_forall₂ list.1, matching.shown_eq spans], spans⟩

theorem annotationArray_steady : Steady matching (annotationArray value) := by
  refine .bind (.symbol _) fun _ _ opening => .bind (.closedList steady _) fun _ _ list => .pure ?_
  have spans := matching.merge opening.spans list.2.spans
  exact ⟨by simp only [AnnotationValue.placedBy, AnnotationValue.allPlacedBy_eq_map,
    View.map_eq_of_forall₂ list.1, matching.shown_eq spans], spans⟩

end Value

theorem literalValue_steady :
    Steady matching (do return AnnotationValue.literal (← simpleLiteral)) :=
  .bind simpleLiteral_steady fun _ _ values =>
    .pure ⟨by simp only [AnnotationValue.placedBy, values.same], values.spans⟩

theorem annotationValue_steady (room : Nat) : Steady matching (annotationValue room) := by
  induction room with
  | zero =>
      refine .seen .current fun kind => ?_
      split
      · exact .tooDeep
      · exact .tooDeep
      · exact literalValue_steady
  | succ room ih =>
      refine .seen .current fun kind => ?_
      split
      · exact .bind (attachmentWith_steady ih) fun _ _ nested =>
          .pure ⟨by simp only [AnnotationValue.placedBy, nested.same], nested.spans⟩
      · exact annotationArray_steady ih
      · exact literalValue_steady

theorem attachment_steady (room : Nat) : Steady matching (attachment room) := by
  cases room with
  | zero => exact .tooDeep
  | succ room => exact attachmentWith_steady (annotationValue_steady room)

theorem attachments_steady (room : Nat) : Steady matching (attachments room) :=
  .whileAt (attachment_steady room) _

/-! ### Signatures -/

variable (room : Nat)

theorem param_steady : Steady matching (param room) := by
  refine .bind .peek fun _ _ first => .bind (attachments_steady room) fun _ _ attachments =>
    .bind (typeName_steady room) fun _ _ type => .bind .expectIdentifier fun _ _ name => .pure ?_
  have spans := matching.merge first.spans name.spans
  exact ⟨by simp only [Param.placedBy, View.map_eq_of_forall₂ attachments, type.same,
    name.same, matching.shown_eq spans], spans⟩

theorem params_steady : Steady matching (params room) :=
  .bind (.symbol _) fun _ _ _ => .bind (.closedList (param_steady room) _) fun _ _ list =>
    .pure list.1

theorem sees_resultsAreNamed : SeesSame matching resultsAreNamed := by
  intro parser other agree
  obtain ⟨seen, left, right⟩ := SeesSame.check (.symbol .atSign) agree
  obtain ⟨isVarDef, left', right'⟩ := SeesSame.isVarDef agree
  rw [resultsAreNamed, look_bind left, look_bind right]
  cases seen
  · exact ⟨isVarDef, left', right'⟩
  · exact ⟨true, rfl, rfl⟩

theorem results_steady : Steady matching (results room) := by
  refine .seen sees_resultsAreNamed fun _ => .ite ?_ ?_
  · exact .bind (.commaSeparated (param_steady room)) fun _ _ params =>
      .pure (congrArg Returns.named (View.map_eq_of_forall₂ params))
  · exact .bind (.commaSeparated (typeName_steady room)) fun _ _ types =>
      .pure (congrArg Returns.types (View.map_eq_of_forall₂ types))

theorem returns_steady : Steady matching (returns room) :=
  .bind (.symbol _) fun _ _ _ => .bind (results_steady room) fun _ _ returns =>
    .bind (.symbol _) fun _ _ _ => .pure returns

theorem returns_eq {left right : Option Returns} (agree : matching.Agree left right) :
    left.map (Returns.placedBy matching.shown) = right.map (Returns.placedBy matching.shown) := by
  cases agree with
  | none => rfl
  | some same => exact congrArg some same

theorem signature_steady : Steady matching (signature room) := by
  refine .bind .expectIdentifier fun _ _ name => .bind (params_steady room) fun _ _ params =>
    .bind (.ifAt (returns_steady room) _) fun _ _ returns => .bind (.spanFrom name.spans)
      fun _ _ spans => .pure ?_
  exact ⟨by simp only [Signature.placedBy, name.same, View.map_eq_of_forall₂ params,
    returns_eq returns, matching.shown_eq spans], spans⟩

theorem callableEnd_steady {α : Type} [Matchable α] (native : Bool) {body : Step α}
    (steady : Steady matching body) : Steady matching (callableEnd native body) :=
  .ite (.bind .endStatement fun _ _ _ => .pure .none)
    (.bind steady fun _ _ bodies => .pure (.some bodies))

/-! ### Members -/

section Members

variable {α : Type} [Matchable α] {member : Step α} (steady : Steady matching member)

include steady

omit room

theorem nextMember_abreast {found others : List α} (agree : matching.Agree found others) :
    Abreast matching (nextMember member found) (nextMember member others) := by
  refine .seen .current fun _ => .seen (.kindNth 1) fun _ => .ite (.pure (.done agree)) ?_
  refine .bind (.orRecover ?_ (fun _ _ _ => agree) _) fun _ _ found => .pure (.yield found)
  exact .bind steady fun _ _ value => .pure (List.rel_append agree (.cons value .nil))

theorem members_steady : Steady matching (members member) :=
  .bind (.loop (fun _ _ agree => nextMember_abreast steady agree) .nil) fun _ _ found =>
    .bind .closeBrace fun _ _ _ => .pure found

omit steady in
theorem notAMember_steady (wanted : String) : Steady matching (notAMember wanted : Step α) := by
  refine .failAt fun _ _ agree => ?_
  rw [agree.kind]
  exact View.error_agree _ _ agree.spans

end Members

section Sorts

variable {α β : Type} [Matchable α] [Matchable β] {view : View} {found others : List (α ⊕ β)}
  (agree : view.Agree found others)

include agree

omit room

theorem lefts_agree :
    view.Agree (found.filterMap Sum.getLeft?) (others.filterMap Sum.getLeft?) := by
  induction agree with
  | nil => exact .nil
  | cons first _ ih =>
      cases first with
      | inl values => exact .cons values ih
      | inr _ => exact ih

theorem rights_agree :
    view.Agree (found.filterMap Sum.getRight?) (others.filterMap Sum.getRight?) := by
  induction agree with
  | nil => exact .nil
  | cons first _ ih =>
      cases first with
      | inl _ => exact ih
      | inr values => exact .cons values ih

end Sorts

theorem resource_steady : Steady matching (resource room) := by
  refine .bind .peek fun _ _ first => .bind (attachments_steady room) fun _ _ attachments =>
    .bind (.keyword _) fun _ _ _ => .bind .expectIdentifier fun _ _ name =>
      .bind (params_steady room) fun _ _ params => .bind (body_steady room _) fun _ _ body =>
        .pure ?_
  exact resource_agree (matching.merge first.spans body.spans) name attachments params body

theorem memberVarDef_steady : Steady matching (varDef (.within room)) :=
  varDef_steady (stmtParts_areSteady room)

theorem serviceMember_steady : Steady matching (serviceMember room) :=
  .seen .current fun _ => .ite
    (.bind (resource_steady room) fun _ _ resources => .pure (.inr resources)) <|
    .seen .isVarDef fun _ => .ite
      (.bind (memberVarDef_steady room) fun _ _ definitions => .pure (.inl definitions))
      (notAMember_steady _)

theorem action_steady : Steady matching (action room) := by
  refine .bind .peek fun _ _ first => .bind (attachments_steady room) fun _ _ attachments =>
    .bind (.eat _) fun native _ same => .bind (.keyword _) fun _ _ _ =>
      .bind (signature_steady room) fun _ _ signature => ?_
  cases same
  refine .bind (callableEnd_steady native (body_steady room _)) fun _ _ body =>
    .bind (.spanFrom first.spans) fun _ _ spans => .pure ?_
  exact callable_agree spans attachments native signature body

theorem connectorMember_steady : Steady matching (connectorMember room) :=
  .seen .current fun _ => .ite
    (.bind (action_steady room) fun _ _ actions => .pure (.inr actions)) <|
    .seen .isVarDef fun _ => .ite
      (.bind (memberVarDef_steady room) fun _ _ definitions => .pure (.inl definitions))
      (notAMember_steady _)

theorem typedField_steady : Steady matching (typedField room) := by
  refine .bind (typeName_steady room) fun _ _ type => .bind .expectIdentifier fun _ _ name =>
    .bind (.ifBehind simpleLiteral_steady _) fun _ _ default => .bind .endStatement fun _ _ _ =>
      .bind (.spanFrom type.spans) fun _ _ spans => .pure ?_
  exact field_agree spans name type default

theorem field_steady : Steady matching (field room) :=
  .seen .current fun _ => .ite (typedField_steady room) (notAMember_steady _)

/-! ### Definitions -/

section Headed

variable {header other : Header} (headers : matching.Agree header other)

include headers

theorem service_abreast : Abreast matching (service room header) (service room other) := by
  refine .bind (.keyword _) fun _ _ _ => .bind (.symbol _) fun _ _ _ =>
    .bind .expectIdentifier fun _ _ protocol => .bind (.symbol _) fun _ _ _ =>
      .bind .expectIdentifier fun _ _ name => .bind (.symbol _) fun _ _ _ =>
        .bind (members_steady (serviceMember_steady room)) fun _ _ found =>
          .bind (.spanFrom headers.2) fun _ _ spans => .pure ?_
  exact service_agree spans name headers.1 protocol (lefts_agree found) (rights_agree found)

theorem function_abreast : Abreast matching (function room header) (function room other) := by
  refine .bind (.eat _) fun native _ same => .bind (.keyword _) fun _ _ _ =>
    .bind (signature_steady room) fun _ _ signature => ?_
  cases same
  refine .bind (callableEnd_steady native (body_steady room _)) fun _ _ body =>
    .bind (.spanFrom headers.2) fun _ _ spans => .pure ?_
  exact callable_agree spans headers.1 native signature body

theorem connector_abreast : Abreast matching (connector room header) (connector room other) := by
  refine .bind (.keyword _) fun _ _ _ => .bind .expectIdentifier fun _ _ name =>
    .bind (params_steady room) fun _ _ params => .bind (.symbol _) fun _ _ _ =>
      .bind (members_steady (connectorMember_steady room)) fun _ _ found =>
        .bind (.spanFrom headers.2) fun _ _ spans => .pure ?_
  exact connector_agree spans name headers.1 params (lefts_agree found) (rights_agree found)

theorem struct_abreast : Abreast matching (struct room header) (struct room other) := by
  refine .bind (.keyword _) fun _ _ _ => .bind .expectIdentifier fun _ _ name =>
    .bind (.symbol _) fun _ _ _ => .bind (members_steady (field_steady room)) fun _ _ fields =>
      .bind (.spanFrom headers.2) fun _ _ spans => .pure ?_
  exact struct_agree spans name headers.1 fields

omit headers room in
theorem attachPoint_steady : Steady matching attachPoint := by
  refine .bind .peek fun _ _ token => ?_
  rw [token.kind]
  split
  · exact .bind .advance fun _ _ _ => .pure
      ⟨by simp only [AttachPoint.placedBy, matching.shown_eq token.spans], token.spans⟩
  · exact .fail (View.wrongToken_agree token _)

omit headers room in
theorem attachPoints_steady : Steady matching attachPoints := by
  refine .bind (.eat _) fun _ _ same => ?_
  cases same
  exact .ite (.commaSeparated attachPoint_steady) (.pure .nil)

theorem annotationDef_abreast :
    Abreast matching (annotationDef room header) (annotationDef room other) := by
  refine .bind (.keyword _) fun _ _ _ => .bind .expectIdentifier fun _ _ name =>
    .bind attachPoints_steady fun _ _ points => .bind (.symbol _) fun _ _ _ =>
      .bind (members_steady (field_steady room)) fun _ _ fields =>
        .bind (.spanFrom headers.2) fun _ _ spans => .pure ?_
  exact annotationDef_agree spans name headers.1 fields points

omit headers in
theorem definitionBlock_steady : Steady matching (block room) :=
  .bind (body_steady room _) fun _ _ bodies => .pure (toBlock_agree bodies)

theorem typeMapper_abreast : Abreast matching (typeMapper room header) (typeMapper room other) := by
  refine .bind (.eat _) fun native _ same => .bind (.keyword _) fun _ _ _ =>
    .bind .expectIdentifier fun _ _ name => .bind (.symbol _) fun _ _ _ =>
      .bind (param_steady room) fun _ _ param => .bind (.symbol _) fun _ _ _ =>
        .bind (.symbol _) fun _ _ _ => .bind (typeName_steady room) fun _ _ type =>
          .bind (.symbol _) fun _ _ _ => ?_
  cases same
  refine .bind (callableEnd_steady native (definitionBlock_steady room)) fun _ _ body =>
    .bind (.spanFrom headers.2) fun _ _ spans => .pure ?_
  exact typeMapper_agree spans name type headers.1 native param body

omit headers in
theorem constantType_steady : Steady matching (constantType room) := by
  refine .bind .peek fun _ _ token => ?_
  rw [token.kind]
  exact .ite (baseType_steady (typeName_steady room))
    (.fail (View.error_agree _ _ token.spans))

theorem constant_abreast : Abreast matching (constant room header) (constant room other) := by
  refine .bind (.keyword _) fun _ _ _ => .bind (constantType_steady room) fun _ _ type =>
    .bind .expectIdentifier fun _ _ name => .bind (.symbol _) fun _ _ _ =>
      .bind (expr_steady room 0) fun _ _ value => .bind .endStatement fun _ _ _ =>
        .bind (.spanFrom headers.2) fun _ _ spans => .pure ?_
  exact constant_agree spans name type headers.1 value

theorem globalVar_abreast : Abreast matching (globalVar room header) (globalVar room other) := by
  refine .bind (typeName_steady room) fun _ _ type => .bind .expectIdentifier fun _ _ name =>
    .bind (.ifBehind (expr_steady room 0) _) fun _ _ init => .bind .endStatement fun _ _ _ =>
      .bind (.spanFrom headers.2) fun _ _ spans => .pure ?_
  exact globalVar_agree spans name type headers.1 init

theorem plainDefinition_abreast :
    Abreast matching (plainDefinition room header) (plainDefinition room other) := by
  refine .seen .isVarDef fun _ => .ite
    (.bind (globalVar_abreast room headers) fun _ _ definitions =>
      .pure (globalVarDefinition_agree definitions))
    (.failAt fun _ _ agree => ?_)
  rw [agree.kind]
  exact View.error_agree _ _ agree.spans

theorem nativeDefinition_abreast :
    Abreast matching (nativeDefinition room header) (nativeDefinition room other) := by
  refine .seen (.kindNth 1) fun kind => ?_
  split
  · exact .bind (function_abreast room headers) fun _ _ definitions =>
      .pure (functionDefinition_agree definitions)
  · exact .bind (typeMapper_abreast room headers) fun _ _ definitions =>
      .pure (typeMapperDefinition_agree definitions)
  · exact .bind .cursor fun _ _ places => .fail (View.wrongToken_agree (places.peekNth 1) _)

omit headers room in
theorem misplacedDirective_steady : Steady matching misplacedDirective := by
  refine .bind .peek fun _ _ token => .fail ?_
  rw [token.kind]
  exact View.error_agree _ _ token.spans

theorem headedDefinition_abreast :
    Abreast matching (headedDefinition room header) (headedDefinition room other) := by
  refine .seen .current fun kind => ?_
  split
  · exact .bind (service_abreast room headers) fun _ _ definitions =>
      .pure (serviceDefinition_agree definitions)
  · exact .bind (function_abreast room headers) fun _ _ definitions =>
      .pure (functionDefinition_agree definitions)
  · exact nativeDefinition_abreast room headers
  · exact .bind (connector_abreast room headers) fun _ _ definitions =>
      .pure (connectorDefinition_agree definitions)
  · exact .bind (struct_abreast room headers) fun _ _ definitions =>
      .pure (structDefinition_agree definitions)
  · exact .bind (typeMapper_abreast room headers) fun _ _ definitions =>
      .pure (typeMapperDefinition_agree definitions)
  · exact .bind (constant_abreast room headers) fun _ _ definitions =>
      .pure (constantDefinition_agree definitions)
  · exact .bind (annotationDef_abreast room headers) fun _ _ definitions =>
      .pure (annotationDefinition_agree definitions)
  · exact misplacedDirective_steady
  · exact misplacedDirective_steady
  · exact misplacedDirective_steady
  · exact plainDefinition_abreast room headers

end Headed

theorem definition_steady : Steady matching (definition room) := by
  refine .bind .peek fun _ _ first => .bind (attachments_steady room) fun _ _ attachments =>
    headedDefinition_abreast room ?_
  exact ⟨attachments, first.spans⟩

/-! ### Sources -/

omit room

theorem nextSegment_abreast {segments others : List Identifier}
    (agree : matching.Agree segments others) :
    Abreast matching (nextSegment segments) (nextSegment others) :=
  .seen (.check _) fun _ => .seen (.kindNth 1) fun _ => .ite
    (.bind (.symbol _) fun _ _ _ => .bind .expectIdentifier fun _ _ segment =>
      .pure (.yield (List.rel_append agree (.cons segment .nil))))
    (.pure (.done agree))

theorem packageName_steady : Steady matching packageName := by
  refine .bind .expectIdentifier fun _ _ first =>
    .bind (.loop (fun _ _ agree => nextSegment_abreast agree) (.cons first .nil))
      fun _ _ segments => .bind (.spanFrom first.spans) fun _ _ spans => .pure ?_
  exact ⟨by simp only [PackageName.placedBy, View.map_eq_of_forall₂ segments,
    matching.shown_eq spans], spans⟩

theorem packageDecl_steady : Steady matching packageDecl := by
  refine .bind (.keyword _) fun _ _ word => .bind packageName_steady fun _ _ name =>
    .bind .endStatement fun _ _ _ => .bind (.spanFrom word.spans) fun _ _ spans => .pure ?_
  exact ⟨by simp only [PackageDecl.placedBy, name.same, matching.shown_eq spans], spans⟩

theorem importDecl_steady : Steady matching importDecl := by
  refine .bind (.keyword _) fun _ _ word => .bind packageName_steady fun _ _ package =>
    .bind (.ifBehind .expectIdentifier _) fun _ _ localName => .bind .endStatement fun _ _ _ =>
      .bind (.spanFrom word.spans) fun _ _ spans => .pure ?_
  exact ⟨by simp only [ImportDecl.placedBy, package.same, View.map_eq_of_rel localName,
    matching.shown_eq spans], spans⟩

theorem directive_steady : Steady matching directive :=
  .seen (.check _) fun _ => .ite
    (.bind importDecl_steady fun _ _ declarations =>
      .pure ⟨congrArg Directive.importDecl declarations.same, declarations.spans⟩)
    (.bind namespaceDecl_steady fun _ _ declarations =>
      .pure ⟨congrArg Directive.namespaceDecl declarations.same, declarations.spans⟩)

theorem packageHeader_steady : Steady matching packageHeader :=
  .seen (.check _) fun _ => .ite
    (.orSkip (.bind packageDecl_steady fun _ _ declarations => .pure (.some declarations))
      fun _ _ _ => .none)
    (.pure .none)

theorem nextDirective_abreast {found others : List Directive}
    (agree : matching.Agree found others) :
    Abreast matching (nextDirective found) (nextDirective others) := by
  refine .seen .current fun _ => .ite ?_ (.pure (.done agree))
  refine .bind (.orSkip ?_ fun _ _ _ => agree) fun _ _ found => .pure (.yield found)
  exact .bind directive_steady fun _ _ value => .pure (List.rel_append agree (.cons value .nil))

theorem directives_steady : Steady matching directives :=
  .loop (fun _ _ agree => nextDirective_abreast agree) .nil

theorem nextDefinition_abreast (room : Nat) {found others : List Definition}
    (agree : matching.Agree found others) :
    Abreast matching (nextDefinition room found) (nextDefinition room others) := by
  refine .seen (.check _) fun _ => .ite (.pure (.done agree)) ?_
  refine .bind (.orSkip (definition_steady room) fun left right spans => ?_) fun _ _ items =>
    .pure (.yield (List.rel_append agree (.cons items .nil)))
  exact brokenDefinition_agree spans

theorem definitions_steady (room : Nat) : Steady matching (definitions room) :=
  .loop (fun _ _ agree => nextDefinition_abreast room agree) .nil

theorem sourceUnit_steady (room : Nat) : Steady matching (sourceUnit room) := by
  refine .bind .peek fun _ _ first => .bind packageHeader_steady fun _ _ package =>
    .bind directives_steady fun _ _ directives => .bind (definitions_steady room) fun _ _ items =>
      .bind .peek fun _ _ last => .pure ?_
  have spans := matching.merge first.spans last.spans
  exact unit_agree spans package directives items

end ServiceLang.Grammar

/-! ### Whole parses -/

namespace ServiceLang.Matching

variable {matching : Matching}

/-- Tokens that agree, or are invalid on both sides and so never read. -/
structure Heard (matching : Matching) (left right : Token) : Prop where
  kind : left.kind = right.kind
  valid : left.kind ≠ .invalid → matching.Agree left right

/-- The end of a list of tokens: there is one in it, or the one that is assumed agrees. -/
def Ends (matching : Matching) (tokens : List Token) : Prop :=
  (∃ token ∈ tokens, token.kind = .endOfFile) ∨ matching.Agree Token.missingEnd .missingEnd

theorem ends_of_cons {token : Token} {tokens : List Token} (ends : matching.Ends (token :: tokens))
    (notEnd : token.kind ≠ .endOfFile) : matching.Ends tokens := by
  refine ends.imp_left fun ⟨last, member, isEnd⟩ => ⟨last, ?_, isEnd⟩
  exact (List.mem_cons.mp member).resolve_left fun same => notEnd (same ▸ isEnd)

theorem slots_ofTokens {pending others left right : List Token}
    (comments : matching.Comments pending others) (tokens : List.Forall₂ matching.Heard left right)
    (ends : matching.Ends left) :
    List.Forall₂ matching.Slots (Slot.ofTokens pending left).1 (Slot.ofTokens others right).1 ∧
      matching.Slots (Slot.ofTokens pending left).2 (Slot.ofTokens others right).2 := by
  induction tokens generalizing pending others with
  | nil =>
      refine ⟨.nil, ?_, comments⟩
      exact ends.resolve_left fun ⟨_, member, _⟩ => nomatch member
  | @cons token other rest others heard _ ih =>
      rw [Slot.ofTokens, Slot.ofTokens, ← heard.kind]
      split
      · rename_i kind
        exact ⟨.nil, heard.valid (by rw [kind]; exact Kind.noConfusion), comments⟩
      · rename_i kind
        have agree := heard.valid (by rw [kind]; exact Kind.noConfusion)
        exact ih (fun kept => List.rel_append (comments kept) (.cons agree .nil))
          (ends_of_cons ends (by rw [kind]; exact Kind.noConfusion))
      · rename_i kind
        exact ih comments (ends_of_cons ends (by rw [kind]; exact Kind.noConfusion))
      · rename_i notEnd _ notInvalid
        have later := ih (fun _ => .nil) (ends_of_cons ends notEnd)
        exact ⟨.cons ⟨heard.valid notInvalid, comments⟩ later.1, later.2⟩

theorem cursors_ofTokens {left right : List Token}
    (tokens : List.Forall₂ matching.Heard left right) (ends : matching.Ends left) :
    matching.Cursors (.ofTokens left) (.ofTokens right) := by
  obtain ⟨slots, final⟩ := slots_ofTokens (fun _ => .nil) tokens ends
  refine ⟨.inr .none, ?_, slots, final⟩
  change matching.Comments (Slot.comments ((Slot.ofTokens [] left).1.head?.getD _))
    (Slot.comments ((Slot.ofTokens [] right).1.head?.getD _))
  rw [List.head?_eq_getElem?, List.head?_eq_getElem?]
  exact (View.slots_getD slots final 0).comments

/-- Parses of tokens that agree start abreast, as far as their records do. -/
theorem parsers_ofTokens {left right : List Token} {errors otherErrors : List LexicalError}
    {options others : Options} (tokens : List.Forall₂ matching.Heard left right)
    (ends : matching.Ends left) (maxDepth : options.maxDepth = others.maxDepth)
    (keepComments : matching.sieve.comments = true →
      options.keepComments = others.keepComments)
    (records : matching.Records (.ofTokens left errors options)
      (.ofTokens right otherErrors others)) :
    matching.Parsers (.ofTokens left errors options) (.ofTokens right otherErrors others) := by
  obtain ⟨cursor, sameOptions⟩ := Parser.cursor_ofTokens left errors options
  obtain ⟨otherCursor, otherSame⟩ := Parser.cursor_ofTokens right otherErrors others
  refine ⟨?_, ?_, fun kept => ?_, records⟩
  · rw [cursor, otherCursor]
    exact cursors_ofTokens tokens ends
  · rw [sameOptions, otherSame, maxDepth]
  · rw [sameOptions, otherSame, keepComments kept]

/-- Two parses that start abreast end abreast: their trees agree, and so do the parsers whose
diagnostics are handed over. -/
theorem readUnit_agree {left right : Parser} (agree : matching.Parsers left right)
    (start : left.depth = 0) (otherStart : right.depth = 0) :
    matching.Agree left.readUnit.1 right.readUnit.1 ∧
      ∃ later other, matching.Parsers later other ∧
        left.readUnit.2 = later.diagnostics ∧ right.readUnit.2 = other.diagnostics := by
  obtain ⟨unit, later, ran⟩ := Grammar.sourceUnit_succeeds left.options.maxDepth left
  obtain ⟨found, last, ranRight, units, parsers⟩ :=
    (Grammar.sourceUnit_steady left.options.maxDepth).ok_of_ok agree ran
  rw [Parser.readUnit_of_ok start ran, Parser.readUnit_of_ok otherStart (agree.maxDepth ▸ ranRight)]
  exact ⟨units, later, last, parsers, rfl, rfl⟩

end ServiceLang.Matching
