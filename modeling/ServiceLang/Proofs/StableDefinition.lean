import ServiceLang.Proofs.OrderlyDefinition
import ServiceLang.Proofs.StableStmt

set_option autoImplicit false

/-! Annotations, signatures, members and definitions with other tokens behind. A member
closes with its semicolon or its body, a definition with its semicolon or its brace, and a
directive with its semicolon, so that none of them looks at what stands behind. -/

namespace ServiceLang.Grammar

open Step

section Parts

variable {reach : Prop}

/-! ### Annotations -/

theorem unsignedLiteral_stable : Stable reach none unsignedLiteral := by
  have isAway {token : Token} {value : LiteralValue} (isValue : literalValue? token = some value) :
      token.kind ≠ .symbol .semicolon ∧ token.kind ≠ .endOfFile := by
    constructor <;>
      · intro same
        rw [literalValue?, same] at isValue
        cases isValue
  apply StableFrom.takesValue fun token =>
    (literalValue? token).map (fun value => (⟨value, false, token.span⟩ : Literal))
  · intro parser literal isLiteral
    obtain ⟨value, isValue, rfl⟩ := Option.map_eq_some_iff.mp isLiteral
    rw [unsignedLiteral, look_bind (peek_eq parser), if_neg (isAway isValue).2, literalOf, isValue]
    rfl
  · intro parser later literal ran
    rw [unsignedLiteral, look_bind (peek_eq parser)] at ran
    split at ran
    · exact absurd ran fail_ne_ok
    · obtain ⟨found, between, ranLiteral, -⟩ := bind_ok ran
      obtain ⟨value, isValue, -, -⟩ := literalOf_ok ranLiteral
      exact ⟨_, Option.map_eq_some_iff.mpr ⟨value, isValue, rfl⟩⟩
  · intro token literal isLiteral
    obtain ⟨value, isValue, -⟩ := Option.map_eq_some_iff.mp isLiteral
    exact isAway isValue

theorem simpleLiteral_stable : Stable reach none simpleLiteral :=
  startsNegativeLiteral_stable negativeLiteral_stable unsignedLiteral_stable

theorem annotationEntry_stable {value : Step AnnotationValue} (stable : Stable reach none value) :
    Stable reach none (annotationEntry value) :=
  .bind .identifier fun _ => .bind (.symbol _ nofun) fun _ => .mapped _ stable

theorem attachmentWith_stable {value : Step AnnotationValue}
    (orderly : Orderly (fun _ => True) value) (stable : Stable reach none value) :
    Stable reach (some [.rightBrace]) (attachmentWith value) :=
  .bind (.symbol _ nofun) fun _ => .bind nameReference_stable fun _ => .bind (.symbol _ nofun) fun _ =>
    .mapped _ (.closedList (annotationEntry_orderly orderly) (annotationEntry_stable stable) nofun)

theorem annotationArray_stable {value : Step AnnotationValue}
    (orderly : Orderly (fun _ => True) value) (stable : Stable reach none value) :
    Stable reach none (annotationArray value) :=
  .bind (.symbol _ nofun) fun _ => .opened (.mapped _ (.closedList orderly stable nofun))

theorem annotationValue_stable (room : Nat) : Stable reach none (annotationValue room) := by
  have literal : Stable reach none (do return AnnotationValue.literal (← simpleLiteral)) :=
    .mapped _ simpleLiteral_stable
  induction room with
  | zero =>
      apply StableFrom.currentOr _ (fun kind inert => ?_) fun kind => ?_
      · exact do return .literal (← simpleLiteral)
      · split <;> first | rfl | cases inert
      · split
        · exact .tooDeep
        · exact .tooDeep
        · exact literal
  | succ room ih =>
      have orderly : Orderly (fun _ => True) (annotationValue room) := annotationValue_orderly room
      apply StableFrom.currentOr _ (fun kind inert => ?_) fun kind => ?_
      · exact do return .literal (← simpleLiteral)
      · split <;> first | rfl | cases inert
      · split
        · exact .opened (.mapped _ (attachmentWith_stable orderly ih))
        · exact annotationArray_stable orderly ih
        · exact literal

theorem attachment_stable (room : Nat) : Stable reach (some [.rightBrace]) (attachment room) := by
  cases room with
  | zero => exact .tooDeep
  | succ room => exact attachmentWith_stable (annotationValue_orderly room) (annotationValue_stable room)

theorem attachments_stable (room : Nat) : Stable reach none (attachments room) :=
  .whileAt rfl (attachment_stable room)

/-! ### Signatures -/

variable (room : Nat)

theorem param_stable : Stable reach none (param room) := by
  have eager : Eager (fun _ => True) (param room) :=
    .behind .peek fun _ => .behind (attachments_orderly room) fun _ =>
      .bind (typeName_eager room) fun _ => .bind .expectIdentifier fun _ => .pure _
  apply StableFrom.strictly eager.strict
  exact .peek fun _ => .bind (attachments_stable room).within fun _ =>
    .bind (typeName_stable room) fun _ => .mapped _ .identifier

theorem params_stable : Stable reach (some [.rightParen]) (params room) :=
  .bind (.symbol _ nofun) fun _ => .mapped _ (.closedList (param_orderly room) (param_stable room) nofun)

theorem results_bind {β : Type} (next : Returns → Step β) : (results room >>= next) = (do
    if ← check (.symbol .atSign) then next (.named (← commaSeparated (param room)))
    else if ← isVarDef then next (.named (← commaSeparated (param room)))
    else next (.types (← commaSeparated (typeName room)))) := by
  simp only [results, resultsAreNamed, bind_assoc]
  congr 1
  funext sign
  cases sign with
  | true => simp only [if_true, pure_bind, bind_assoc]
  | false =>
      simp only [Bool.false_eq_true, if_false]
      congr 1
      funext named
      cases named <;> simp

/-- Looking for a name behind the first result does not go beyond the parenthesis that
closes the results. -/
theorem returns_stable : Stable reach (some [.rightParen]) (returns room) := by
  have closed {α : Type} {found : Step α} (make : α → Returns) (stable : Stable reach none found) :
      Stable reach (some [.rightParen]) (do
        let returns ← found
        let _ ← expectSymbol .rightParen
        return make returns) := .bind stable fun _ => .mapped _ (.symbol _ nofun)
  have named := closed .named (.commaSeparated (param_stable room))
  have types := closed .types (.commaSeparated (typeName_stable room))
  rw [returns]
  apply StableFrom.bind (.symbol .leftParen nofun)
  intro _
  rw [results_bind]
  exact .bind (.check rfl) fun _ => .ite named (.ofIsVarDef (.inl rfl) named types)

theorem signature_stable : Stable reach none (signature room) :=
  .bind .identifier fun _ => .bind (params_stable room) fun _ =>
    .bind (.ifAt rfl (returns_stable room)) fun _ => .mapped _ (.spanFrom _)

/-! ### Attachment points and names of packages -/

theorem attachPoint_stable : Stable reach none attachPoint := by
  apply StableFrom.takesValue fun token =>
    (AttachTarget.ofKind? token.kind).map (fun target => (⟨target, token.span⟩ : AttachPoint))
  · intro parser point isPoint
    obtain ⟨target, isTarget, rfl⟩ := Option.map_eq_some_iff.mp isPoint
    rw [attachPoint, look_bind (peek_eq parser)]
    simp only [isTarget]
    rw [bind_of_ok (advance_eq parser), pure_eq]
  · intro parser later point ran
    rw [attachPoint, look_bind (peek_eq parser)] at ran
    cases isTarget : AttachTarget.ofKind? parser.cursor.peek.kind with
    | some target => exact ⟨_, rfl⟩
    | none =>
        simp only [isTarget] at ran
        exact absurd ran fail_ne_ok
  · intro token point isPoint
    constructor <;>
      · intro same
        rw [same] at isPoint
        cases isPoint

theorem attachPoints_stable : Stable reach none attachPoints :=
  .bind (.eat _ rfl nofun) fun _ => .ite (.commaSeparated attachPoint_stable) (.pure _)

theorem packageName_stable : Stable reach none packageName :=
  .bind .identifier fun _ => .bind (.loop (fun _ => .pair rfl rfl
    (.bind (.symbol .dot nofun) fun _ => .mapped _ .identifier) (.pure _)) _) fun _ => .mapped _ (.spanFrom _)

end Parts

/-! ### Members -/

abbrev definitionEnds : Option (List Symbol) :=
  some [.semicolon, .rightBrace]

theorem callableEnd_stable {α : Type} (native : Bool) {body : Step α}
    (stable : Stable False (some [.rightBrace]) body) :
    Stable False definitionEnds (callableEnd native body) :=
  .ite (.mapped _ (.closedBy .endStatement (by simp))) (.mapped _ (.closedBy stable (by simp)))

theorem endsMembers_of_ends (kind : Kind) (ends : kind.endsDefinition) (left right : Kind) :
    endsMembers kind left = endsMembers kind right := by
  rcases ends with rfl | rfl <;> rfl

theorem endsMembers_of_isUnsought (kind left right : Kind) (unsought : left.isUnsought = true)
    (otherUnsought : right.isUnsought = true) : endsMembers kind left = endsMembers kind right := by
  have notAction {next : Kind} (unsought : next.isUnsought = true) : next ≠ .keyword .actionKw := by
    rintro rfl
    cases unsought
  rw [endsMembers, endsMembers, beq_false_of_ne (notAction unsought),
    beq_false_of_ne (notAction otherUnsought)]

/-- Whether the members end is seen alike where a shared token stands. -/
theorem endsMembers_of_joined {seam : Seam} {shared : List Slot} {left right : Parser}
    (joined : left.Joined False seam shared right) (more : shared ≠ []) :
    endsMembers right.cursor.peek.kind (right.cursor.peekNth 1).kind =
      endsMembers left.cursor.peek.kind (left.cursor.peekNth 1).kind := by
  rw [joined.peek more]
  rcases joined.second more with same | ⟨reaches, -⟩ | ⟨unsought, otherUnsought⟩ | ends
  · rw [same]
  · exact absurd reaches not_false
  · exact endsMembers_of_isUnsought _ _ _ otherUnsought unsought
  · exact endsMembers_of_ends _ ends _ _

section Members

variable {α : Type} {member : Step α} (stable : Stable False none member)

include stable

theorem nextMember_stable (found : List α) : Stable False none (nextMember member found) := by
  apply StableFrom.hardPair (fun ends => if ends then pure (.done found) else do
    return .yield (← orRecover .member (do return found ++ [← member]) (fun _ => found))) endsMembers
  · intro parser
    rw [nextMember, look_bind (current_eq parser), look_bind (kindNth_eq parser 1)]
  · exact endsMembers_of_ends
  · exact endsMembers_of_isUnsought
  · exact fun _ => .ite (.pure _) (.mapped _ (.orRecover (.mapped _ stable)))

theorem members_stable : Stable False (some [.rightBrace]) (members member) :=
  .bind (.loop (nextMember_stable stable) []) fun _ => .mapped _ .closeBrace

end Members

variable (room : Nat)

/-- A variable among the members, where nothing else is left to be one. -/
theorem variableOr_stable {α : Type} (make : VarDef → α) (wanted : String) :
    Stable False none (do
      if ← isVarDef then return make (← varDef (.within room)) else notAMember wanted) :=
  .opened (.ofIsVarDef (.inr rfl)
    (.mapped _ (varDef_stable (ExprParts.within_areStable room))) (.failAt _))

theorem resource_stable : Stable False (some [.rightBrace]) (resource room) :=
  .bind .peek fun _ => .bind (attachments_stable room) fun _ => .bind (.keyword _) fun _ =>
    .bind .identifier fun _ => .bind (params_stable room) fun _ =>
      .mapped _ (body_stable room .callable)

theorem serviceMember_stable : Stable False none (serviceMember room) :=
  .bind .current fun _ => .ite (.opened (.mapped _ (resource_stable room)))
    (variableOr_stable room _ _)

theorem action_stable : Stable False definitionEnds (action room) :=
  .bind .peek fun _ => .bind (attachments_stable room) fun _ => .bind (.eatAny _ nofun nofun) fun _ =>
    .bind (.keyword _) fun _ => .bind (signature_stable room) fun _ =>
      .spanned _ _ (callableEnd_stable _ (body_stable room .callable))

theorem connectorMember_stable : Stable False none (connectorMember room) :=
  .bind .current fun _ => .ite (.opened (.mapped _ (action_stable room)))
    (variableOr_stable room _ _)

theorem field_stable : Stable False none (field room) :=
  .bind .current fun _ => .ite
    (.opened (.bind (typeName_stable room) fun _ => .bind .identifier fun _ =>
      .bind (.ifBehind rfl (by decide) simpleLiteral_stable) fun _ => .spanned _ _ .endStatement))
    (.failAt _)

/-! ### Definitions -/

section Headed

variable (header : Header)

theorem service_stable : Stable False (some [.rightBrace]) (service room header) :=
  .bind (.keyword _) fun _ => .bind (.symbol _ nofun) fun _ => .bind .identifier fun _ =>
    .bind (.symbol _ nofun) fun _ => .bind .identifier fun _ => .bind (.symbol _ nofun) fun _ =>
      .spanned _ _ (members_stable (serviceMember_stable room))

theorem function_stable : Stable False definitionEnds (function room header) :=
  .bind (.eatAny _ nofun nofun) fun _ => .bind (.keyword _) fun _ => .bind (signature_stable room) fun _ =>
    .spanned _ _ (callableEnd_stable _ (body_stable room .callable))

theorem connector_stable : Stable False (some [.rightBrace]) (connector room header) :=
  .bind (.keyword _) fun _ => .bind .identifier fun _ => .bind (params_stable room) fun _ =>
    .bind (.symbol _ nofun) fun _ => .spanned _ _ (members_stable (connectorMember_stable room))

theorem struct_stable : Stable False (some [.rightBrace]) (struct room header) :=
  .bind (.keyword _) fun _ => .bind .identifier fun _ => .bind (.symbol _ nofun) fun _ =>
    .spanned _ _ (members_stable (field_stable room))

theorem annotationDef_stable : Stable False (some [.rightBrace]) (annotationDef room header) :=
  .bind (.keyword _) fun _ => .bind .identifier fun _ => .bind attachPoints_stable fun _ =>
    .bind (.symbol _ nofun) fun _ => .spanned _ _ (members_stable (field_stable room))

theorem typeMapper_stable : Stable False definitionEnds (typeMapper room header) :=
  .bind (.eatAny _ nofun nofun) fun _ => .bind (.keyword _) fun _ => .bind .identifier fun _ =>
    .bind (.symbol _ nofun) fun _ => .bind (param_stable room) fun _ => .bind (.symbol _ nofun) fun _ =>
      .bind (.symbol _ nofun) fun _ => .bind (typeName_stable room) fun _ => .bind (.symbol _ nofun) fun _ =>
        .spanned _ _ (callableEnd_stable _ (block_stable room))

theorem constantType_stable {reach : Prop} : Stable reach none (constantType room) := by
  have eager : Eager (fun _ => True) (constantType room) :=
    .behind .peek fun _ => .ite (baseType_eager (typeName_eager room).orderly) (.fail ⟨rfl, nofun⟩)
  apply StableFrom.strictly eager.strict
  exact .peek fun _ => .ite
    (baseType_stable (typeName_eager room).orderly (typeName_stable room)).within (.fail _)

theorem constant_stable : Stable False (some [.semicolon]) (constant room header) :=
  .bind (.keyword _) fun _ => .bind (constantType_stable room) fun _ => .bind .identifier fun _ =>
    .bind (.symbol _ nofun) fun _ => .bind (expr_stable room 0) fun _ => .spanned _ _ .endStatement

theorem plainDefinition_stable : Stable False (some [.semicolon]) (plainDefinition room header) :=
  have variable_ : Stable False (some [.semicolon]) (globalVar room header) :=
    .bind (typeName_stable room) fun _ => .bind .identifier fun _ =>
      .bind (.ifBehind rfl (by decide) (expr_stable room 0)) fun _ => .spanned _ _ .endStatement
  .ofIsVarDef (.inr rfl) (.mapped _ variable_) (.failAt _)

theorem headedDefinition_stable :
    Stable False definitionEnds (headedDefinition room header) := by
  have native : ¬(Kind.keyword .nativeKw).endsDefinition := nofun
  rw [headedDefinition_eq]
  apply StableFrom.pairAny native rfl (.mapped _ (function_stable room header))
  apply StableFrom.pairAny native rfl (.mapped _ (typeMapper_stable room header))
  apply StableFrom.bind .current
  intro kind
  split
  · exact .mapped _ (.closedBy (service_stable room header) (by simp))
  · exact .mapped _ (function_stable room header)
  · apply StableFrom.of_never
    intro parser definition later ran
    rw [look_bind (cursor_eq parser)] at ran
    exact absurd ran fail_ne_ok
  · exact .mapped _ (.closedBy (connector_stable room header) (by simp))
  · exact .mapped _ (.closedBy (struct_stable room header) (by simp))
  · exact .mapped _ (typeMapper_stable room header)
  · exact .mapped _ (.closedBy (constant_stable room header) (by simp))
  · exact .mapped _ (.closedBy (annotationDef_stable room header) (by simp))
  · exact .bind .peek fun _ => .fail _
  · exact .bind .peek fun _ => .fail _
  · exact .bind .peek fun _ => .fail _
  · exact .closedBy (plainDefinition_stable room header) (by simp)

end Headed

theorem definition_stable : Stable False definitionEnds (definition room) :=
  .bind .peek fun _ => .bind (attachments_stable room) fun _ => headedDefinition_stable room _

/-! ### Directives -/

theorem packageDecl_stable : Stable False (some [.semicolon]) packageDecl :=
  .bind (.keyword _) fun _ => .bind packageName_stable fun _ => .spanned _ _ .endStatement

theorem importDecl_stable : Stable False (some [.semicolon]) importDecl :=
  .bind (.keyword _) fun _ => .bind packageName_stable fun _ =>
    .bind (.ifBehind rfl (by decide) .identifier) fun _ => .spanned _ _ .endStatement

theorem directive_stable : Stable False (some [.semicolon]) directive :=
  .bind (.checkAny _) fun _ => .ite (.mapped _ importDecl_stable) (.mapped _ namespaceDecl_stable)

theorem packageHeader_stable : Stable False none packageHeader :=
  .bind (.checkAny _) fun _ => .ite (.orSkip (.mapped _ (.opened packageDecl_stable))) (.pure _)

theorem directives_stable : Stable False none directives :=
  .loop (fun _ => .bind .current fun _ => .ite
    (.mapped _ (.orSkip (.mapped _ (.opened directive_stable)))) (.pure _)) []

theorem nextDefinition_stable (found : List Definition) :
    Stable False none (nextDefinition room found) :=
  .bind (.checkAny _) fun _ => .ite (.pure _)
    (.mapped _ (.orSkip (.opened (definition_stable room))))

end ServiceLang.Grammar
