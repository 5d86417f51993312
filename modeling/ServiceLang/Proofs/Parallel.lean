import ServiceLang.Proofs.OrderlyDefinition

set_option autoImplicit false

/-! Two runs side by side, from parsers at the same place. A definition that is read
with other annotations in front of it is the same definition but for these and for
where it starts. -/

namespace ServiceLang

namespace Step

variable {α β γ δ : Type}

/-- Two steps give related values and stop at the same place, or fail with the same
diagnostic there. The relation may speak of the parser behind the first step. -/
def Parallel (related : Parser → α → β → Prop) (left : Step α) (right : Step β)
    (parser other : Parser) : Prop :=
  match left parser with
  | .ok value later => ∃ otherValue otherLater, right other = .ok otherValue otherLater ∧
      related later value otherValue ∧ later.Alike otherLater
  | .error diagnostic later => ∃ otherLater, right other = .error diagnostic otherLater ∧
      later.Alike otherLater

namespace Parallel

variable {parser other : Parser}

theorem same {step : Step α} (orderly : Orderly (fun _ => True) step)
    (alike : parser.Alike other) :
    Parallel (fun _ value otherValue => otherValue = value) step step parser other := by
  have agree := (orderly parser).agree other alike
  unfold Run.Agree at agree
  rw [Parallel]
  cases outcome : step parser with
  | ok value later =>
      rw [outcome] at agree
      obtain ⟨otherLater, ran, alikeLater⟩ := agree
      exact ⟨value, otherLater, ran, rfl, alikeLater⟩
  | error diagnostic later =>
      rw [outcome] at agree
      exact agree

theorem pure {related : Parser → α → β → Prop} {value : α} {otherValue : β}
    (relates : related parser value otherValue) (alike : parser.Alike other) :
    Parallel related (Pure.pure value) (Pure.pure otherValue) parser other :=
  ⟨otherValue, other, rfl, relates, alike⟩

theorem bind {related : Parser → α → β → Prop} {result : Parser → γ → δ → Prop}
    {left : Step α} {right : Step β} {next : α → Step γ} {otherNext : β → Step δ}
    (here : Parallel related left right parser other)
    (onwards : ∀ value otherValue later otherLater, related later value otherValue →
      later.Alike otherLater →
      Parallel result (next value) (otherNext otherValue) later otherLater) :
    Parallel result (left >>= next) (right >>= otherNext) parser other := by
  rw [Parallel] at here
  cases outcome : left parser with
  | ok value later =>
      rw [outcome] at here
      obtain ⟨otherValue, otherLater, ran, relates, alike⟩ := here
      rw [Parallel, bind_of_ok outcome, bind_of_ok ran]
      exact onwards value otherValue later otherLater relates alike
  | error diagnostic later =>
      rw [outcome] at here
      obtain ⟨otherLater, failed, alike⟩ := here
      rw [Parallel, bind_of_error outcome]
      exact ⟨otherLater, bind_of_error failed, alike⟩

theorem step {result : Parser → γ → δ → Prop} {first : Step α}
    {next : α → Step γ} {otherNext : α → Step δ} (orderly : Orderly (fun _ => True) first)
    (alike : parser.Alike other)
    (onwards : ∀ value later otherLater, later.Alike otherLater →
      Parallel result (next value) (otherNext value) later otherLater) :
    Parallel result (first >>= next) (first >>= otherNext) parser other := by
  refine bind (same orderly alike) fun value otherValue later otherLater equal alikeLater => ?_
  rw [equal]
  exact onwards value later otherLater alikeLater

theorem of_ok {related : Parser → α → β → Prop} {left : Step α} {right : Step β}
    (parallel : Parallel related left right parser other) {value : α} {later : Parser}
    (ran : left parser = .ok value later) :
    ∃ otherValue otherLater, right other = .ok otherValue otherLater ∧
      related later value otherValue ∧ later.Alike otherLater := by
  rw [Parallel, ran] at parallel
  exact parallel

end Parallel

end Step

def Definition.reheaded (attachments : List Attachment) (span : Span) : Definition → Definition
  | .service definition => .service { definition with attachments, span }
  | .function definition => .function { definition with attachments, span }
  | .connector definition => .connector { definition with attachments, span }
  | .struct definition => .struct { definition with attachments, span }
  | .typeMapper definition => .typeMapper { definition with attachments, span }
  | .constant definition => .constant { definition with attachments, span }
  | .annotationDef definition => .annotationDef { definition with attachments, span }
  | .globalVar definition => .globalVar { definition with attachments, span }
  | .broken _ => .broken span

namespace Grammar

open Step

structure Reheaded (header other : Header) (later : Parser) (left right : Definition) : Prop where
  attachments : left.attachments = header.attachments
  span : left.span = later.cursor.spanFrom header.start
  other : right = left.reheaded other.attachments (later.cursor.spanFrom other.start)

variable {parser other : Parser} (room : Nat) (header otherHeader : Header)

structure Builds (build : List Attachment → Span → Definition) : Prop where
  attachments : ∀ attachments span, (build attachments span).attachments = attachments
  span : ∀ attachments span, (build attachments span).span = span
  reheaded : ∀ attachments span others place,
    (build attachments span).reheaded others place = build others place

/-- The end of a definition: only here the header is used. -/
theorem spanFrom_parallel {α : Type} (wrap : α → Definition) (make : List Attachment → Span → α)
    (builds : Builds fun attachments span => wrap (make attachments span))
    (alike : parser.Alike other) :
    Parallel (fun later left right => Reheaded header otherHeader later (wrap left) (wrap right))
      (spanFrom header.start >>= fun span => pure (make header.attachments span))
      (spanFrom otherHeader.start >>= fun span => pure (make otherHeader.attachments span))
      parser other := by
  rw [Parallel, look_bind (spanFrom_eq parser _), look_bind (spanFrom_eq other _)]
  refine ⟨_, other, rfl, ⟨builds.attachments _ _, builds.span _ _, ?_⟩, alike⟩
  rw [builds.reheaded, alike.cursor]

section Rules

variable {room header otherHeader}

/-- The word that opens a definition stands at both places, and behind it the
places are the same. -/
def SameBehind (parser other : Parser) : Prop :=
  other.cursor.peek.kind = parser.cursor.peek.kind ∧ parser.advance.Alike other.advance

theorem SameBehind.opening (same : SameBehind parser other) {word : Keyword}
    (here : parser.cursor.peek.kind = .keyword word) :
    Parallel (fun _ _ _ => True) (expectKeyword word) (expectKeyword word) parser other := by
  rw [Parallel, expectKeyword, expect_of_kind here]
  exact ⟨_, _, expect_of_kind (same.1.trans here), trivial, same.2⟩

variable (same : SameBehind parser other)

include same

theorem service_parallel (here : parser.cursor.peek.kind = .keyword .serviceKw) :
    Parallel (fun later left right =>
        Reheaded header otherHeader later (.service left) (.service right))
      (service room header) (service room otherHeader) parser other := by
  refine .bind (same.opening here) fun _ _ _ _ _ alike => ?_
  refine .step (.symbol _) alike fun _ _ _ alike => ?_
  refine .step .expectIdentifier alike fun _ _ _ alike => ?_
  refine .step (.symbol _) alike fun _ _ _ alike => ?_
  refine .step .expectIdentifier alike fun _ _ _ alike => ?_
  refine .step (.symbol _) alike fun _ _ _ alike => ?_
  refine .step (members_orderly (serviceMember_eager room)) alike fun _ _ _ alike => ?_
  exact spanFrom_parallel header otherHeader Definition.service
    (fun attachments span => ⟨attachments, _, _, _, _, span⟩)
    ⟨fun _ _ => rfl, fun _ _ => rfl, fun _ _ _ _ => rfl⟩ alike

theorem connector_parallel (here : parser.cursor.peek.kind = .keyword .connectorKw) :
    Parallel (fun later left right =>
        Reheaded header otherHeader later (.connector left) (.connector right))
      (connector room header) (connector room otherHeader) parser other := by
  refine .bind (same.opening here) fun _ _ _ _ _ alike => ?_
  refine .step .expectIdentifier alike fun _ _ _ alike => ?_
  refine .step (params_orderly room) alike fun _ _ _ alike => ?_
  refine .step (.symbol _) alike fun _ _ _ alike => ?_
  refine .step (members_orderly (connectorMember_eager room)) alike fun _ _ _ alike => ?_
  exact spanFrom_parallel header otherHeader Definition.connector
    (fun attachments span => ⟨attachments, _, _, _, _, span⟩)
    ⟨fun _ _ => rfl, fun _ _ => rfl, fun _ _ _ _ => rfl⟩ alike

theorem struct_parallel (here : parser.cursor.peek.kind = .keyword .structKw) :
    Parallel (fun later left right =>
        Reheaded header otherHeader later (.struct left) (.struct right))
      (struct room header) (struct room otherHeader) parser other := by
  refine .bind (same.opening here) fun _ _ _ _ _ alike => ?_
  refine .step .expectIdentifier alike fun _ _ _ alike => ?_
  refine .step (.symbol _) alike fun _ _ _ alike => ?_
  refine .step (members_orderly (field_eager room)) alike fun _ _ _ alike => ?_
  exact spanFrom_parallel header otherHeader Definition.struct
    (fun attachments span => ⟨attachments, _, _, span⟩)
    ⟨fun _ _ => rfl, fun _ _ => rfl, fun _ _ _ _ => rfl⟩ alike

theorem annotationDef_parallel (here : parser.cursor.peek.kind = .keyword .annotationKw) :
    Parallel (fun later left right =>
        Reheaded header otherHeader later (.annotationDef left) (.annotationDef right))
      (annotationDef room header) (annotationDef room otherHeader) parser other := by
  refine .bind (same.opening here) fun _ _ _ _ _ alike => ?_
  refine .step .expectIdentifier alike fun _ _ _ alike => ?_
  refine .step attachPoints_orderly alike fun _ _ _ alike => ?_
  refine .step (.symbol _) alike fun _ _ _ alike => ?_
  refine .step (members_orderly (field_eager room)) alike fun _ _ _ alike => ?_
  exact spanFrom_parallel header otherHeader Definition.annotationDef
    (fun attachments span => ⟨attachments, _, _, _, span⟩)
    ⟨fun _ _ => rfl, fun _ _ => rfl, fun _ _ _ _ => rfl⟩ alike

theorem constant_parallel (here : parser.cursor.peek.kind = .keyword .constKw) :
    Parallel (fun later left right =>
        Reheaded header otherHeader later (.constant left) (.constant right))
      (constant room header) (constant room otherHeader) parser other := by
  refine .bind (same.opening here) fun _ _ _ _ _ alike => ?_
  refine .step (constantType_orderly room) alike fun _ _ _ alike => ?_
  refine .step .expectIdentifier alike fun _ _ _ alike => ?_
  refine .step (.symbol _) alike fun _ _ _ alike => ?_
  refine .step (expr_eager room 0).orderly alike fun _ _ _ alike => ?_
  refine .step .endStatement alike fun _ _ _ alike => ?_
  exact spanFrom_parallel header otherHeader Definition.constant
    (fun attachments span => ⟨attachments, _, _, _, span⟩)
    ⟨fun _ _ => rfl, fun _ _ => rfl, fun _ _ _ _ => rfl⟩ alike

/-- Where the word `native` does not stand, looking for it changes nothing. -/
theorem SameBehind.notNative {word : Keyword} (here : parser.cursor.peek.kind = .keyword word)
    (plain : word ≠ .nativeKw) :
    eat (.keyword .nativeKw) parser = .ok false parser ∧
      eat (.keyword .nativeKw) other = .ok false other := by
  constructor
  · exact eat_of_other (by rw [here]; simpa using plain)
  · exact eat_of_other (by rw [same.1, here]; simpa using plain)

theorem function_parallel (here : parser.cursor.peek.kind = .keyword .functionKw) :
    Parallel (fun later left right =>
        Reheaded header otherHeader later (.function left) (.function right))
      (function room header) (function room otherHeader) parser other := by
  obtain ⟨left, right⟩ := same.notNative here (by simp)
  rw [Parallel, function, bind_of_ok left, function, bind_of_ok right]
  refine Parallel.bind (same.opening here) fun _ _ _ _ _ alike => ?_
  refine .step (signature_orderly room) alike fun _ _ _ alike => ?_
  refine .step (callableEnd_orderly (body_eager room _).orderly) alike fun _ _ _ alike => ?_
  exact spanFrom_parallel header otherHeader Definition.function
    (fun attachments span => ⟨attachments, _, _, _, span⟩)
    ⟨fun _ _ => rfl, fun _ _ => rfl, fun _ _ _ _ => rfl⟩ alike

theorem typeMapper_parallel (here : parser.cursor.peek.kind = .keyword .typemapperKw) :
    Parallel (fun later left right =>
        Reheaded header otherHeader later (.typeMapper left) (.typeMapper right))
      (typeMapper room header) (typeMapper room otherHeader) parser other := by
  obtain ⟨left, right⟩ := same.notNative here (by simp)
  rw [Parallel, typeMapper, bind_of_ok left, typeMapper, bind_of_ok right]
  refine Parallel.bind (same.opening here) fun _ _ _ _ _ alike => ?_
  refine .step .expectIdentifier alike fun _ _ _ alike => ?_
  refine .step (.symbol _) alike fun _ _ _ alike => ?_
  refine .step (param_orderly room) alike fun _ _ _ alike => ?_
  refine .step (.symbol _) alike fun _ _ _ alike => ?_
  refine .step (.symbol _) alike fun _ _ _ alike => ?_
  refine .step (typeName_eager room).orderly alike fun _ _ _ alike => ?_
  refine .step (.symbol _) alike fun _ _ _ alike => ?_
  refine .step (callableEnd_orderly (block_eager room).orderly) alike fun _ _ _ alike => ?_
  exact spanFrom_parallel header otherHeader Definition.typeMapper
    (fun attachments span => ⟨attachments, _, _, _, _, _, span⟩)
    ⟨fun _ _ => rfl, fun _ _ => rfl, fun _ _ _ _ => rfl⟩ alike

/-- A definition behind a word that opens it is read alike whatever its header. -/
theorem headedDefinition_parallel (barrier : parser.cursor.peek.kind.isBarrier = true) :
    Parallel (Reheaded header otherHeader) (headedDefinition room header)
      (headedDefinition room otherHeader) parser other := by
  have wrapped {α : Type} {wrap : α → Definition} {left right : Step α}
      (parallel : Parallel (fun later left right =>
        Reheaded header otherHeader later (wrap left) (wrap right)) left right parser other) :
      Parallel (Reheaded header otherHeader) (left >>= fun definition => pure (wrap definition))
        (right >>= fun definition => pure (wrap definition)) parser other :=
    .bind parallel fun _ _ _ _ related alike => .pure related alike
  rw [Parallel, headedDefinition, look_bind (current_eq parser), headedDefinition,
    look_bind (current_eq other), same.1]
  cases here : parser.cursor.peek.kind with
  | keyword word =>
      rw [here] at barrier
      cases word with
      | serviceKw => exact wrapped (service_parallel same here)
      | functionKw => exact wrapped (function_parallel same here)
      | connectorKw => exact wrapped (connector_parallel same here)
      | structKw => exact wrapped (struct_parallel same here)
      | typemapperKw => exact wrapped (typeMapper_parallel same here)
      | constKw => exact wrapped (constant_parallel same here)
      | annotationKw => exact wrapped (annotationDef_parallel same here)
      | _ => cases barrier
  | _ =>
      rw [here] at barrier
      cases barrier

end Rules

end Grammar

end ServiceLang
