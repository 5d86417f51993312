import Mathlib.Data.List.Forall2
import ServiceLang.Proofs.Passing
import ServiceLang.Proofs.Run
import ServiceLang.Tree.Placed
import ServiceLang.Tree.Sifted

set_option autoImplicit false

/-! Two parses abreast. The tokens of both have the same kinds and texts, but may stand at
other places; what has been reported may differ too, and so may the comments, where these are
not kept. A step that keeps abreast takes the same course on both sides: it gives values that
agree, or fails with diagnostics that do, and leaves parsers that do. What it means to agree
is left open; all that is asked of the spans that stand for each other is that merging two of
them keeps this. -/

namespace ServiceLang

/-- How the trees of two parses are compared. -/
structure View where
  /-- What of a span shows in the trees that are compared. -/
  shown : Span → Span
  /-- What is kept of these trees. -/
  sieve : Sieve
  /-- The spans that stand for each other. -/
  Spans : Span → Span → Prop
  shown_eq : ∀ {left right}, Spans left right → shown left = shown right
  shown_after : ∀ {left right}, Spans left right → shown left.after = shown right.after
  merge : ∀ {left right left' right'}, Spans left right → Spans left' right' →
    Spans (left.merge left') (right.merge right')

def View.exact : View where
  shown := id
  sieve := .whole
  Spans := Eq
  shown_eq same := congrArg id same
  shown_after same := congrArg Span.after same
  merge same others := congrArg₂ Span.merge same others

/-- How two parses are compared: their trees, and what they have reported. -/
structure Matching extends View where
  /-- The parsers whose diagnostics stand for each other. -/
  Records : Parser → Parser → Prop
  moved : ∀ {left right} (place otherPlace : Cursor), Records left right →
    Records { left with cursor := place } { right with cursor := otherPlace }
  reported : ∀ {left right} {diagnostic other : Diagnostic}, Records left right →
    diagnostic.unplaced = other.unplaced → Spans diagnostic.span other.span →
    Records (left.report diagnostic) (right.report other)

/-- Values of which a view says when two of them agree. A value agrees with itself as far as
spans stand for themselves. -/
class Matchable (α : Type) where
  agree : View → α → α → Prop
  agree_self : ∀ view : View, (∀ span, view.Spans span span) → ∀ value, agree view value value

namespace View

variable {α β : Type}

abbrev Agree [Matchable α] (view : View) (left right : α) : Prop :=
  Matchable.agree view left right

structure Nodes (shows : View → α → α) (span : α → Span) (view : View)
    (left right : α) : Prop where
  same : shows view left = shows view right
  spans : view.Spans (span left) (span right)

structure Tokens (view : View) (left right : Token) : Prop where
  kind : left.kind = right.kind
  lexeme : left.lexeme = right.lexeme
  spans : view.Spans left.span right.span

structure Diagnostics (view : View) (left right : Diagnostic) : Prop where
  same : left.unplaced = right.unplaced
  spans : view.Spans left.span right.span

end View

/-! ### Values that agree -/

section Instances

variable {α β : Type} [Matchable α] [Matchable β]

abbrev Matchable.shown {ε : Type} (shows : View → α → ε) : Matchable α :=
  ⟨fun view left right => shows view left = shows view right, fun _ _ _ => rfl⟩

abbrev Matchable.nodes (shows : View → α → α) (span : α → Span) : Matchable α :=
  ⟨View.Nodes shows span, fun _ spans _ => ⟨rfl, spans _⟩⟩

abbrev Matchable.placed (placedBy : (Span → Span) → α → α) (span : α → Span) : Matchable α :=
  .nodes (fun view => placedBy view.shown) span

abbrev Matchable.sifted (placedBy : (Span → Span) → α → α) (sifted : Sieve → α → α)
    (span : α → Span) : Matchable α :=
  .nodes (fun view node => sifted view.sieve (placedBy view.shown node)) span

instance : Matchable Bool := .shown fun _ => id
instance : Matchable Unit := .shown fun _ => id
instance : Matchable Kind := .shown fun _ => id
instance : Matchable String := .shown fun _ => id
instance : Matchable Span := ⟨View.Spans, fun _ spans => spans⟩
instance : Matchable Token := ⟨View.Tokens, fun _ spans _ => ⟨rfl, rfl, spans _⟩⟩
instance : Matchable Diagnostic := ⟨View.Diagnostics, fun _ spans _ => ⟨rfl, spans _⟩⟩

instance : Matchable (Option α) where
  agree view := Option.Rel view.Agree
  agree_self view spans
    | none => .none
    | some value => .some (Matchable.agree_self view spans value)

instance : Matchable (List α) where
  agree view := List.Forall₂ view.Agree
  agree_self view spans _ := List.forall₂_same.mpr fun value _ =>
    Matchable.agree_self view spans value

instance : Matchable (α × β) where
  agree view left right := view.Agree left.1 right.1 ∧ view.Agree left.2 right.2
  agree_self view spans _ := ⟨Matchable.agree_self view spans _, Matchable.agree_self view spans _⟩

instance : Matchable (α ⊕ β) where
  agree view := Sum.LiftRel view.Agree view.Agree
  agree_self view spans
    | .inl value => .inl (Matchable.agree_self view spans value)
    | .inr value => .inr (Matchable.agree_self view spans value)

inductive View.Decisions (view : View) : ForInStep α → ForInStep α → Prop
  | done {left right : α} (agree : view.Agree left right) :
      Decisions view (.done left) (.done right)
  | yield {left right : α} (agree : view.Agree left right) :
      Decisions view (.yield left) (.yield right)

instance : Matchable (ForInStep α) where
  agree view := view.Decisions
  agree_self view spans
    | .done value => .done (Matchable.agree_self view spans value)
    | .yield value => .yield (Matchable.agree_self view spans value)

end Instances

/-! ### Nodes that agree -/

instance : Matchable Identifier := .placed Identifier.placedBy Identifier.span
instance : Matchable NameReference := .placed NameReference.placedBy NameReference.span
instance : Matchable PackageName := .placed PackageName.placedBy PackageName.span
instance : Matchable XmlConstraint := .placed XmlConstraint.placedBy XmlConstraint.span
instance : Matchable SchemaReference := .placed SchemaReference.placedBy SchemaReference.span
instance : Matchable TypeName := .placed TypeName.placedBy TypeName.span
instance : Matchable Literal := .placed Literal.placedBy Literal.span
instance : Matchable Expr := .placed Expr.placedBy Expr.span
instance : Matchable MapEntry := .placed MapEntry.placedBy MapEntry.span
instance : Matchable Reference := .placed Reference.placedBy Reference.span
instance : Matchable VarDef := .placed VarDef.placedBy VarDef.span
instance : Matchable NamespaceDecl := .placed NamespaceDecl.placedBy NamespaceDecl.span
instance : Matchable JoinCondition := .placed JoinCondition.placedBy JoinCondition.span
instance : Matchable Stmt := .sifted Stmt.placedBy Stmt.sifted Stmt.span
instance : Matchable Block := .sifted Block.placedBy Block.sifted Block.span
instance : Matchable CallableBody := .sifted CallableBody.placedBy CallableBody.sifted CallableBody.span
instance : Matchable Worker := .sifted Worker.placedBy Worker.sifted Worker.span
instance : Matchable ElseIf := .sifted ElseIf.placedBy ElseIf.sifted ElseIf.span
instance : Matchable Join := .sifted Join.placedBy Join.sifted Join.span
instance : Matchable Timeout := .sifted Timeout.placedBy Timeout.sifted Timeout.span
instance : Matchable Catch := .sifted Catch.placedBy Catch.sifted Catch.span
instance : Matchable Attachment := .placed Attachment.placedBy Attachment.span
instance : Matchable Attribute := .placed Attribute.placedBy Attribute.span
instance : Matchable AnnotationValue := .placed AnnotationValue.placedBy AnnotationValue.span
instance : Matchable Param := .placed Param.placedBy Param.span
instance : Matchable Signature := .placed Signature.placedBy Signature.span
instance : Matchable ResourceDef := .sifted ResourceDef.placedBy ResourceDef.sifted ResourceDef.span
instance : Matchable CallableDef := .sifted CallableDef.placedBy CallableDef.sifted CallableDef.span
instance : Matchable FieldDef := .placed FieldDef.placedBy FieldDef.span
instance : Matchable ServiceDef := .sifted ServiceDef.placedBy ServiceDef.sifted ServiceDef.span
instance : Matchable ConnectorDef := .sifted ConnectorDef.placedBy ConnectorDef.sifted ConnectorDef.span
instance : Matchable StructDef := .placed StructDef.placedBy StructDef.span
instance : Matchable AttachPoint := .placed AttachPoint.placedBy AttachPoint.span
instance : Matchable AnnotationDef := .placed AnnotationDef.placedBy AnnotationDef.span
instance : Matchable TypeMapperDef := .sifted TypeMapperDef.placedBy TypeMapperDef.sifted TypeMapperDef.span
instance : Matchable ConstantDef := .placed ConstantDef.placedBy ConstantDef.span
instance : Matchable GlobalVarDef := .placed GlobalVarDef.placedBy GlobalVarDef.span
instance : Matchable Definition := .sifted Definition.placedBy Definition.sifted Definition.span
instance : Matchable PackageDecl := .placed PackageDecl.placedBy PackageDecl.span
instance : Matchable ImportDecl := .placed ImportDecl.placedBy ImportDecl.span
instance : Matchable Directive := .placed Directive.placedBy Directive.span
instance : Matchable SourceUnit := .sifted SourceUnit.placedBy SourceUnit.sifted SourceUnit.span

-- The mark of an assumed token stands behind the one in front of it, so that nothing is said
-- of its span but that both sides show the same.
instance : Matchable TokenMarker :=
  .shown fun view mark => (mark.placedBy view.shown).sifted view.sieve

instance : Matchable SendTarget := .shown fun view => SendTarget.placedBy view.shown
instance : Matchable Returns := .shown fun view => Returns.placedBy view.shown

namespace View

variable {α : Type} {shows : View → α → α} {span : α → Span} {view : View}

theorem map_eq_of_forall₂ {left right : List α}
    (agree : List.Forall₂ (Nodes shows span view) left right) :
    left.map (shows view) = right.map (shows view) := by
  induction agree with
  | nil => rfl
  | cons nodes _ ih => rw [List.map_cons, List.map_cons, nodes.same, ih]

theorem map_eq_of_rel {left right : Option α}
    (agree : Option.Rel (Nodes shows span view) left right) :
    left.map (shows view) = right.map (shows view) := by
  cases agree with
  | none => rfl
  | some nodes => exact congrArg some nodes.same

theorem isSome_of_rel {β : Type} {agree : α → β → Prop} {left : Option α} {right : Option β}
    (related : Option.Rel agree left right) : left.isSome = right.isSome := by
  cases related <;> rfl

theorem isNone_of_rel {β : Type} {agree : α → β → Prop} {left : Option α} {right : Option β}
    (related : Option.Rel agree left right) : left.isNone = right.isNone := by
  cases related <;> rfl

/-- Whole trees that agree are the same with their spans as they are shown. -/
theorem placedBy_eq_of_agree {left right : SourceUnit} (whole : view.sieve = .whole)
    (agree : view.Agree left right) : left.placedBy view.shown = right.placedBy view.shown := by
  have same : (left.placedBy view.shown).sifted view.sieve =
      (right.placedBy view.shown).sifted view.sieve := agree.same
  rwa [whole, SourceUnit.sifted_whole, SourceUnit.sifted_whole] at same

theorem eq_of_agree_exact {left right : SourceUnit} (agree : exact.Agree left right) :
    left = right := by
  have same : left.placedBy id = right.placedBy id := placedBy_eq_of_agree rfl agree
  rwa [SourceUnit.placedBy_id, SourceUnit.placedBy_id] at same

end View

namespace View

variable {view : View}

/-- Comments that agree, as far as comments are kept. -/
def Comments (view : View) (left right : List Token) : Prop :=
  view.sieve.comments = true → view.Agree left right

structure Slots (view : View) (left right : Slot) : Prop where
  token : view.Agree left.token right.token
  comments : view.Comments left.comments right.comments

/-- Places between tokens that agree. Of the token consumed last only the span matters, and
only where spans are told apart. -/
structure Cursors (view : View) (left right : Cursor) : Prop where
  previous : (∀ span other, view.Spans span other) ∨
    Option.Rel (fun token other => view.Spans token.span other.span) left.previous right.previous
  comments : view.Comments left.comments right.comments
  ahead : List.Forall₂ view.Slots left.ahead right.ahead
  final : view.Slots left.final right.final

end View

structure Matching.Parsers (matching : Matching) (left right : Parser) : Prop where
  cursor : matching.Cursors left.cursor right.cursor
  maxDepth : left.options.maxDepth = right.options.maxDepth
  keepComments : matching.sieve.comments = true →
    left.options.keepComments = right.options.keepComments
  records : matching.Records left right

theorem View.comments_self (view : View) (spans : ∀ span, view.Spans span span)
    (comments : List Token) : view.Comments comments comments :=
  fun _ => Matchable.agree_self view spans comments

theorem View.slots_self (view : View) (spans : ∀ span, view.Spans span span) (slot : Slot) :
    view.Slots slot slot :=
  ⟨Matchable.agree_self view spans _, view.comments_self spans _⟩

instance : Matchable Cursor where
  agree view := view.Cursors
  agree_self view spans cursor := by
    refine ⟨.inr ?_, view.comments_self spans _, ?_, view.slots_self spans _⟩
    · cases cursor.previous with
      | none => exact .none
      | some token => exact .some (spans _)
    · exact List.forall₂_same.mpr fun slot _ => view.slots_self spans slot

/-! ### Places that agree -/

section Slots

variable {view : View} {slots others : List Slot}
  (pairs : List.Forall₂ view.Slots slots others)

include pairs

theorem View.kinds_of_slots :
    slots.map (fun slot => slot.token.kind) = others.map (fun slot => slot.token.kind) := by
  induction pairs with
  | nil => rfl
  | cons slots _ ih => rw [List.map_cons, List.map_cons, slots.token.kind, ih]

theorem View.slots_getD {final last : Slot} (finals : view.Slots final last)
    (count : Nat) : view.Slots (slots[count]?.getD final) (others[count]?.getD last) := by
  induction pairs generalizing count with
  | nil => exact finals
  | cons slots _ ih =>
      cases count with
      | zero => exact slots
      | succ count => exact ih count

theorem View.slots_tail : List.Forall₂ view.Slots slots.tail others.tail := by
  cases pairs with
  | nil => exact .nil
  | cons _ rest => exact rest

end Slots

namespace View.Cursors

variable {view : View} {left right : Cursor} (agree : view.Cursors left right)

include agree

theorem remaining : left.remaining = right.remaining :=
  agree.ahead.length_eq

theorem kinds : left.kinds = right.kinds :=
  View.kinds_of_slots agree.ahead

theorem peekNth (count : Nat) : view.Agree (left.peekNth count) (right.peekNth count) :=
  (View.slots_getD agree.ahead agree.final count).token

theorem peek : view.Agree left.peek right.peek := by
  rw [left.peek_eq_peekNth, right.peek_eq_peekNth]
  exact agree.peekNth 0

theorem previousToken : view.Spans left.previousToken.span right.previousToken.span := by
  rcases agree.previous with any | previous
  · exact any _ _
  rw [Cursor.previousToken, Cursor.previousToken]
  generalize left.previous = last at previous
  generalize right.previous = otherLast at previous
  cases previous with
  | none => exact agree.peek.spans
  | some spans => exact spans

theorem spanFrom {start other : Span} (starts : view.Agree start other) :
    view.Agree (left.spanFrom start) (right.spanFrom other) := by
  rcases agree.previous with any | previous
  · exact any _ _
  rw [Cursor.spanFrom, Cursor.spanFrom]
  generalize left.previous = last at previous
  generalize right.previous = otherLast at previous
  cases previous with
  | none => exact starts
  | some spans => exact view.merge starts spans

theorem advance : view.Cursors left.advance right.advance := by
  by_cases empty : left.remaining = 0
  · rw [left.advance_of_remaining_zero empty,
      right.advance_of_remaining_zero (agree.remaining ▸ empty)]
    exact agree
  · have more : left.ahead ≠ [] := fun none => empty (List.length_eq_zero_iff.mpr none)
    have otherMore : right.ahead ≠ [] := fun none =>
      empty (agree.remaining.trans (List.length_eq_zero_iff.mpr none))
    have rest := View.slots_tail agree.ahead
    refine ⟨?_, ?_, ?_, ?_⟩
    · rw [left.previous_advance more, right.previous_advance otherMore]
      exact .inr (.some agree.peek.spans)
    · rw [left.comments_advance more, right.comments_advance otherMore,
        List.head?_eq_getElem?, List.head?_eq_getElem?]
      exact (View.slots_getD rest agree.final 0).comments
    · rw [Cursor.ahead_advance, Cursor.ahead_advance]
      exact rest
    · rw [Cursor.final_advance, Cursor.final_advance]
      exact agree.final

theorem advanceBy (count : Nat) : view.Cursors (left.advanceBy count) (right.advanceBy count) := by
  induction count generalizing left right with
  | zero => exact agree
  | succ count ih => exact ih agree.advance

theorem withoutComments :
    view.Cursors { left with comments := [] } { right with comments := [] } :=
  ⟨agree.previous, fun _ => .nil, agree.ahead, agree.final⟩

end View.Cursors

namespace View.Cursors

variable {view : View} {left right start other : Cursor}
  (agree : view.Cursors left right) (starts : view.Cursors start other)

include agree starts

theorem advanceIfStill :
    view.Cursors (left.advanceIfStill start) (right.advanceIfStill other) := by
  rw [Cursor.advanceIfStill, Cursor.advanceIfStill, agree.remaining, starts.remaining]
  split
  · exact agree.advance
  · exact agree

theorem sync (point : SyncPoint) :
    view.Cursors (left.sync start point) (right.sync other point) := by
  rw [Cursor.sync, Cursor.sync, agree.remaining, starts.remaining, agree.kinds]
  exact agree.advanceBy _

theorem openBraces_consumedSince :
    openBraces (left.consumedSince start) = openBraces (right.consumedSince other) := by
  have folded {count : Nat → Token → Nat}
      (sees : ∀ depth {token other : Token}, token.kind = other.kind →
        count depth token = count depth other)
      {slots others : List Slot} (pairs : List.Forall₂ view.Slots slots others) (depth : Nat) :
      (slots.map Slot.token).foldl count depth = (others.map Slot.token).foldl count depth := by
    induction pairs generalizing depth with
    | nil => rfl
    | cons slots _ ih =>
        rw [List.map_cons, List.map_cons, List.foldl_cons, List.foldl_cons, sees _ slots.token.kind]
        exact ih _
  rw [Cursor.consumedSince, Cursor.consumedSince, agree.remaining, starts.remaining]
  exact folded (fun _ _ _ same => by simp only [same]) (List.forall₂_take _ starts.ahead) 0

theorem syncDefinition :
    view.Cursors (left.syncDefinition start) (right.syncDefinition other) := by
  have still := agree.advanceIfStill starts
  rw [Cursor.syncDefinition, Cursor.syncDefinition, agree.openBraces_consumedSince starts,
    still.kinds]
  exact still.advanceBy _

theorem spanSince : view.Spans (left.spanSince start) (right.spanSince other) := by
  rw [Cursor.spanSince, Cursor.spanSince, agree.remaining, starts.remaining]
  split
  · exact agree.peek.spans
  · exact view.merge starts.peek.spans agree.previousToken

end View.Cursors

/-! ### Diagnostics that agree -/

namespace View

variable {view : View}

theorem error_agree {left right : Span} (problem : Problem) (message : String)
    (spans : view.Spans left right) :
    view.Agree (Diagnostic.error problem left message) (.error problem right message) :=
  ⟨rfl, spans⟩

theorem wrongToken_agree {left right : Token} (agree : view.Agree left right)
    (wanted : String) :
    view.Agree (Step.wrongToken left wanted) (Step.wrongToken right wanted) := by
  rw [Step.wrongToken, Step.wrongToken, agree.kind]
  split
  · exact error_agree _ _ agree.spans
  · exact error_agree _ _ agree.spans

theorem withRecovery_agree {left right : Diagnostic} (agree : view.Agree left right)
    (recovery : Recovery) :
    view.Agree (left.withRecovery recovery) (right.withRecovery recovery) := by
  refine ⟨?_, agree.spans⟩
  have same := agree.same
  simp only [Diagnostic.unplaced, Diagnostic.withRecovery, Diagnostic.mk.injEq] at same ⊢
  exact ⟨same.1, same.2.1, trivial, same.2.2.2.1, trivial⟩

end View

namespace Matching

variable {matching : Matching}

theorem Parsers.moved {left right : Parser} (agree : matching.Parsers left right)
    {place other : Cursor} (places : matching.Cursors place other) :
    matching.Parsers { left with cursor := place } { right with cursor := other } :=
  ⟨places, agree.maxDepth, agree.keepComments, matching.moved place other agree.records⟩

theorem Parsers.reported {left right : Parser} (agree : matching.Parsers left right)
    {diagnostic other : Diagnostic} (same : matching.Agree diagnostic other) :
    matching.Parsers (left.report diagnostic) (right.report other) := by
  refine ⟨?_, ?_, ?_, matching.reported agree.records same.same same.spans⟩
  · rw [Parser.cursor_report, Parser.cursor_report]
    exact agree.cursor
  · rw [Parser.options_report, Parser.options_report]
    exact agree.maxDepth
  · rw [Parser.options_report, Parser.options_report]
    exact agree.keepComments

/-! ### Steps -/

inductive Outcomes {α : Type} [Matchable α] (matching : Matching) :
    EStateM.Result Diagnostic Parser α → EStateM.Result Diagnostic Parser α → Prop
  | ok {value other : α} {later otherLater : Parser} (values : matching.Agree value other)
      (parsers : matching.Parsers later otherLater) :
      Outcomes matching (.ok value later) (.ok other otherLater)
  | error {diagnostic other : Diagnostic} {later otherLater : Parser}
      (diagnostics : matching.Agree diagnostic other)
      (parsers : matching.Parsers later otherLater) :
      Outcomes matching (.error diagnostic later) (.error other otherLater)

end Matching

namespace Step

variable {matching : Matching} {α β σ : Type} [Matchable α] [Matchable β] [Matchable σ]

/-- Two steps that take the same course from parsers that agree. -/
def Abreast (matching : Matching) (left right : Step α) : Prop :=
  ∀ ⦃parser other : Parser⦄, matching.Parsers parser other →
    matching.Outcomes (left parser) (right other)

abbrev Steady (matching : Matching) (step : Step α) : Prop :=
  Abreast matching step step

def SeesSame {γ : Type} (matching : Matching) (look : Step γ) : Prop :=
  ∀ ⦃parser other : Parser⦄, matching.Parsers parser other →
    ∃ value, look parser = .ok value parser ∧ look other = .ok value other

namespace SeesSame

theorem current : SeesSame matching Step.current := by
  intro parser other agree
  refine ⟨_, current_eq parser, ?_⟩
  rw [current_eq, agree.cursor.peek.kind]

theorem kindNth (count : Nat) : SeesSame matching (Step.kindNth count) := by
  intro parser other agree
  refine ⟨_, kindNth_eq parser count, ?_⟩
  rw [kindNth_eq, (agree.cursor.peekNth count).kind]

theorem check (kind : Kind) : SeesSame matching (Step.check kind) := by
  intro parser other agree
  refine ⟨_, check_eq parser kind, ?_⟩
  rw [check_eq, agree.cursor.peek.kind]

theorem isVarDef : SeesSame matching Step.isVarDef := by
  intro parser other agree
  refine ⟨_, isVarDef_eq parser, ?_⟩
  rw [isVarDef_eq, agree.cursor.kinds, agree.maxDepth]

theorem isInvocation : SeesSame matching Step.isInvocation := by
  intro parser other agree
  refine ⟨_, isInvocation_eq parser, ?_⟩
  rw [isInvocation_eq, agree.cursor.kinds]

theorem isJoinCondition : SeesSame matching Step.isJoinCondition := by
  intro parser other agree
  refine ⟨_, isJoinCondition_eq parser, ?_⟩
  rw [isJoinCondition_eq, agree.cursor.kinds]

theorem isCast : SeesSame matching Step.isCast := by
  intro parser other agree
  refine ⟨_, isCast_eq parser, ?_⟩
  rw [isCast_eq, agree.cursor.kinds, agree.maxDepth]

end SeesSame

namespace Abreast

/-- Where the one side gives a value, so does the other one. -/
theorem ok_of_ok {left right : Step α} (abreast : Abreast matching left right)
    {parser other later : Parser} {value : α} (parsers : matching.Parsers parser other)
    (ran : left parser = .ok value later) :
    ∃ found last, right other = .ok found last ∧ matching.Agree value found ∧
      matching.Parsers later last := by
  have outcomes := abreast parsers
  rw [ran] at outcomes
  cases ranRight : right other <;> rw [ranRight] at outcomes <;> cases outcomes
  exact ⟨_, _, rfl, ‹_›, ‹_›⟩

/-! ### Steps one after another -/

theorem pure {value other : α} (agree : matching.Agree value other) :
    Abreast matching (Pure.pure value : Step α) (Pure.pure other) :=
  fun _ _ parsers => .ok agree parsers

theorem fail {diagnostic other : Diagnostic} (agree : matching.Agree diagnostic other) :
    Abreast matching (Step.fail diagnostic : Step α) (Step.fail other) :=
  fun _ _ parsers => .error agree parsers

theorem bind {first second : Step α} {next onwards : α → Step β}
    (here : Abreast matching first second)
    (behind : ∀ value other, matching.Agree value other →
      Abreast matching (next value) (onwards other)) :
    Abreast matching (first >>= next) (second >>= onwards) := by
  intro parser other agree
  have outcomes := here agree
  cases left : first parser <;> cases right : second other <;> rw [left, right] at outcomes <;>
    cases outcomes
  · rename_i values parsers
    rw [bind_of_ok left, bind_of_ok right]
    exact behind _ _ values parsers
  · rename_i diagnostics parsers
    rw [bind_of_error left, bind_of_error right]
    exact .error diagnostics parsers

theorem seen {γ : Type} {look : Step γ} {next onwards : γ → Step β}
    (sees : SeesSame matching look)
    (behind : ∀ value, Abreast matching (next value) (onwards value)) :
    Abreast matching (look >>= next) (look >>= onwards) := by
  intro parser other agree
  obtain ⟨value, left, right⟩ := sees agree
  rw [look_bind left, look_bind right]
  exact behind value agree

theorem ite {condition : Prop} [Decidable condition] {left right left' right' : Step α}
    (onTrue : Abreast matching left right) (onFalse : Abreast matching left' right') :
    Abreast matching (if condition then left else left') (if condition then right else right') := by
  split
  · exact onTrue
  · exact onFalse

theorem tryCatch {part other : Step α} {handle otherHandle : Diagnostic → Step α}
    (here : Abreast matching part other)
    (behind : ∀ diagnostic otherDiagnostic, matching.Agree diagnostic otherDiagnostic →
      Abreast matching (handle diagnostic) (otherHandle otherDiagnostic)) :
    Abreast matching (MonadExcept.tryCatch part handle)
      (MonadExcept.tryCatch other otherHandle) := by
  intro parser second agree
  have outcomes := here agree
  cases left : part parser <;> cases right : other second <;> rw [left, right] at outcomes <;>
    cases outcomes
  · rename_i values parsers
    rw [tryCatch_of_ok left, tryCatch_of_ok right]
    exact .ok values parsers
  · rename_i diagnostics parsers
    rw [tryCatch_of_error left, tryCatch_of_error right]
    exact behind _ _ diagnostics parsers

/-! ### Looking -/

theorem cursor : Steady matching Step.cursor :=
  fun _ _ agree => .ok agree.cursor agree

theorem peek : Steady matching Step.peek :=
  fun _ _ agree => .ok agree.cursor.peek agree

theorem spanFrom {start other : Span} (starts : matching.Agree start other) :
    Abreast matching (Step.spanFrom start) (Step.spanFrom other) :=
  fun _ _ agree => .ok (agree.cursor.spanFrom starts) agree

/-! ### Failing and reporting -/

theorem failAt {diagnostic : Token → Diagnostic}
    (same : ∀ left right, matching.Agree left right →
      matching.Agree (diagnostic left) (diagnostic right)) :
    Steady matching (Step.failAt diagnostic : Step α) := by
  refine .bind .peek fun left right agree => .fail ?_
  rw [agree.kind]
  split
  · exact View.error_agree _ _ agree.spans
  · exact same left right agree

theorem tooDeep : Steady matching (Step.tooDeep : Step α) := by
  intro parser other agree
  rw [Step.tooDeep, look_bind (peek_eq parser), look_bind (options_eq parser),
    look_bind (peek_eq other), look_bind (options_eq other), agree.maxDepth]
  exact .error (View.error_agree _ _ agree.cursor.peek.spans) agree

theorem report {diagnostic other : Diagnostic} (same : matching.Agree diagnostic other) :
    Abreast matching (Step.report diagnostic) (Step.report other) :=
  fun _ _ agree => .ok rfl (agree.reported same)

/-! ### Consuming -/

theorem advance : Steady matching Step.advance :=
  fun _ _ agree => .ok agree.cursor.peek (agree.moved agree.cursor.advance)

theorem eat? (kind : Kind) : Steady matching (Step.eat? kind) :=
  .seen (.check kind) fun _ =>
    .ite (.bind .advance fun _ _ agree => .pure (.some agree)) (.pure .none)

theorem eat (kind : Kind) : Steady matching (Step.eat kind) := by
  refine .bind (.eat? kind) fun found other agree => .pure ?_
  cases agree <;> rfl

theorem expect (kind : Kind) : Steady matching (Step.expect kind) :=
  .seen (.check kind) fun _ => .ite .advance
    (.bind .peek fun _ _ agree => .fail (View.wrongToken_agree agree _))

theorem symbol (symbol : Symbol) : Steady matching (expectSymbol symbol) :=
  expect _

theorem keyword (word : Keyword) : Steady matching (expectKeyword word) :=
  expect _

theorem expectIdentifier : Steady matching Step.expectIdentifier := by
  refine .seen (.check _) fun _ => .ite (.bind .advance fun _ _ agree => .pure ?_) (.failAt ?_)
  · refine ⟨?_, agree.spans⟩
    rw [Identifier.placedBy, Identifier.placedBy, agree.lexeme, matching.shown_eq agree.spans]
  · intro left right agree
    rw [agree.kind]
    exact View.error_agree _ _ agree.spans

theorem assume (kind : Kind) : Steady matching (Step.assume kind) := by
  refine .bind .cursor fun left right agree => ?_
  refine .bind (.report (View.withRecovery_agree
    (View.wrongToken_agree agree.peek _) _)) fun _ _ _ => .pure ?_
  refine congrArg (fun span => (TokenMarker.mk span true).sifted matching.sieve) ?_
  dsimp only
  rcases agree.previous with any | previous
  · exact matching.shown_eq (any _ _)
  generalize left.previous = last at previous
  generalize right.previous = otherLast at previous
  cases previous with
  | none => exact matching.shown_eq agree.peek.spans
  | some spans => exact matching.shown_after spans

theorem marker {left right : Token} (agree : matching.Agree left right) :
    Abreast matching (Pure.pure (TokenMarker.mk left.span false) : Step TokenMarker)
      (Pure.pure (TokenMarker.mk right.span false)) :=
  .pure (congrArg (fun span => (TokenMarker.mk span false).sifted matching.sieve)
    (matching.shown_eq agree.spans))

theorem closeBrace : Steady matching Step.closeBrace := by
  refine .bind (.eat? _) fun left right agree => ?_
  cases agree with
  | none => exact .assume _
  | some tokens => exact .marker tokens

theorem endStatement : Steady matching Step.endStatement := by
  refine .bind (.eat? _) fun left right agree => ?_
  cases agree with
  | none =>
      exact .seen .current fun _ => .ite (.assume _) <|
        .bind .peek fun _ _ agree => .fail (View.wrongToken_agree agree _)
  | some tokens => exact .marker tokens

theorem takeComments {next onwards : List Token → Step β}
    (behind : ∀ comments others, matching.Comments comments others →
      Abreast matching (next comments) (onwards others)) :
    Abreast matching (Step.takeComments >>= next) (Step.takeComments >>= onwards) := by
  intro parser other agree
  have without : matching.Parsers { parser with cursor := { parser.cursor with comments := [] } }
      { other with cursor := { other.cursor with comments := [] } } :=
    agree.moved agree.cursor.withoutComments
  -- Only where comments are not kept may one side take them and the other side not.
  have silent {parser other : Parser} (agree : matching.Parsers parser other)
      (differ : parser.options.keepComments ≠ other.options.keepComments) (comments others) :
      matching.Comments comments others ∧
        matching.Parsers { parser with cursor := { parser.cursor with comments := comments } }
          { other with cursor := { other.cursor with comments := others } } := by
    have ignored : matching.Comments comments others :=
      fun kept => absurd (agree.keepComments kept) differ
    exact ⟨ignored, agree.moved ⟨agree.cursor.previous, ignored, agree.cursor.ahead,
      agree.cursor.final⟩⟩
  cases keeps : parser.options.keepComments <;> cases otherKeeps : other.options.keepComments
  · rw [bind_of_ok ((takeComments_eq parser).trans (if_neg (by simp [keeps]))),
      bind_of_ok ((takeComments_eq other).trans (if_neg (by simp [otherKeeps])))]
    exact behind _ _ (fun _ => .nil) agree
  · rw [bind_of_ok ((takeComments_eq parser).trans (if_neg (by simp [keeps]))),
      bind_of_ok ((takeComments_eq other).trans (if_pos otherKeeps))]
    have differ : parser.options.keepComments ≠ other.options.keepComments := by
      rw [keeps, otherKeeps]
      exact Bool.false_ne_true
    exact behind _ _ (silent agree differ _ _).1 (silent agree differ parser.cursor.comments []).2
  · rw [bind_of_ok ((takeComments_eq parser).trans (if_pos keeps)),
      bind_of_ok ((takeComments_eq other).trans (if_neg (by simp [otherKeeps])))]
    have differ : parser.options.keepComments ≠ other.options.keepComments := by
      rw [keeps, otherKeeps]
      exact Bool.false_ne_true.symm
    exact behind _ _ (silent agree differ _ _).1 (silent agree differ [] other.cursor.comments).2
  · rw [bind_of_ok ((takeComments_eq parser).trans (if_pos keeps)),
      bind_of_ok ((takeComments_eq other).trans (if_pos otherKeeps))]
    exact behind _ _ agree.cursor.comments without

/-! ### Repeating -/

theorem loop {turn : σ → Step (ForInStep σ)}
    (turns : ∀ state other, matching.Agree state other →
      Abreast matching (turn state) (turn other))
    {state other : σ} (states : matching.Agree state other) :
    Abreast matching (Step.loop turn state) (Step.loop turn other) := by
  intro parser second agree
  have outcomes := turns state other states agree
  rw [Step.loop, Step.loop]
  cases left : turn state parser <;> cases right : turn other second <;>
    rw [left, right] at outcomes <;> cases outcomes
  · rename_i decision later otherDecision otherLater values parsers
    cases values with
    | done values => exact .ok values parsers
    | yield values =>
        dsimp only
        rw [← parsers.cursor.remaining, ← agree.cursor.remaining]
        split
        · exact loop turns values parsers
        · exact .ok values parsers
  · rename_i diagnostics parsers
    exact .error diagnostics parsers
termination_by parser => parser.cursor.remaining

variable {item : Step α} (steady : Steady matching item)

include steady

theorem nextListed {items others : List α} (agree : matching.Agree items others) :
    Abreast matching (Step.nextListed item items) (Step.nextListed item others) := by
  refine .bind steady fun _ _ values => .bind (.eat _) fun _ _ same => ?_
  have longer := List.rel_append agree (.cons values .nil)
  cases same
  exact .ite (.pure (.yield longer)) (.pure (.done longer))

theorem commaSeparated : Steady matching (Step.commaSeparated item) :=
  loop (fun _ _ => nextListed steady) .nil

theorem whileAt (kind : Kind) : Steady matching (Step.whileAt kind item) := by
  have turns (items others : List α) (agree : matching.Agree items others) :
      Abreast matching (nextAt kind item items) (nextAt kind item others) := by
    refine .seen (.check kind) fun _ => .ite ?_ (.pure (.done agree))
    exact .bind steady fun _ _ values => .pure (.yield (List.rel_append agree (.cons values .nil)))
  exact loop turns .nil

theorem listBefore (close : Symbol) : Steady matching (Step.listBefore close item) :=
  .seen (.check _) fun _ => .ite (.pure .nil) (.commaSeparated steady)

theorem closedList (close : Symbol) : Steady matching (Step.closedList close item) :=
  .bind (.listBefore steady close) fun _ _ items => .bind (.symbol close) fun _ _ token =>
    .pure ⟨items, token⟩

theorem ifAt (kind : Kind) : Steady matching (Step.ifAt kind item) :=
  .seen (.check kind) fun _ => .ite (.bind steady fun _ _ values => .pure (.some values)) (.pure .none)

theorem ifBehind (kind : Kind) : Steady matching (Step.ifBehind kind item) := by
  refine .bind (.eat kind) fun _ _ same => ?_
  cases same
  exact .ite (.bind steady fun _ _ values => .pure (.some values)) (.pure .none)

end Abreast

/-! ### Recovering -/

namespace Abreast

theorem moveTo {place other : Cursor} (places : matching.Agree place other) :
    Abreast matching
      (modify fun parser => { parser with cursor := place } : Step Unit)
      (modify fun parser => { parser with cursor := other }) :=
  fun _ _ agree => .ok rfl (agree.moved places)

theorem recover (point : SyncPoint) {start other : Cursor} (starts : matching.Agree start other)
    {diagnostic second : Diagnostic} (same : matching.Agree diagnostic second) :
    Abreast matching (Step.recover point start diagnostic) (Step.recover point other second) := by
  refine .bind .cursor fun left right agree => ?_
  have targets := (View.Cursors.advanceIfStill agree starts).sync starts point
  refine .bind (.moveTo targets) fun _ _ _ => ?_
  rw [← starts.remaining, ← targets.remaining]
  exact .bind (.report (View.withRecovery_agree same _)) fun _ _ _ =>
    .pure (targets.spanSince starts)

theorem recoverDefinition {start other : Cursor} (starts : matching.Agree start other)
    {diagnostic second : Diagnostic} (same : matching.Agree diagnostic second) :
    Abreast matching (Step.recoverDefinition start diagnostic)
      (Step.recoverDefinition other second) := by
  refine .bind .cursor fun left right agree => ?_
  have targets := View.Cursors.syncDefinition agree starts
  refine .bind (.moveTo targets) fun _ _ _ => ?_
  rw [← starts.remaining, ← targets.remaining]
  exact .bind (.report (View.withRecovery_agree same _)) fun _ _ _ =>
    .pure (targets.spanSince starts)

variable {part other : Step α} {instead otherwise : Span → α}
  (here : Abreast matching part other)
  (placeholders : ∀ left right, matching.Agree left right →
    matching.Agree (instead left) (otherwise right))

include here placeholders

theorem orRecover (point : SyncPoint) :
    Abreast matching (Step.orRecover point part instead)
      (Step.orRecover point other otherwise) :=
  .bind .cursor fun _ _ starts => .tryCatch here fun _ _ same =>
    .bind (.recover point starts same) fun _ _ spans => .pure (placeholders _ _ spans)

theorem orSkip :
    Abreast matching (Step.orSkip part instead) (Step.orSkip other otherwise) :=
  .bind .cursor fun _ _ starts => .tryCatch here fun _ _ same =>
    .bind (.recoverDefinition starts same) fun _ _ spans => .pure (placeholders _ _ spans)

end Abreast

end Step

end ServiceLang
