import ServiceLang.Proofs.Crossing
import ServiceLang.Proofs.MissingSemicolon
import ServiceLang.Proofs.Nesting
import ServiceLang.Proofs.Positions
import ServiceLang.Proofs.Sealing

set_option autoImplicit false

/-! A semicolon that is left out behind a variable of a service or a connector. Before a native
action, and before annotations where the variable does not end with a reference, it is assumed:
one diagnostic says so, and every member is read as it is read with the semicolon. -/

namespace ServiceLang

/-! ### The first report -/

/-- What becomes of the first diagnostic: where none is wanted, only that is said. -/
def Diagnostic.asFirst (options : Options) (diagnostic : Diagnostic) : Diagnostic :=
  if options.maxErrors = some 0 then diagnostic.closing 0 else diagnostic

theorem Parser.Clean.entries_report {parser : Parser} {diagnostic : Diagnostic} (clean : parser.Clean)
    (isError : diagnostic.isError = true) :
    (parser.report diagnostic).diagnostics.entries = [diagnostic.asFirst parser.options] := by
  rw [Diagnostic.asFirst]
  split
  · rename_i bound
    rw [report_of_full clean.belowLimit clean.not_repeats bound (Nat.zero_le _), Report.push,
      clean.nothingReported]
    rfl
  · rename_i room
    exact (clean.report room isError).entries

/-- Parses that read the same but for its places. Where nothing is wrong in the first one, the
second one has these diagnostics. -/
def Matching.reporting (entries : List Diagnostic) : Matching where
  toView := unplaced.toView
  Records left right := left.Clean → right.diagnostics.entries = entries
  moved _ _ records clean :=
    records ((Parser.clean_moved _).mp clean)
  reported _ _ _ clean := absurd clean (Parser.not_clean_report _ _)

/-- A clean parser goes on from the first report as if there were none. -/
theorem Matching.parsers_report {parser : Parser} {note : Diagnostic} (clean : parser.Clean)
    (isError : note.isError = true) :
    (reporting [note.asFirst parser.options]).Parsers parser (parser.report note) := by
  constructor
  · rw [Parser.cursor_report]
    exact agree_self (fun _ => trivial) parser.cursor
  · rw [Parser.options_report]
  · intro _
    rw [Parser.options_report]
  · exact fun _ => clean.entries_report isError

/-! ### The variable before the gap -/

/-- A variable before such a token may lack its semicolon: nothing goes on with `native`, and an
at sign goes on with nothing but a reference. -/
def VarDef.MayEndBefore (definition : VarDef) (kind : Kind) : Prop :=
  kind = .keyword .nativeKw ∨
    kind = .symbol .atSign ∧ ∀ init ∈ definition.init, init.IsSealed

instance (definition : VarDef) (kind : Kind) : Decidable (definition.MayEndBefore kind) :=
  inferInstanceAs (Decidable (_ ∨ _ ∧ _))

namespace VarDef.MayEndBefore

variable {definition : VarDef} {kind : Kind} (ends : definition.MayEndBefore kind)

include ends

theorem isUnsought : kind.isUnsought = true := by
  rcases ends with rfl | ⟨rfl, -⟩ <;> rfl

theorem mayFollowStatement : Step.mayFollowStatement kind = true := by
  rcases ends with rfl | ⟨rfl, -⟩ <;> rfl

theorem ne_end : kind ≠ .endOfFile := by
  rcases ends with rfl | ⟨rfl, -⟩ <;> nofun

theorem ne_rightBrace : kind ≠ .symbol .rightBrace := by
  rcases ends with rfl | ⟨rfl, -⟩ <;> nofun

end VarDef.MayEndBefore

section Member

variable {semicolon next : Token} (pending : List Token) {after : List Token} {target : VarDef}
  (isSemicolon : semicolon.kind = .symbol .semicolon)
  (isNext : after.find? Token.isRead = some next) (ends : target.MayEndBefore next.kind)

namespace Omission

include isSemicolon in
theorem startsInert_ofSemicolon : StartsInert (ofSemicolon semicolon pending after).seam.rest := by
  refine ⟨⟨semicolon, pending⟩, (Slot.ofTokens [] after).1, rfl, ?_⟩
  rw [isSemicolon]
  rfl

include isSemicolon isNext ends in
theorem isApart_ofSemicolon : (ofSemicolon semicolon pending after).seam.IsApart := by
  obtain ⟨slot, others, cut, rfl⟩ := Slot.cons_ofTokens pending isNext ends.ne_end
  refine ⟨⟨⟨semicolon, pending⟩, (Slot.ofTokens [] after).1, rfl, ?_⟩, slot, others, cut,
    ends.isUnsought⟩
  rw [isSemicolon]
  rfl

include isSemicolon isNext in
theorem isSoft_ofSemicolon (native : next.kind = .keyword .nativeKw) :
    (ofSemicolon semicolon pending after).seam.IsSoft True := by
  have notEnd : next.kind ≠ .endOfFile := by
    rw [native]
    nofun
  obtain ⟨slot, others, cut, rfl⟩ := Slot.cons_ofTokens pending isNext notEnd
  refine ⟨trivial, startsInert_ofSemicolon pending isSemicolon, slot, others, cut, ?_⟩
  rw [native]
  rfl

include isNext in
theorem note_ofSemicolon (more : next.kind ≠ .endOfFile) :
    (ofSemicolon semicolon pending after).note =
      (Diagnostic.expectedToken next.span "';'" next.kind.description).withRecovery
        (.inserted "';'") := by
  rw [note, next_ofSemicolon pending isNext, Step.wrongToken, if_neg more]
  rfl

end Omission

open Step

namespace Grammar

variable {room : Nat} {head : TypeName × Identifier × Option Expr} {parser between right : Parser}
  {shared : List Slot}

include isSemicolon isNext in
/-- Up to its semicolon the variable is read the same without it. -/
theorem varDefHead_again (ends : next.kind = .keyword .nativeKw ∨
      next.kind = .symbol .atSign ∧ ∀ init ∈ head.2.2, init.IsSealed)
    (apart : (Omission.ofSemicolon semicolon pending after).seam.IsApart)
    (ran : varDefHead (.within room) parser = .ok head between) (clean : between.Clean)
    (joined : parser.Joined False (Omission.ofSemicolon semicolon pending after).seam shared right)
    (ahead : between.cursor.ahead = (Omission.ofSemicolon semicolon pending after).seam.rest) :
    ∃ last, varDefHead (.within room) right = .ok head last ∧
      between.Joined False (Omission.ofSemicolon semicolon pending after).seam [] last := by
  -- At `native` no expression goes on, so the seam is soft. An at sign may go on with one; there
  -- it depends on what the expression ends with.
  rcases ends with native | ⟨-, isSealed⟩
  · have soft := Omission.isSoft_ofSemicolon pending isSemicolon isNext native
    have stable : Stable True none (varDefHead (.within room)) :=
      varDefHead_stable (ExprParts.within_areStable room)
    obtain ⟨last, ranRight, joinedLast⟩ := (stable ran clean).again _ shared [] right
      (joined.atEdge (.inl (.inl soft))) nofun ahead fun _ => .inr soft
    exact ⟨last, ranRight, joinedLast.atEdge (.inl (.inr apart))⟩
  · exact (varDefHead_sealed (within_areSealed room)).meets ran clean isSealed _ shared right apart
      joined ahead

include isNext ends in
/-- Where the semicolon is missing it is assumed. -/
theorem endStatement_of_joined
    (joined : between.Joined False (Omission.ofSemicolon semicolon pending after).seam [] right) :
    ∃ place, endStatement right = .ok ⟨place, true⟩
      (right.report (Omission.ofSemicolon semicolon pending after).note) := by
  have isNextRight : right.cursor.peek = (Omission.ofSemicolon semicolon pending after).next := by
    rw [Cursor.peek, joined.other, joined.final]
    rfl
  have follows := ends.mayFollowStatement
  rw [← Omission.next_ofSemicolon pending isNext, ← isNextRight] at follows
  obtain ⟨place, ran⟩ := endStatement_of_follows follows
  rw [isNextRight] at ran
  exact ⟨place, ran⟩

include isNext ends in
/-- Behind the semicolon the left side goes on as the right one does where it is assumed. -/
theorem resumes_of_joined {last : Parser}
    (joined : between.Joined False (Omission.ofSemicolon semicolon pending after).seam [] last)
    (clean : between.advance.Clean)
    (ahead : between.cursor.ahead = ⟨semicolon, pending⟩ :: (Slot.ofTokens [] after).1)
    (final : between.cursor.final = (Slot.ofTokens [] after).2) (note : Diagnostic) :
    Parser.Resumes note between.advance (last.report note) := by
  have behind : between.advance.cursor.ahead = (Slot.ofTokens [] after).1 := by
    rw [Parser.advance, Cursor.ahead_advance, ahead, List.tail_cons]
  have finalBehind : between.advance.cursor.final = (Slot.ofTokens [] after).2 := by
    rw [Parser.advance, Cursor.final_advance, final]
  constructor
  · exact (clean.near joined.clean joined.options joined.depth behind finalBehind joined.other
      joined.final).report note
  · rw [Cursor.peek, behind, finalBehind, Slot.token_first_ofTokens, isNext]
    exact ends.ne_rightBrace

section Located

variable {layout : Layout} {tokens : List Token} {slots : List Slot}
  (same : layout.buffer = Slot.buffer tokens)
  (split : Slot.ofTokens [] tokens =
    (slots ++ ⟨semicolon, pending⟩ :: (Slot.ofTokens [] after).1, (Slot.ofTokens [] after).2))
  (stops : target.span.stop = semicolon.span.stop)

include same split

theorem ahead_of_advance (inside : layout.Stands (slots.length + 1) between.advance)
    (within : ∃ index, layout.Stands index between)
    (more : between.cursor.peek.kind = .symbol .semicolon) :
    between.cursor.ahead = ⟨semicolon, pending⟩ :: (Slot.ofTokens [] after).1 ∧
      between.cursor.final = (Slot.ofTokens [] after).2 := by
  obtain ⟨index, stands⟩ := within
  have onwards := stands.advance (by rw [more]; nofun)
  have here := onwards.place.length_eq
  have there := inside.place.length_eq
  obtain rfl : index = slots.length := by omega
  have place := stands.place
  rw [same] at place
  have ahead := place.ahead
  have final := place.final
  rw [split] at ahead final
  rw [List.drop_left] at ahead
  exact ⟨ahead, final⟩

include stops

theorem stands_of_varDef {index : Nat} {later : Parser} (stands : layout.Stands index parser)
    (ran : varDef (.within room) parser = .ok target later) :
    layout.Stands (slots.length + 1) later := by
  obtain ⟨behind, -, standsLater, covers⟩ :=
    varDef_spans (StmtParts.within_areSpanned room) stands ran
  obtain ⟨less, inside, -, isStop, -⟩ := (covers "").placed
  have length : slots.length + 1 < layout.buffer.length := by
    rw [same, Slot.buffer, split]
    simp
  have semicolonAt : layout.stopAt slots.length = semicolon.span.stop := by
    rw [Layout.stopAt, same, Slot.buffer, split]
    simp
  -- No two tokens stop at one offset, so the semicolon is the last token of the variable.
  have atSemicolon : behind - 1 = slots.length :=
    layout.eq_of_stopAt_eq _ _ (by omega) length
      (isStop.symm.trans (stops.trans semicolonAt.symm))
  rwa [show behind = slots.length + 1 by omega] at standsLater

include isSemicolon isNext ends

/-- Without its semicolon the variable is read the same, and both sides resume behind it. -/
theorem varDef_crosses {options : Options} {entries : List Diagnostic} :
    Crosses (.reporting entries) (Omission.ofSemicolon semicolon pending after).seam layout options
      (Parser.Resumes (Omission.ofSemicolon semicolon pending after).note) (· = target)
      (varDef (.within room)) := by
  rintro parser later _ within ran clean rfl
  have apart := Omission.isApart_ofSemicolon pending isSemicolon isNext ends
  have eager : Eager (fun _ => True) (varDefHead (.within room)) :=
    varDefHead_eager (within_areEager room)
  have stable : Stable False none (varDefHead (.within room)) :=
    varDefHead_stable (ExprParts.within_areStable room)
  obtain ⟨index, stands⟩ := within.stands
  have standsLater := stands_of_varDef pending same split stops stands ran
  obtain ⟨head, between, ranHead, cleanBetween, atSemicolon, rfl, rfl⟩ := varDef_ok ran clean
  obtain ⟨ahead, final⟩ := ahead_of_advance pending same split standsLater
    (within.after eager.orderly ranHead).stands atSemicolon
  have carried := stable ranHead cleanBetween
  obtain ⟨front, passed, -⟩ := carried.passed
  have more : front ≠ [] := by
    rintro rfl
    have shorter := eager.strict ranHead
    rw [Cursor.remaining, Cursor.remaining, passed] at shorter
    exact Nat.lt_irrefl _ shorter
  refine ⟨carried.clean, ⟨front, more, passed.trans (congrArg (front ++ ·) ahead)⟩,
    fun shared right joined => ?_⟩
  obtain ⟨last, ranRight, joinedLast⟩ :=
    varDefHead_again pending isSemicolon isNext ends apart ranHead cleanBetween joined ahead
  obtain ⟨place, ranEnd⟩ := endStatement_of_joined pending isNext ends joinedLast
  have agree {α : Type} [Matchable α] (value : α) : (Matching.reporting entries).Agree value value :=
    Matching.agree_self (fun _ => trivial) value
  exact ⟨_, _, varDef_of_head ranRight ranEnd,
    varDef_agree trivial (agree head.2.1) (agree head.1) (agree head.2.2),
    resumes_of_joined pending isNext ends joinedLast clean ahead final _⟩

end Located

end Grammar

end Member

/-- In front of a token of a source there is no end of file. -/
theorem not_end_of_tokenize {source : String} {before after : List Token} {token : Token}
    (tokens : (tokenize source).1 = before ++ token :: after) :
    ∀ earlier ∈ before, earlier.kind ≠ .endOfFile := by
  obtain ⟨inner, last, whole, -, proper, -⟩ := exists_end_of_tokenize source
  rw [tokens] at whole
  have lengths := congrArg List.length whole
  simp only [List.length_append, List.length_cons, List.length_nil] at lengths
  have upTo : inner <+: before ++ token :: after := ⟨[last], whole.symm⟩
  have front : before <+: inner :=
    List.prefix_of_prefix_length_le (List.prefix_append _ _) upTo (by omega)
  exact fun earlier member => (proper earlier (front.subset member)).1

/-- A variable of a service or a connector may lack its semicolon before a native action, and
before annotations if it does not end with a reference. If nothing is wrong with a source, then
without such a semicolon exactly one diagnostic is given, which says that it has been assumed
before the next token; and but for places the tree is the same, with every member in it. -/
theorem parseTokens_without_memberSemicolon (source : String) (options : Options)
    (before after : List Token) (semicolon next : Token) (target : VarDef)
    (tokens : (tokenize source).1 = before ++ semicolon :: after)
    (isSemicolon : semicolon.kind = .symbol .semicolon)
    (clean : (parseTokens (before ++ semicolon :: after) options).2.entries = [])
    (isTarget : target ∈ (parseTokens (before ++ semicolon :: after) options).1.memberVarDefs)
    (stops : target.span.stop = semicolon.span.stop)
    (isNext : after.find? Token.isRead = some next) (ends : target.MayEndBefore next.kind) :
    (parseTokens (before ++ after) options).2.entries =
        [((Diagnostic.expectedToken next.span "';'" next.kind.description).withRecovery
          (.inserted "';'")).asFirst options] ∧
      (parseTokens (before ++ after) options).1.unplaced =
        (parseTokens (before ++ semicolon :: after) options).1.unplaced := by
  obtain ⟨layout, same⟩ := exists_layout source
  rw [tokens] at same
  obtain ⟨slots, pending, cut, -⟩ := Slot.ofTokens_front [] before (not_end_of_tokenize tokens)
  have split := cut (semicolon :: after)
  rw [Slot.ofTokens_semicolon pending after isSemicolon] at split
  obtain ⟨unit, later, ran⟩ := Grammar.sourceUnit_succeeds options.maxDepth
    (.ofTokens (before ++ semicolon :: after) [] options)
  have cleanLater := clean_of_parseTokens ran clean
  rw [parseTokens_of_ok ran] at isTarget ⊢
  have apart := Omission.isApart_ofSemicolon pending isSemicolon isNext ends
  have isNote := @Omission.note_ofSemicolon semicolon next pending after isNext ends.ne_end
  rw [← isNote]
  have isError : (Omission.ofSemicolon semicolon pending after).note.isError = true := isNote ▸ rfl
  -- With a limit of no diagnostic at all even the first report only closes the list.
  have noted ⦃parser : Parser⦄ (within : parser.Within layout options) (isClean : parser.Clean) :=
    within.options ▸ Matching.parsers_report isClean isError
  have within : (Parser.ofTokens (before ++ semicolon :: after) [] options).Within layout options :=
    ⟨⟨0, Layout.stands_of_cursor same rfl⟩, rfl⟩
  obtain ⟨other, last, ranOther, agree, parsers⟩ :=
    (Grammar.sourceUnit_crosses options.maxDepth (Omission.startsInert_ofSemicolon pending isSemicolon)
      apart (Grammar.varDef_crosses pending isSemicolon isNext ends same split stops)
      (fun _ => trivial) noted within ran cleanLater (List.mem_flatMap.mp isTarget)).meets
      (Omission.joined_ofSemicolon pending isSemicolon cut (.inr apart) options)
  rw [parseTokens_of_ok ranOther]
  exact ⟨parsers.records cleanLater, (View.placedBy_eq_of_agree rfl agree).symm⟩

def annotatedResource : String :=
  "service<http> s \x7b int x = 1; @a:B \x7b \x7d resource r() \x7b \x7d \x7d"

def countSemicolon : Token :=
  ⟨.symbol .semicolon, ";", ⟨27, 28, 1, 28⟩⟩

def annotationSign : Token :=
  ⟨.symbol .atSign, "@", ⟨29, 30, 1, 30⟩⟩

theorem parseTokens_without_memberSemicolon_annotated :
    (parseTokens (tokenize annotatedResource).1 {}).2.entries = [] ∧
      (parseTokens ((tokenize annotatedResource).1.eraseIdx 10) {}).2.entries =
        [(Diagnostic.expectedToken annotationSign.span "';'"
          annotationSign.kind.description).withRecovery (.inserted "';'")] ∧
      (parseTokens ((tokenize annotatedResource).1.eraseIdx 10) {}).1.unplaced =
        (parseTokens (tokenize annotatedResource).1 {}).1.unplaced := by
  have tokens : (tokenize annotatedResource).1 = (tokenize annotatedResource).1.take 10 ++
      countSemicolon :: (tokenize annotatedResource).1.drop 11 := by
    decide +kernel
  have clean : (parseTokens (tokenize annotatedResource).1 {}).2.entries = [] := by
    decide +kernel
  obtain ⟨target, isTarget, stops, ends⟩ :
      ∃ target ∈ (parseTokens (tokenize annotatedResource).1 {}).1.memberVarDefs,
        target.span.stop = countSemicolon.span.stop ∧ target.MayEndBefore annotationSign.kind := by
    decide +kernel
  have without := parseTokens_without_memberSemicolon annotatedResource {}
    ((tokenize annotatedResource).1.take 10) ((tokenize annotatedResource).1.drop 11)
    countSemicolon annotationSign target tokens rfl (tokens ▸ clean) (tokens ▸ isTarget) stops
    (by decide +kernel) ends
  rw [← tokens, ← List.eraseIdx_eq_take_drop_succ] at without
  exact ⟨clean, without⟩

/-- A variable that ends with a reference, before a resource with an annotation. -/
def referenceBeforeAttachment : String :=
  "service<http> s \x7b int x = y; @a:B \x7b \x7d resource r() \x7b \x7d \x7d"

def countBeforeResource : String :=
  "service<http> s \x7b int x = 1; resource r() \x7b \x7d \x7d"

/-- An at sign goes on with a reference, and before the word `resource` no semicolon is assumed. In
either place the variable is lost with its semicolon. -/
theorem varDefs_lost_without_semicolon :
    ((parseTokens (tokenize referenceBeforeAttachment).1 {}).2.entries = [] ∧
      (tokenize referenceBeforeAttachment).1[10]? = some countSemicolon ∧
      (parseTokens (tokenize referenceBeforeAttachment).1 {}).1.memberVarDefs.map
        (fun target => target.span.stop) = [countSemicolon.span.stop] ∧
      (parseTokens ((tokenize referenceBeforeAttachment).1.eraseIdx 10) {}).1.memberVarDefs = []) ∧
    (parseTokens (tokenize countBeforeResource).1 {}).2.entries = [] ∧
      (tokenize countBeforeResource).1[10]? = some countSemicolon ∧
      (parseTokens (tokenize countBeforeResource).1 {}).1.memberVarDefs.map
        (fun target => target.span.stop) = [countSemicolon.span.stop] ∧
      (parseTokens ((tokenize countBeforeResource).1.eraseIdx 10) {}).1.memberVarDefs = [] := by
  decide +kernel

end ServiceLang
