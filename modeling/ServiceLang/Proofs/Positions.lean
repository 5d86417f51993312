import ServiceLang.Proofs.AbreastDefinition
import ServiceLang.Proofs.Reporting

set_option autoImplicit false

/-! Where tokens stand never changes what is read. No rule looks at a span to decide how to go
on; only the reporting of errors does, which drops a second one at an offset. As long as the
tokens start in the order in which they are read, two diagnostics start together in one
layout if they do in the other, so that the same ones are dropped. -/

namespace ServiceLang

/-- Tokens of the same kind and text, wherever they stand. -/
structure Token.Resembles (token other : Token) : Prop where
  kind : token.kind = other.kind
  lexeme : token.lexeme = other.lexeme

def StartsIncrease (tokens : List Token) : Prop :=
  tokens.Pairwise fun earlier later => earlier.span.start < later.span.start

namespace Matching

/-! ### Trees without places -/

/-- Parses of which nothing is compared but the trees without their places. -/
def unplaced : Matching where
  shown _ := .nowhere
  sieve := .whole
  Spans _ _ := True
  Records _ _ := True
  shown_eq _ := rfl
  shown_after _ := rfl
  merge _ _ := trivial
  moved _ _ _ := trivial
  reported _ _ _ := trivial

/-! ### Diagnostics without places -/

def StartTogether (pairs : List (Token × Token)) (span other : Span) : Prop :=
  ∃ pair ∈ pairs, span.start = pair.1.span.start ∧ other.start = pair.2.span.start

def SameOrder (pairs : List (Token × Token)) : Prop :=
  ∀ pair ∈ pairs, ∀ next ∈ pairs,
    (pair.1.span.start ≤ next.1.span.start ↔ pair.2.span.start ≤ next.2.span.start)

section Order

variable {pairs : List (Token × Token)} (sameOrder : SameOrder pairs)
variable {left right left' right' : Span} (spans : StartTogether pairs left right)
  (others : StartTogether pairs left' right')

include sameOrder spans others

theorem start_le_iff : left.start ≤ left'.start ↔ right.start ≤ right'.start := by
  obtain ⟨pair, member, start, start'⟩ := spans
  obtain ⟨next, member', nextStart, nextStart'⟩ := others
  rw [start, start', nextStart, nextStart']
  exact sameOrder pair member next member'

theorem start_eq_iff : left.start = left'.start ↔ right.start = right'.start := by
  have forth := start_le_iff sameOrder spans others
  have back := start_le_iff sameOrder others spans
  omega

theorem startTogether_merge : StartTogether pairs (left.merge left') (right.merge right') := by
  have before := start_le_iff sameOrder spans others
  by_cases first : left.start ≤ left'.start
  · obtain ⟨pair, member, start, start'⟩ := spans
    refine ⟨pair, member, ?_, ?_⟩
    · rw [Span.merge_start, Nat.min_eq_left first, start]
    · rw [Span.merge_start, Nat.min_eq_left (before.mp first), start']
  · obtain ⟨pair, member, start, start'⟩ := others
    refine ⟨pair, member, ?_, ?_⟩
    · rw [Span.merge_start, Nat.min_eq_right (by omega), start]
    · rw [Span.merge_start, Nat.min_eq_right (by omega), start']

end Order

/-- Parsers that have reported the same but for the places, and remember it at offsets that
stand for each other. -/
structure SameButPlaced (pairs : List (Token × Token)) (left right : Parser) : Prop where
  entries : left.diagnostics.entries.map Diagnostic.unplaced =
    right.diagnostics.entries.map Diagnostic.unplaced
  limitHit : left.limitHit = right.limitHit
  maxErrors : left.options.maxErrors = right.options.maxErrors
  reportedAt : ∀ span other, StartTogether pairs span other →
    (span.start ∈ left.reportedAt ↔ other.start ∈ right.reportedAt)

namespace SameButPlaced

variable {pairs : List (Token × Token)} {left right : Parser}
variable {diagnostic other : Diagnostic} (records : SameButPlaced pairs left right)
  (same : diagnostic.unplaced = other.unplaced)
  (spans : StartTogether pairs diagnostic.span other.span)

include records same

omit records in
theorem isError_eq : diagnostic.isError = other.isError :=
  congrArg (fun diagnostic => diagnostic.severity == .error) same

omit same in
theorem size_eq : left.diagnostics.size = right.diagnostics.size := by
  have lengths := congrArg List.length records.entries
  rwa [List.length_map, List.length_map] at lengths

include spans

theorem repeats_iff : left.Repeats diagnostic ↔ right.Repeats other := by
  rw [Parser.Repeats, Parser.Repeats, isError_eq same, records.reportedAt _ _ spans]

theorem offsets_iff (sameOrder : SameOrder pairs) {span second : Span}
    (together : StartTogether pairs span second) :
    span.start ∈ left.offsetsWith diagnostic ↔ second.start ∈ right.offsetsWith other := by
  rw [Parser.mem_offsetsWith, Parser.mem_offsetsWith, isError_eq same,
    records.reportedAt _ _ together, start_eq_iff sameOrder together spans]

/-- Both sides drop the diagnostic, add it, or close the list. -/
theorem report (sameOrder : SameOrder pairs) :
    SameButPlaced pairs (left.report diagnostic) (right.report other) := by
  have sizes := records.size_eq
  by_cases hit : left.limitHit = true
  · rw [Parser.report_of_limitHit hit, Parser.report_of_limitHit (records.limitHit ▸ hit)]
    exact records
  have below : left.limitHit = false := Bool.eq_false_iff.mpr hit
  have otherBelow : right.limitHit = false := records.limitHit ▸ below
  by_cases repeated : left.Repeats diagnostic
  · rw [Parser.report_of_repeats repeated,
      Parser.report_of_repeats ((records.repeats_iff same spans).mp repeated)]
    exact records
  have isNew : ¬right.Repeats other := fun otherRepeats =>
    repeated ((records.repeats_iff same spans).mpr otherRepeats)
  have offsets (span second : Span) (together : StartTogether pairs span second) :=
    records.offsets_iff same spans sameOrder together
  by_cases room : left.HasRoom
  · have otherRoom : right.HasRoom := by
      rwa [Parser.HasRoom, ← records.maxErrors, ← sizes]
    rw [Parser.report_of_room below repeated room, Parser.report_of_room otherBelow isNew otherRoom]
    refine ⟨?_, below.trans otherBelow.symm, records.maxErrors, offsets⟩
    rw [Report.push, Report.push, List.map_append, List.map_append, records.entries,
      List.map_singleton, List.map_singleton, same]
  · obtain ⟨limit, bound, full⟩ := Parser.exists_limit_of_full room
    rw [Parser.report_of_full below repeated bound full, Parser.report_of_full otherBelow isNew
      (records.maxErrors ▸ bound) (sizes ▸ full)]
    refine ⟨?_, rfl, records.maxErrors, offsets⟩
    rw [Report.push, Report.push, List.map_append, List.map_append, records.entries]
    rfl

end SameButPlaced

/-- Parses of the same tokens in two layouts in which they start in the same order. -/
def displaced {pairs : List (Token × Token)} (sameOrder : SameOrder pairs) : Matching where
  shown _ := .nowhere
  sieve := .whole
  Spans := StartTogether pairs
  Records := SameButPlaced pairs
  shown_eq _ := rfl
  shown_after _ := rfl
  merge := startTogether_merge sameOrder
  moved _ _ records := ⟨records.entries, records.limitHit, records.maxErrors, records.reportedAt⟩
  reported records same spans := records.report same spans sameOrder

theorem sameOrder_of_startsIncrease {left right : List Token} (starts : StartsIncrease left)
    (otherStarts : StartsIncrease right) : SameOrder (left.zip right) := by
  rw [StartsIncrease, List.pairwise_iff_getElem] at starts otherStarts
  intro pair member next member'
  obtain ⟨earlier, inside, rfl⟩ := List.mem_iff_getElem.mp member
  obtain ⟨later, inside', rfl⟩ := List.mem_iff_getElem.mp member'
  rw [List.length_zip] at inside inside'
  simp only [List.getElem_zip]
  rcases Nat.lt_trichotomy earlier later with before | rfl | behind
  · have less := starts earlier later (by omega) (by omega) before
    have otherLess := otherStarts earlier later (by omega) (by omega) before
    omega
  · exact ⟨fun _ => Nat.le_refl _, fun _ => Nat.le_refl _⟩
  · have less := starts later earlier (by omega) (by omega) behind
    have otherLess := otherStarts later earlier (by omega) (by omega) behind
    omega

/-- Tokens at the same place of both lists start together. -/
theorem displaced_heard {pairs : List (Token × Token)} (sameOrder : SameOrder pairs)
    {left right : List Token} (same : List.Forall₂ Token.Resembles left right)
    (inside : ∀ pair ∈ left.zip right, pair ∈ pairs) :
    List.Forall₂ (displaced sameOrder).Heard left right := by
  induction same with
  | nil => exact .nil
  | @cons token other rest others resembles _ ih =>
      have member : (token, other) ∈ pairs := inside _ List.mem_cons_self
      refine .cons ⟨resembles.kind, fun _ => ⟨resembles.kind, resembles.lexeme, ?_⟩⟩
        (ih fun pair member => inside pair (List.mem_cons_of_mem _ member))
      exact ⟨_, member, rfl, rfl⟩

end Matching

/-! ### Parses of two layouts -/

section Layouts

variable {left right : List Token} (same : List.Forall₂ Token.Resembles left right)
  (options : Options)

include same

theorem unplaced_of_resembles :
    (parseTokens left options).1.unplaced = (parseTokens right options).1.unplaced := by
  have heard : List.Forall₂ Matching.unplaced.Heard left right :=
    same.imp fun _ _ resembles =>
      ⟨resembles.kind, fun _ => ⟨resembles.kind, resembles.lexeme, trivial⟩⟩
  have ends : Matching.unplaced.Ends left := .inr ⟨rfl, rfl, trivial⟩
  have parsers : Matching.unplaced.Parsers (.ofTokens left [] options)
      (.ofTokens right [] options) :=
    Matching.parsers_ofTokens heard ends rfl (fun _ => rfl) trivial
  exact View.placedBy_eq_of_agree rfl (Matching.readUnit_agree parsers rfl rfl).1

theorem entries_of_resembles (ends : ∃ token ∈ left, token.kind = .endOfFile)
    (starts : StartsIncrease left) (otherStarts : StartsIncrease right) :
    (parseTokens left options).2.entries.map Diagnostic.unplaced =
      (parseTokens right options).2.entries.map Diagnostic.unplaced := by
  have sameOrder := Matching.sameOrder_of_startsIncrease starts otherStarts
  have records : Matching.SameButPlaced (left.zip right) (.ofTokens left [] options)
      (.ofTokens right [] options) :=
    ⟨rfl, rfl, rfl, fun _ _ _ => iff_of_false List.not_mem_nil List.not_mem_nil⟩
  obtain ⟨-, later, other, parsers, reported, otherReported⟩ :=
    Matching.readUnit_agree (Matching.parsers_ofTokens
      (Matching.displaced_heard sameOrder same fun _ member => member) (.inl ends) rfl
      (fun _ => rfl) records) rfl rfl
  rw [parseTokens, parseTokens, reported, otherReported]
  exact parsers.records.entries

end Layouts

/-- Layout never changes the parse. Two lists of tokens of the same kinds and texts, at
whatever places, give the same tree but for its places. Where the tokens of both start one
behind the other, up to an end of file, the diagnostics too agree one by one in all but their
places. -/
theorem parseTokens_of_resembles (left right : List Token) (options : Options)
    (same : List.Forall₂ Token.Resembles left right) :
    (parseTokens left options).1.unplaced = (parseTokens right options).1.unplaced ∧
    ((∃ token ∈ left, token.kind = .endOfFile) → StartsIncrease left → StartsIncrease right →
      (parseTokens left options).2.entries.map Diagnostic.unplaced =
        (parseTokens right options).2.entries.map Diagnostic.unplaced) :=
  ⟨unplaced_of_resembles same options, entries_of_resembles same options⟩

def semicolonTokens : List Token :=
  [⟨.symbol .semicolon, ";", ⟨0, 1, 1, 1⟩⟩, ⟨.endOfFile, "", ⟨1, 1, 1, 2⟩⟩]

def indentedSemicolonTokens : List Token :=
  [⟨.symbol .semicolon, ";", ⟨7, 8, 2, 5⟩⟩, ⟨.endOfFile, "", ⟨9, 9, 3, 1⟩⟩]

theorem parseTokens_of_resembles_semicolon :
    List.Forall₂ Token.Resembles semicolonTokens indentedSemicolonTokens ∧
    (parseTokens semicolonTokens {}).1.unplaced =
      (parseTokens indentedSemicolonTokens {}).1.unplaced ∧
    (parseTokens semicolonTokens {}).2.entries.map Diagnostic.unplaced =
      (parseTokens indentedSemicolonTokens {}).2.entries.map Diagnostic.unplaced := by
  have same : List.Forall₂ Token.Resembles semicolonTokens indentedSemicolonTokens :=
    .cons ⟨rfl, rfl⟩ (.cons ⟨rfl, rfl⟩ .nil)
  obtain ⟨trees, diagnostics⟩ :=
    parseTokens_of_resembles semicolonTokens indentedSemicolonTokens {} same
  refine ⟨same, trees, diagnostics ⟨⟨.endOfFile, "", ⟨1, 1, 1, 2⟩⟩, ?_, rfl⟩ ?_ ?_⟩
  · exact List.mem_cons_of_mem _ List.mem_cons_self
  · simp [StartsIncrease, semicolonTokens]
  · simp [StartsIncrease, indentedSemicolonTokens]

end ServiceLang
