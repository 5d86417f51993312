import ServiceLang.Proofs.Accounting
import ServiceLang.Proofs.DepthLimit

set_option autoImplicit false

/-! A list of tokens without its end of file. The end that is assumed for it stands at offset 0,
where the first token may stand too. What is read is the same. But an error about the end and one
about the first token repeat each other, and the span of the source ends with its first token. -/

namespace ServiceLang

/-! ### The assumed end -/

/-- The end that is assumed takes the place of the one that is left out. -/
theorem Slot.ofTokens_of_missingEnd (pending : List Token) {earlier : List Token} {last : Token}
    (notEnd : ∀ token ∈ earlier, token.kind ≠ .endOfFile) (isEnd : last.kind = .endOfFile) :
    (ofTokens pending earlier).2.token = .missingEnd ∧
      ofTokens pending (earlier ++ [last]) =
        ((ofTokens pending earlier).1, ⟨last, (ofTokens pending earlier).2.comments⟩) := by
  have further {token : Token} {rest : List Token}
      (notEnd : ∀ found ∈ token :: rest, found.kind ≠ .endOfFile) :
      ∀ found ∈ rest, found.kind ≠ .endOfFile :=
    fun found member => notEnd found (List.mem_cons_of_mem _ member)
  fun_induction ofTokens pending earlier with
  | case1 pending =>
      refine ⟨rfl, ?_⟩
      rw [List.nil_append, ofTokens.eq_def]
      simp only [isEnd]
  | case2 pending token rest atEnd => exact absurd atEnd (notEnd token List.mem_cons_self)
  | case3 pending token rest isComment ih =>
      rw [List.cons_append, ofTokens.eq_def pending (token :: _)]
      simp only [isComment]
      exact ih (further notEnd)
  | case4 pending token rest isInvalid ih =>
      rw [List.cons_append, ofTokens.eq_def pending (token :: _)]
      simp only [isInvalid]
      exact ih (further notEnd)
  | case5 pending token rest slots final cut notEnd' notComment notInvalid ih =>
      obtain ⟨isMissing, same⟩ := ih (further notEnd)
      rw [cut] at isMissing same
      refine ⟨isMissing, ?_⟩
      rw [List.cons_append, ofTokens.eq_def pending (token :: _)]
      dsimp only
      split
      · contradiction
      · contradiction
      · contradiction
      · rw [same]

/-- With and without its end, the same is ahead in a list of tokens. -/
theorem Cursor.ofTokens_of_missingEnd {earlier : List Token} {last : Token}
    (notEnd : ∀ token ∈ earlier, token.kind ≠ .endOfFile) (isEnd : last.kind = .endOfFile) :
    (ofTokens earlier).final.token = .missingEnd ∧
      (ofTokens (earlier ++ [last])).ahead = (ofTokens earlier).ahead ∧
      (ofTokens (earlier ++ [last])).final = ⟨last, (ofTokens earlier).final.comments⟩ := by
  obtain ⟨isMissing, cut⟩ := Slot.ofTokens_of_missingEnd [] notEnd isEnd
  refine ⟨isMissing, ?_, ?_⟩
  · change (Slot.ofTokens [] (earlier ++ [last])).1 = _
    rw [cut]
    rfl
  · change (Slot.ofTokens [] (earlier ++ [last])).2 = _
    rw [cut]
    rfl

namespace Margins

variable {margins : Margins}

/-- At the end both parses stand before their ends. -/
theorem Places.spans_of_end {left right : Cursor} (places : margins.Places left right)
    (atEnd : left.peek.kind = .endOfFile) :
    left.peek.span = margins.ends ∧ right.peek.span = margins.otherEnds := by
  have none : left.remaining = 0 := List.length_eq_zero_iff.mpr (left.peek_isEnd_iff.mp atEnd)
  have here : left.peek.span = margins.ends := by
    rw [Cursor.peek_eq_peekNth, ← none, places.span_peekNth_remaining]
  refine ⟨here, ?_⟩
  rcases places.spans_peek with ⟨-, less⟩ | ⟨-, there⟩
  · rw [here] at less
    exact absurd less (Nat.lt_irrefl _)
  · exact there

/-- A list of tokens with its end, and the same list without it. -/
theorem places_of_missingEnd {earlier : List Token} {last : Token}
    (notEnd : ∀ token ∈ earlier, token.kind ≠ .endOfFile) (isEnd : last.kind = .endOfFile)
    (starts : StartsIncrease (earlier ++ [last])) (some : (Cursor.ofTokens earlier).ahead ≠ [])
    (depth : Nat) :
    (⟨depth, 0, last.span, .nowhere⟩ : Margins).Places (.ofTokens (earlier ++ [last]))
      (.ofTokens earlier) := by
  obtain ⟨isMissing, ahead, final⟩ := Cursor.ofTokens_of_missingEnd notEnd isEnd
  constructor
  · exact ahead.symm
  · rfl
  · obtain ⟨slot, rest, isAhead⟩ := List.exists_cons_of_ne_nil some
    change ((Cursor.ofTokens earlier).ahead.head?.getD _).comments =
      ((Cursor.ofTokens (earlier ++ [last])).ahead.head?.getD _).comments
    rw [ahead, isAhead]
    rfl
  · rw [final]
  · rw [final]
  · exact congrArg Token.span isMissing
  · exact fun _ => ahead ▸ some
  · exact Cursor.rising_ofTokens starts ⟨last, List.mem_append_right _ List.mem_cons_self, isEnd⟩
  · exact fun _ _ => rfl

end Margins

/-! ### What is reported -/

namespace Diagnostic

/-- The diagnostic when the end of file has been left out. -/
def withoutEnd (final : Span) (diagnostic : Diagnostic) : Diagnostic :=
  if diagnostic.span = final then { diagnostic with span := .nowhere } else diagnostic

def startsWith (diagnostic other : Diagnostic) : Bool :=
  diagnostic.span.start == other.span.start

/-- The diagnostics without those that start where an earlier one does. -/
def firstAtOffset (entries : List Diagnostic) : List Diagnostic :=
  entries.eraseDupsBy startsWith

theorem eraseDupsBy_loop_concat {α : Type} (same : α → α → Bool) (entries : List α) (entry : α)
    (seen : List α) :
    List.eraseDupsBy.loop same (entries ++ [entry]) seen =
      if (List.eraseDupsBy.loop same entries seen).any (same entry) then
        List.eraseDupsBy.loop same entries seen
      else List.eraseDupsBy.loop same entries seen ++ [entry] := by
  induction entries generalizing seen with
  | nil =>
      rw [List.nil_append, List.eraseDupsBy.loop, List.eraseDupsBy.loop, List.any_reverse]
      cases seen.any (same entry) with
      | true => rfl
      | false => exact List.reverse_cons
  | cons other entries ih =>
      rw [List.cons_append, List.eraseDupsBy.loop, List.eraseDupsBy.loop]
      cases seen.any (same other) with
      | true => exact ih seen
      | false => exact ih (other :: seen)

theorem firstAtOffset_concat (entries : List Diagnostic) (entry : Diagnostic) :
    firstAtOffset (entries ++ [entry]) =
      if (firstAtOffset entries).any entry.startsWith then firstAtOffset entries
      else firstAtOffset entries ++ [entry] :=
  eraseDupsBy_loop_concat startsWith entries entry []

/-- Only where it is about the end does leaving it out change where a diagnostic starts. -/
theorem start_withoutEnd (final : Span) (diagnostic : Diagnostic) :
    (diagnostic.withoutEnd final).span.start =
      if diagnostic.span = final then 0 else diagnostic.span.start := by
  rw [withoutEnd]
  split <;> rfl

end Diagnostic

namespace Margins

open Diagnostic

variable {margins : Margins} {diagnostic other : Diagnostic} {entries others : List Diagnostic}

/-- What stands for a diagnostic when the end has been left out. -/
theorem Says.eq_withoutEnd (tells : margins.Says diagnostic other)
    (ends : margins.otherEnds = .nowhere) : other = diagnostic.withoutEnd margins.ends := by
  obtain ⟨problem, severity, span, message, recovery⟩ := diagnostic
  obtain ⟨problem', severity', span', message', recovery'⟩ := other
  have same := tells.same
  simp only [unplaced, Diagnostic.mk.injEq] at same
  obtain ⟨rfl, rfl, -, rfl, rfl⟩ := same
  rcases tells.spans with ⟨same, less⟩ | ⟨here, there⟩
  · dsimp only at same less
    have inside : span ≠ margins.ends := fun atEnd => Nat.lt_irrefl _ (atEnd ▸ less)
    rw [withoutEnd, if_neg inside, same]
  · dsimp only at here there
    rw [withoutEnd, if_pos here, there, ends]

/-- What is reported without the end. -/
theorem Kept.eq_firstAtOffset (kept : margins.Kept entries others)
    (ends : margins.otherEnds = .nowhere) :
    others = firstAtOffset (entries.map (withoutEnd margins.ends)) := by
  induction kept with
  | nil => rfl
  | both kept tells isNew otherIsNew ih =>
      rw [List.map_append, List.map_singleton, firstAtOffset_concat, ← ih,
        ← tells.eq_withoutEnd ends, if_neg]
      intro found
      obtain ⟨entry, member, same⟩ := List.any_eq_true.mp found
      exact otherIsNew entry member (beq_iff_eq.mp same).symm
  | first kept tells isNew repeated ih =>
      rw [List.map_append, List.map_singleton, firstAtOffset_concat, ← ih,
        ← tells.eq_withoutEnd ends, if_pos]
      obtain ⟨entry, member, same⟩ := repeated
      exact List.any_eq_true.mpr ⟨entry, member, beq_iff_eq.mpr same.symm⟩

/-- Unless one error is at offset 0 and another one at the end, none is dropped. -/
theorem Kept.eq_map (kept : margins.Kept entries others) (ends : margins.otherEnds = .nowhere)
    (apart : (∀ entry ∈ entries, entry.span.start ≠ 0) ∨
      ∀ entry ∈ entries, entry.span ≠ margins.ends) :
    others = entries.map (withoutEnd margins.ends) := by
  induction kept with
  | nil => rfl
  | both kept tells isNew otherIsNew ih =>
      rw [List.map_append, List.map_singleton, ← tells.eq_withoutEnd ends]
      refine congrArg (· ++ _) (ih (apart.imp ?_ ?_))
      all_goals exact fun earlier entry member => earlier entry (List.mem_append_left _ member)
  | @first entries others diagnostic other kept tells isNew repeated ih =>
      have before := ih (apart.imp
        (fun all entry member => all entry (List.mem_append_left _ member))
        fun all entry member => all entry (List.mem_append_left _ member))
      obtain ⟨found, member, same⟩ := repeated
      rw [before] at member
      obtain ⟨entry, among, rfl⟩ := List.mem_map.mp member
      rw [tells.eq_withoutEnd ends, start_withoutEnd, start_withoutEnd] at same
      have last : diagnostic ∈ entries ++ [diagnostic] :=
        List.mem_append_right _ List.mem_cons_self
      have earlier : entry ∈ entries ++ [diagnostic] := List.mem_append_left _ among
      have isNew := isNew entry among
      rcases apart with positive | inside
      · have here := positive _ last
        have there := positive _ earlier
        split at same <;> split at same
        · rename_i atEnd atEnd'
          exact absurd (congrArg Span.start (atEnd.trans atEnd'.symm)) isNew
        · exact absurd same.symm here
        · exact absurd same there
        · exact absurd same isNew
      · rw [if_neg (inside _ earlier), if_neg (inside _ last)] at same
        exact absurd same isNew

end Margins

/-! ### What is read -/

/-- Each part of a source has a node of its own below that of the source. -/
theorem SourceUnit.exists_outline (unit : SourceUnit) {part : Span}
    (member : part ∈ unit.partSpans) :
    ∃ outline ∈ Outline.optional PackageDecl.outline "package" unit.package ++
      Outline.each Directive.outline "directive" unit.directives ++
      Outline.each Definition.outline "item" unit.items, outline.span = part := by
  rw [partSpans, List.mem_append, List.mem_append] at member
  rcases member with (isPackage | isDirective) | isItem
  · obtain ⟨package, isHere, rfl⟩ := Option.map_eq_some_iff.mp (Option.mem_toList.mp isPackage)
    refine ⟨package.outline "package", ?_, rfl⟩
    rw [isHere]
    exact List.mem_append_left _ (List.mem_append_left _ List.mem_cons_self)
  · obtain ⟨directive, isHere, rfl⟩ := List.mem_map.mp isDirective
    refine ⟨directive.outline "directive", ?_, directive.span_outline _⟩
    exact List.mem_append_left _ (List.mem_append_right _ (List.mem_map_of_mem isHere))
  · obtain ⟨item, isHere, rfl⟩ := List.mem_map.mp isItem
    exact ⟨item.outline "item", List.mem_append_right _ (List.mem_map_of_mem isHere),
      item.span_outline _⟩

/-- With their end, the parts of a source lie within it. -/
theorem contains_of_partSpans (source : String) (options : Options) :
    ∀ part ∈ (parseTokens (tokenize source).1 options).1.partSpans,
      (parseTokens (tokenize source).1 options).1.span.contains part = true := by
  obtain ⟨layout, same⟩ := exists_layout source
  obtain ⟨unit, later, ran⟩ := Grammar.sourceUnit_succeeds options.maxDepth
    (.ofTokens (tokenize source).1 [] options)
  rw [parseTokens_of_ok ran]
  obtain ⟨behind, -, stands, isRow, starts, stops⟩ :=
    Grammar.sourceUnit_spans options.maxDepth (layout.stands_of_cursor same rfl) ran
  intro part member
  obtain ⟨outline, among, rfl⟩ := unit.exists_outline member
  exact isRow.contains_of_mem stands.place.inside starts stops among

/-- Without its end, a source is read from the same tokens to the same parts. -/
theorem exists_parts_of_missingEnd {earlier : List Token} {last : Token} {options : Options}
    (noLimit : options.maxErrors = none) (notEnd : ∀ token ∈ earlier, token.kind ≠ .endOfFile)
    (isEnd : last.kind = .endOfFile) (starts : StartsIncrease (earlier ++ [last])) :
    ∃ package directives items entries others,
      parseTokens (earlier ++ [last]) options = (⟨package, directives, items,
        (Cursor.ofTokens (earlier ++ [last])).peek.span.merge last.span⟩, ⟨entries⟩) ∧
      parseTokens earlier options = (⟨package, directives, items,
        (Cursor.ofTokens earlier).peek.span.merge .nowhere⟩, ⟨others⟩) ∧
      (⟨options.maxDepth, 0, last.span, .nowhere⟩ : Margins).Kept entries others := by
  by_cases empty : (Cursor.ofTokens earlier).ahead = []
  · obtain ⟨isMissing, ahead, final⟩ := Cursor.ofTokens_of_missingEnd notEnd isEnd
    have here : (Cursor.ofTokens (earlier ++ [last])).peek = last := by
      rw [Cursor.peek, ahead, empty, final]
      rfl
    have there : (Cursor.ofTokens earlier).peek = .missingEnd := by
      rw [Cursor.peek, empty]
      exact isMissing
    refine ⟨none, [], [], [], [], ?_, ?_, .nil⟩
    · rw [parseTokens_of_empty options (ahead.trans empty), here]
      rfl
    · rw [parseTokens_of_empty options empty, there]
      rfl
  have twins : Margins.Twins _ (.ofTokens (earlier ++ [last]) [] options)
      (.ofTokens earlier [] options) :=
    .ofTokens (Margins.places_of_missingEnd notEnd isEnd starts empty options.maxDepth) noLimit
      noLimit rfl rfl rfl
  obtain ⟨parts, later, final, ran, otherRan, twins, atEnd⟩ :=
    Grammar.sourceParts_of_twins twins (fun _ member => absurd member List.not_mem_nil) (.inl rfl)
      fun deeper => absurd rfl deeper
  obtain ⟨here, there⟩ := twins.places.spans_of_end atEnd
  have read := parseTokens_of_parts ran
  have otherRead := parseTokens_of_parts otherRan
  rw [here] at read
  rw [there] at otherRead
  exact ⟨_, _, _, _, _, read, otherRead, twins.records.kept⟩

/-- A source may be read without its end of file, but not to the same effect. For every source,
and as long as the number of diagnostics is not limited, the parts are the same. Only with the
end does the span of the source contain them all: without it that span goes from offset 0 to the
end of the first token. The same is reported, with what is about the end at offset 0, and but for
what starts where an earlier error does. That is nothing, unless one error is at offset 0 and
another one at the end. -/
theorem parseTokens_without_end (source : String) (options : Options)
    (noLimit : options.maxErrors = none) {tokens : List Token} {final : Token}
    (cut : (tokenize source).1 = tokens ++ [final]) :
    let whole := parseTokens (tokens ++ [final]) options
    let rest := parseTokens tokens options
    (rest.1.package = whole.1.package ∧ rest.1.directives = whole.1.directives ∧
      rest.1.items = whole.1.items) ∧
    ((∀ part ∈ whole.1.partSpans, whole.1.span.contains part = true) ∧
      rest.1.span.start = 0 ∧ rest.1.span.stop = (Cursor.ofTokens tokens).peek.span.stop) ∧
    rest.2.entries =
      Diagnostic.firstAtOffset (whole.2.entries.map (Diagnostic.withoutEnd final.span)) ∧
    ((∀ entry ∈ whole.2.entries, entry.span.start ≠ 0) ∨
        (∀ entry ∈ whole.2.entries, entry.span ≠ final.span) →
      rest.2.entries = whole.2.entries.map (Diagnostic.withoutEnd final.span)) := by
  have tiles := isTiling_of_tokenize source
  obtain ⟨earlier, last, ends, ⟨isEnd, -⟩, inner⟩ := tiles.ends
  obtain ⟨rfl, same⟩ := List.append_inj' (cut.symm.trans ends) rfl
  obtain rfl := List.singleton_inj.mp same
  have notEnd (token : Token) (member : token ∈ tokens) := (inner token member).1
  have starts : StartsIncrease (tokens ++ [final]) := cut ▸ tiles.ordered.imp And.left
  have within := contains_of_partSpans source options
  rw [cut] at within
  -- Both parses see the same ahead, so that only spans made from the end can differ.
  obtain ⟨package, directives, items, entries, others, whole, rest, kept⟩ :=
    exists_parts_of_missingEnd noLimit notEnd isEnd starts
  rw [whole] at within
  dsimp only
  rw [whole, rest]
  refine ⟨⟨rfl, rfl, rfl⟩, ⟨within, ?_, ?_⟩, kept.eq_firstAtOffset rfl, kept.eq_map rfl⟩
  · rw [Span.merge_start]
    exact Nat.min_zero _
  · rw [Span.merge_stop]
    exact Nat.max_zero _

/-- `import a`, without its end. -/
def openImport : List Token :=
  [⟨.keyword .importKw, "import", ⟨0, 6, 1, 1⟩⟩, ⟨.identifier, "a", ⟨7, 8, 1, 8⟩⟩]

theorem parseTokens_without_end_openImport :
    (tokenize "import a").1 = openImport ++ [⟨.endOfFile, "", ⟨8, 8, 1, 9⟩⟩] ∧
    (parseTokens openImport {}).1.span.stop = 6 ∧
    (parseTokens openImport {}).2.entries.map (·.span) = [.nowhere] := by
  have cut : (tokenize "import a").1 = openImport ++ [⟨.endOfFile, "", ⟨8, 8, 1, 9⟩⟩] := by
    decide +kernel
  obtain ⟨-, ⟨-, -, stop⟩, -, same⟩ := parseTokens_without_end "import a" {} rfl cut
  refine ⟨cut, stop, ?_⟩
  rw [same (.inl (by decide +kernel))]
  decide +kernel

/-- `; const`, without its end. -/
def brokenConst : List Token :=
  [⟨.symbol .semicolon, ";", ⟨0, 1, 1, 1⟩⟩, ⟨.keyword .constKw, "const", ⟨2, 7, 1, 3⟩⟩]

/-- An error about the first token hides the one about the assumed end, and the span of the
source does not contain what stands behind that token. -/
theorem not_same_brokenConst :
    tokenize "; const" = (brokenConst ++ [⟨.endOfFile, "", ⟨7, 7, 1, 8⟩⟩], []) ∧
    (parseTokens (brokenConst ++ [⟨.endOfFile, "", ⟨7, 7, 1, 8⟩⟩]) {}).2.size = 2 ∧
    (parseTokens brokenConst {}).2.size = 1 ∧
    ¬∀ part ∈ (parseTokens brokenConst {}).1.partSpans,
      (parseTokens brokenConst {}).1.span.contains part = true := by
  decide +kernel

end ServiceLang
