import ServiceLang.Proofs.LexicalErrors
import ServiceLang.Proofs.Nesting

set_option autoImplicit false

/-! Lines and columns of the spans that are handed out. They are never counted again, but
carried over when spans are merged; so all is well with what is merged from tokens. Only the
mark of an assumed token is placed by counting on from another token, and counts wrong where
that token goes over several lines. -/

namespace ServiceLang

/-! ### Spans that fit a source -/

namespace Span

/-- The span lies within the source, and its line and column are those that a reader counts
off in front of its start. -/
structure FitsIn (source : String) (span : Span) : Prop where
  ordered : span.start ≤ span.stop
  inside : span.stop ≤ source.utf8ByteSize
  place : ∃ front back, source.toList = front ++ back ∧ span.start = String.utf8Len front ∧
    span.line = 1 + front.count '\n' ∧ span.column = 1 + String.utf8Len (lastLine front)

variable {source : String} {span other : Span} {front back text : List Char}

theorem utf8Len_toList (source : String) : String.utf8Len source.toList = source.utf8ByteSize := by
  rw [← String.utf8ByteSize_ofList, String.ofList_toList]

theorem fitsIn_of_covers (covers : span.Covers source.toList text) : span.FitsIn source := by
  obtain ⟨front, back, whole, rfl⟩ := covers
  have bytes := utf8Len_toList source
  rw [whole, String.utf8Len_append, String.utf8Len_append] at bytes
  rw [List.append_assoc] at whole
  refine ⟨Nat.le_add_right _ _, ?_, front, text ++ back, whole, rfl, rfl, rfl⟩
  change String.utf8Len front + String.utf8Len text ≤ _
  omega

theorem FitsIn.merge (here : span.FitsIn source) (there : other.FitsIn source) :
    (span.merge other).FitsIn source := by
  have ordered := here.ordered
  have inside := here.inside
  have otherInside := there.inside
  refine ⟨?_, ?_, ?_⟩
  · rw [merge_start, merge_stop]
    omega
  · rw [merge_stop]
    omega
  · rw [Span.merge]
    split
    · exact here.place
    · exact there.place

/-- A place has one line only: no other text of this length can stand in front of it. -/
theorem FitsIn.line_eq (fits : span.FitsIn source) (whole : source.toList = front ++ back)
    (start : span.start = String.utf8Len front) : span.line = 1 + front.count '\n' := by
  obtain ⟨before, behind, split, isStart, line, -⟩ := fits.place
  have lengths : String.utf8Len before = String.utf8Len front := isStart.symm.trans start
  have same : before = front := by
    rcases List.append_eq_append_iff.mp (split.symm.trans whole) with
      ⟨rest, rfl, -⟩ | ⟨rest, rfl, -⟩ <;>
    · rw [String.utf8Len_append] at lengths
      have empty : rest = [] := by
        by_contra some
        have longer := utf8Len_pos some
        omega
      rw [empty, List.append_nil]
  rw [line, same]

theorem lastLine_append (front : List Char) (oneLine : '\n' ∉ text) :
    lastLine (front ++ text) = lastLine front ++ text := by
  induction text using List.reverseRecOn with
  | nil => rw [List.append_nil, List.append_nil]
  | append_singleton text char ih =>
      have other : char ≠ '\n' := fun newline => oneLine (by simp [newline])
      have earlier := ih fun member => oneLine (List.mem_append_left _ member)
      rw [lastLine, ← List.append_assoc, List.rtakeWhile_concat_pos _ _ _ (by simpa using other),
        ← List.append_assoc, ← earlier]
      rfl

/-- What stands right behind a piece of one line fits too. -/
theorem fitsIn_after (covers : span.Covers source.toList text) (oneLine : '\n' ∉ text) :
    span.after.FitsIn source := by
  obtain ⟨front, back, whole, rfl⟩ := covers
  have bytes := utf8Len_toList source
  rw [whole, String.utf8Len_append, String.utf8Len_append] at bytes
  refine ⟨Nat.le_refl _, ?_, front ++ text, back, whole, (String.utf8Len_append _ _).symm, ?_, ?_⟩
  · change String.utf8Len front + String.utf8Len text ≤ _
    omega
  · rw [List.count_append, List.count_eq_zero.mpr oneLine]
    rfl
  · rw [lastLine_append front oneLine, String.utf8Len_append]
    have length : (behind front text).length = String.utf8Len text := Nat.add_sub_cancel_left _ _
    change 1 + String.utf8Len (lastLine front) + (behind front text).length = _
    omega

end Span

theorem fitsIn_of_token {source : String} {token : Token} (member : token ∈ (tokenize source).1) :
    token.span.FitsIn source :=
  Span.fitsIn_of_covers ((isTiling_of_tokenize source).covers token member)

theorem token_mem_of_buffer {source : String} {slot : Slot}
    (member : slot ∈ Slot.buffer (tokenize source).1) : slot.token ∈ (tokenize source).1 := by
  obtain ⟨earlier, last, whole, ⟨isEnd, -⟩, inner⟩ := (isTiling_of_tokenize source).ends
  have kept := Slot.buffer_sublist (fun token member => (inner token member).1) isEnd
  rw [← whole] at kept
  exact kept.subset (List.mem_map_of_mem member)

/-! ### What is reported -/

/-- Nothing is reported at a span but that of the diagnostic itself. -/
theorem Parser.span_of_mem_report {parser : Parser} {diagnostic entry : Diagnostic}
    (member : entry ∈ (parser.report diagnostic).diagnostics.entries) :
    entry ∈ parser.diagnostics.entries ∨ entry.span = diagnostic.span := by
  by_cases hit : parser.limitHit = true
  · rw [report_of_limitHit hit] at member
    exact .inl member
  by_cases repeated : parser.Repeats diagnostic
  · rw [report_of_repeats repeated] at member
    exact .inl member
  have pushed (added : Diagnostic) (same : added.span = diagnostic.span)
      (member : entry ∈ (parser.diagnostics.push added).entries) :
      entry ∈ parser.diagnostics.entries ∨ entry.span = diagnostic.span := by
    rcases List.mem_append.mp member with earlier | here
    · exact .inl earlier
    · rw [List.mem_singleton.mp here]
      exact .inr same
  by_cases room : parser.HasRoom
  · rw [report_of_room (Bool.eq_false_iff.mpr hit) repeated room] at member
    exact pushed _ rfl member
  · obtain ⟨limit, bound, full⟩ := exists_limit_of_full room
    rw [report_of_full (Bool.eq_false_iff.mpr hit) repeated bound full] at member
    exact pushed (diagnostic.closing limit) rfl member

def Parser.ReportsWithin (source : String) (parser : Parser) : Prop :=
  ∀ entry ∈ parser.diagnostics.entries, entry.span.FitsIn source

theorem Parser.ReportsWithin.report {source : String} {parser : Parser} {diagnostic : Diagnostic}
    (within : parser.ReportsWithin source) (fits : diagnostic.span.FitsIn source) :
    (parser.report diagnostic).ReportsWithin source := by
  intro entry member
  rcases span_of_mem_report member with earlier | same
  · exact within entry earlier
  · rw [same]
    exact fits

/-- A parse beside itself, of which nothing is asked but that all spans fit. -/
def Matching.fitting (source : String) : Matching where
  shown span := span
  sieve := .whole
  Spans left right := left = right ∧ left.FitsIn source
  Records left _ := left.ReportsWithin source
  shown_eq spans := spans.1
  shown_after spans := congrArg Span.after spans.1
  merge spans others := ⟨by rw [spans.1, others.1], spans.2.merge others.2⟩
  moved _ _ within := within
  reported within _ spans := within.report spans.2

theorem Parser.ReportsWithin.ofTokens {source : String} {tokens : List Token}
    {errors : List LexicalError} (options : Options)
    (fit : ∀ problem ∈ errors, problem.span.FitsIn source) :
    (Parser.ofTokens tokens errors options).ReportsWithin source :=
  List.foldlRecOn errors _ nofun fun _ within problem member => within.report (fit problem member)

theorem parsers_ofSource (source : String) (options : Options) :
    (Matching.fitting source).Parsers (.ofSource source options) (.ofSource source options) := by
  have heard : List.Forall₂ (Matching.fitting source).Heard (tokenize source).1
      (tokenize source).1 :=
    List.forall₂_same.mpr fun token member =>
      ⟨rfl, fun _ => ⟨rfl, rfl, rfl, fitsIn_of_token member⟩⟩
  refine Matching.parsers_ofTokens heard (.inl (end_tokenize source)) rfl (fun _ => rfl)
    (.ofTokens options fun problem member => ?_)
  obtain ⟨text, covers⟩ := covers_of_tokenize source problem member
  exact Span.fitsIn_of_covers covers

/-! ### Trees -/

/-- A node below the whole source fits, or stands for an assumed token behind a token. -/
theorem holds_of_mem_nodes {source : String} {options : Options} {role : String} {node : Outline}
    (member : node ∈ ((parseWith source options).1.outline role).nodes) :
    node.span.FitsIn source ∨
      node.isAssumed = true ∧ ∃ token ∈ (tokenize source).1, node.span = token.span.after := by
  obtain ⟨layout, same, fits⟩ := exists_layout_fitting source (Span.FitsIn source)
    (fun _ => fitsIn_of_token) fun _ _ => Span.FitsIn.merge
  obtain ⟨unit, later, ran⟩ :=
    Grammar.sourceUnit_succeeds options.maxDepth (.ofSource source options)
  have start := Parser.depth_ofSource source options
  have whole := (Matching.readUnit_agree (parsers_ofSource source options) start start).1.spans.2
  change (parseWith source options).1.span.FitsIn source at whole
  rw [parseWith_of_ok ran] at member whole
  obtain ⟨behind, -, stands, isRow, -⟩ :=
    Grammar.sourceUnit_spans options.maxDepth (layout.stands_ofSource same options) ran
  have gathers := Layout.Gathers.of_row isRow stands.place.inside
  have root : layout.Holds (unit.outline role) := .inl (fits ▸ whole)
  rcases Outline.forall_mem_nodes root gathers.each node member with here | ⟨assumed, slot, inside, after⟩
  · exact .inl (fits ▸ here)
  · exact .inr ⟨assumed, slot.token, token_mem_of_buffer (same ▸ inside), after⟩

/-- Every position is right, the mark of a token that was only assumed behind one that goes
over several lines apart: spans of nodes and of diagnostics lie within the source, and their
lines and columns are those that a reader counts off. Such a mark keeps the line on which the
token in front of it starts. -/
theorem parseWith_fits (source : String) (options : Options) (role : String) :
    (∀ node ∈ ((parseWith source options).1.outline role).nodes,
      node.span.FitsIn source ∨
        node.isAssumed = true ∧
          ∃ token ∈ (tokenize source).1, '\n' ∈ token.lexeme.toList ∧
            node.span = token.span.after) ∧
    ∀ entry ∈ (parseWith source options).2.entries, entry.span.FitsIn source := by
  constructor
  · intro node member
    rcases holds_of_mem_nodes member with fits | ⟨assumed, token, inside, after⟩
    · exact .inl fits
    · by_cases newline : '\n' ∈ token.lexeme.toList
      · exact .inr ⟨assumed, token, inside, newline, after⟩
      · have covers := (isTiling_of_tokenize source).covers token inside
        exact .inl (after ▸ Span.fitsIn_after covers newline)
  · obtain ⟨-, later, other, parsers, reported, -⟩ :=
      Matching.readUnit_agree (parsers_ofSource source options)
        (Parser.depth_ofSource _ _) (Parser.depth_ofSource _ _)
    intro entry member
    rw [parseWith, reported] at member
    exact parsers.records entry member

/-- A function that breaks off behind a template of two lines. -/
def openTemplate : String :=
  "function f()\x7bx=`\n`"

/-- The brace that is assumed behind the template is placed on the line where it starts. -/
theorem not_fitsIn_openTemplate :
    ¬∀ node ∈ ((parseWith openTemplate {}).1.outline "root").nodes,
      node.span.FitsIn openTemplate := by
  intro all
  have marked : ((parseWith openTemplate {}).1.outline "root").nodes.any
      (fun node => node.span == ⟨18, 18, 1, 19⟩) = true := by
    decide +kernel
  obtain ⟨node, member, place⟩ := List.any_eq_true.mp marked
  have span : node.span = ⟨18, 18, 1, 19⟩ := eq_of_beq place
  have fits : Span.FitsIn openTemplate ⟨18, 18, 1, 19⟩ := span ▸ all node member
  have whole : openTemplate.toList = openTemplate.toList ++ [] := (List.append_nil _).symm
  have line := fits.line_eq whole (by decide +kernel)
  revert line
  decide +kernel

end ServiceLang
