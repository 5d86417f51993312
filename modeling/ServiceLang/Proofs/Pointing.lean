import ServiceLang.Diagnostic.Excerpt
import ServiceLang.Proofs.Consistency
import ServiceLang.Proofs.Escapes
import ServiceLang.Proofs.Reformatting

set_option autoImplicit false

/-! Where the mark of an excerpt stands. It is set by bytes: below the line stand as many blanks as
the line has bytes in front of the span, and as many marks as the span has bytes. So it is right
exactly if these are bytes of characters that take one byte each, all of them on the line. -/

namespace ServiceLang

/-! ### Lines of a text -/

def firstLine (chars : List Char) : List Char :=
  (sourceLines chars).head?.getD []

theorem sourceLines_cons {char : Char} {rest : List Char} (notNewline : char ≠ '\n')
    (notPair : char = '\r' → '\n' ∉ rest.head?) :
    sourceLines (char :: rest) = (char :: firstLine rest) :: (sourceLines rest).tail := by
  rw [sourceLines.eq_4 _ _ notNewline, firstLine]
  · cases sourceLines rest <;> rfl
  · rintro others isReturn rfl
    exact notPair isReturn rfl

/-- A text that starts with no line end has something on its first line. -/
theorem firstLine_ne_nil {chars : List Char} (some : chars ≠ [])
    (visible : ∀ char ∈ chars.head?, isLineEnd char = false) : firstLine chars ≠ [] := by
  cases chars with
  | nil => contradiction
  | cons char rest =>
      have notEnd := visible char rfl
      rw [firstLine, sourceLines_cons]
      · exact List.cons_ne_nil _ _
      · rintro rfl
        cases notEnd
      · rintro rfl
        cases notEnd

theorem eq_nil_of_sourceLines {chars : List Char} (none : sourceLines chars = []) :
    chars = [] := by
  unfold sourceLines at none
  split at none
  · rfl
  · cases none
  · cases none
  · split at none <;> cases none

theorem lastLine_append_of_mem (front : List Char) {back : List Char} (newline : '\n' ∈ back) :
    lastLine (front ++ back) = lastLine back := by
  induction back using List.reverseRecOn with
  | nil => cases newline
  | append_singleton back char ih =>
      by_cases same : char = '\n'
      · rw [same, ← List.append_assoc, lastLine, lastLine,
          List.rtakeWhile_concat_neg _ _ _ (by decide),
          List.rtakeWhile_concat_neg _ _ _ (by decide)]
      · have oneLine : '\n' ∉ [char] := fun member => same (List.mem_singleton.mp member).symm
        have earlier : '\n' ∈ back := (List.mem_append.mp newline).resolve_right oneLine
        rw [← List.append_assoc, Span.lastLine_append _ oneLine, Span.lastLine_append _ oneLine,
          ih earlier]

theorem lastLine_of_notMem {front : List Char} (oneLine : '\n' ∉ front) : lastLine front = front :=
  Span.lastLine_append [] oneLine

theorem lastLine_newline_cons (front : List Char) : lastLine ('\n' :: front) = lastLine front := by
  by_cases newline : '\n' ∈ front
  · exact lastLine_append_of_mem ['\n'] newline
  · rw [lastLine_of_notMem newline]
    exact Span.lastLine_append ['\n'] newline

/-- The line on which a text goes on behind another one. -/
theorem getElem?_sourceLines {front back line : List Char}
    (visible : ∀ char ∈ back.head?, isLineEnd char = false)
    (isLine : (sourceLines (front ++ back))[front.count '\n']? = some line) :
    line = lastLine front ++ firstLine back := by
  induction front using sourceLines.induct generalizing line with
  | case1 =>
      rw [List.nil_append, List.count_nil, ← List.head?_eq_getElem?] at isLine
      rw [firstLine, isLine]
      rfl
  | case2 rest ih =>
      rw [List.cons_append, sourceLines, List.count_cons_self, List.getElem?_cons_succ] at isLine
      rw [ih isLine, lastLine_newline_cons]
  | case3 rest ih =>
      rw [List.cons_append, List.cons_append, sourceLines, List.count_cons_of_ne (by decide),
        List.count_cons_self, List.getElem?_cons_succ] at isLine
      rw [ih isLine, ← lastLine_newline_cons rest]
      exact congrArg (· ++ firstLine back)
        (lastLine_append_of_mem ['\r'] List.mem_cons_self).symm
  | case4 char rest notNewline notPair _ ih | case5 char rest notNewline notPair _ _ _ ih =>
      have notPairToo : char = '\r' → '\n' ∉ (rest ++ back).head? := by
        intro isReturn newline
        cases rest with
        | nil => cases visible '\n' newline
        | cons second rest =>
            obtain rfl := Option.some.inj newline
            exact notPair rest isReturn rfl
      rw [List.cons_append, sourceLines_cons notNewline notPairToo,
        List.count_cons_of_ne notNewline] at isLine
      by_cases newline : '\n' ∈ rest
      · obtain ⟨count, isCount⟩ := Nat.exists_eq_succ_of_ne_zero
          (Nat.ne_of_gt (List.count_pos_iff.mpr newline))
        rw [isCount, List.getElem?_cons_succ, List.getElem?_tail, ← Nat.succ_eq_add_one,
          ← isCount] at isLine
        rw [ih isLine]
        exact congrArg (· ++ firstLine back) (lastLine_append_of_mem [char] newline).symm
      · have oneLine : '\n' ∉ char :: rest := by
          intro member
          exact (List.mem_cons.mp member).elim (fun same => notNewline same.symm) newline
        rw [List.count_eq_zero.mpr newline, List.getElem?_cons_zero] at isLine
        rw [List.count_eq_zero.mpr newline, ← List.head?_eq_getElem?,
          lastLine_of_notMem newline] at ih
        rw [lastLine_of_notMem oneLine, ← Option.some.inj isLine, firstLine]
        cases isFirst : (sourceLines (rest ++ back)).head? with
        | some first => exact congrArg (char :: ·) (ih isFirst)
        | none =>
            have nothing := eq_nil_of_sourceLines (List.head?_eq_none_iff.mp isFirst)
            obtain ⟨rfl, rfl⟩ := List.append_eq_nil_iff.mp nothing
            rfl

/-! ### Spans of a source -/

namespace Span

def Marks (span : Span) (source text : List Char) : Prop :=
  ∃ front back, source = front ++ text ++ back ∧ span = behind front text ∧
    ∀ char ∈ (text ++ back).head?, isLineEnd char = false

/-- Of two places in a text the one with fewer bytes in front comes first. -/
theorem prefix_of_utf8Len_le {source front other : List Char} (isFront : front <+: source)
    (isOther : other <+: source) (shorter : String.utf8Len front ≤ String.utf8Len other) :
    front <+: other := by
  rcases List.prefix_or_prefix_of_prefix isFront isOther with before | ⟨rest, rfl⟩
  · exact before
  · rw [String.utf8Len_append] at shorter
    obtain rfl := String.utf8Len_eq_zero.mp (by omega : String.utf8Len rest = 0)
    exact ⟨[], by rw [List.append_nil, List.append_nil]⟩

theorem eq_of_utf8Len_eq {source front other : List Char} (isFront : front <+: source)
    (isOther : other <+: source) (same : String.utf8Len front = String.utf8Len other) :
    front = other :=
  (prefix_of_utf8Len_le isFront isOther same.le).eq_of_length_le
    (prefix_of_utf8Len_le isOther isFront same.ge).length_le

/-- A span that starts where a marked one does and stops behind some more of the text. -/
theorem marks_of_prefix {source front text back stop : List Char}
    (whole : source = front ++ text ++ back) (isStop : stop <+: source)
    (later : String.utf8Len (front ++ text) ≤ String.utf8Len stop)
    (visible : ∀ char ∈ (text ++ back).head?, isLineEnd char = false) :
    ∃ more, Marks ⟨String.utf8Len front, String.utf8Len stop, (behind front text).line,
      (behind front text).column⟩ source more := by
  obtain ⟨more, rfl⟩ := prefix_of_utf8Len_le ⟨back, whole.symm⟩ isStop later
  obtain ⟨rest, rfl⟩ := isStop
  have isBack : back = more ++ rest := by
    have same : front ++ text ++ (more ++ rest) = front ++ text ++ back := by
      rw [← whole, List.append_assoc _ more]
    exact (List.append_cancel_left same).symm
  refine ⟨text ++ more, front, rest, by simp only [List.append_assoc], ?_, ?_⟩
  · rw [List.append_assoc, String.utf8Len_append front]
    rfl
  · rw [List.append_assoc, ← isBack]
    exact visible

theorem Marks.merge {source text others : List Char} {left right : Span}
    (marks : left.Marks source text) (marksToo : right.Marks source others) :
    ∃ more, (left.merge right).Marks source more := by
  obtain ⟨front, back, whole, rfl, visible⟩ := marks
  obtain ⟨frontToo, backToo, wholeToo, rfl, visibleToo⟩ := marksToo
  obtain ⟨stop, isStop, bytes⟩ : ∃ stop, stop <+: source ∧ String.utf8Len stop =
      max (String.utf8Len (front ++ text)) (String.utf8Len (frontToo ++ others)) := by
    rcases le_total (String.utf8Len (front ++ text)) (String.utf8Len (frontToo ++ others)) with
      shorter | longer
    · exact ⟨_, ⟨backToo, wholeToo.symm⟩, (Nat.max_eq_right shorter).symm⟩
    · exact ⟨_, ⟨back, whole.symm⟩, (Nat.max_eq_left longer).symm⟩
  have isMerged : max (behind front text).stop (behind frontToo others).stop =
      String.utf8Len stop := by
    rw [bytes, String.utf8Len_append, String.utf8Len_append]
    rfl
  rw [Span.merge, isMerged]
  split
  · exact marks_of_prefix whole isStop (bytes ▸ Nat.le_max_left _ _) visible
  · exact marks_of_prefix wholeToo isStop (bytes ▸ Nat.le_max_right _ _) visibleToo

end Span

namespace TokenStream

variable {stream : TokenStream} {source front : List Char}

theorem marks_of_next? (isBehind : stream.IsBehind source front) {token : Token}
    {later : TokenStream} (step : stream.next? = some (token, later)) :
    ∃ text, token.span.Marks source text := by
  have noGap : gapLength 0 stream.skipGap.rest = 0 := gapLength_drop 0 stream.rest
  obtain ⟨gap, first, rest, text, -, ahead, rfl, whole, rfl, rfl⟩ := isBehind.lexeme step
  rw [ahead] at noGap
  refine ⟨_, front ++ gap, _, whole, rfl, fun char head => ?_⟩
  -- A line end is blank, and no lexeme starts with a blank.
  cases head
  refine Bool.eq_false_of_not_eq_true fun lineEnd => notBlank_of_gapLength noGap ?_
  simp only [isLineEnd, Bool.or_eq_true, beq_iff_eq] at lineEnd
  rcases lineEnd with rfl | rfl <;> decide

theorem marks_of_tokens (isBehind : stream.IsBehind source front) :
    ∀ token ∈ stream.tokens.1, ∃ text, token.span.Marks source text := by
  refine forall_tokens (fun token => ∃ text, token.span.Marks source text)
    (fun behind step => marks_of_next? behind step) (fun behind done => ?_) isBehind
  obtain ⟨gap, -, whole, isEnd⟩ := behind.last done
  rw [isEnd]
  exact ⟨[], _, [], by simpa using whole, rfl, nofun⟩

end TokenStream

theorem marks_of_token {source : String} {token : Token} (inside : token ∈ (tokenize source).1) :
    ∃ text, token.span.Marks source.toList text := by
  obtain ⟨mark, -, isBehind⟩ := TokenStream.isBehind_ofSource source
  exact TokenStream.marks_of_tokens isBehind token inside

/-- A lexical error is marked as a token is, or marks an escape. -/
theorem marks_of_problem {source : String} {problem : LexicalError}
    (met : problem ∈ (tokenize source).2) : ∃ text, problem.span.Marks source.toList text := by
  obtain ⟨mark, -, isBehind⟩ := TokenStream.isBehind_ofSource source
  rcases TokenStream.warnsIn_of_tokens isBehind problem met with early | isError |
    ⟨token, -, warns⟩
  · rw [TokenStream.errors_ofSource] at early
    cases early
  · have span : problem.span ∈ errorSpans (tokenize source).2 :=
      List.mem_map_of_mem (List.mem_filter.mpr ⟨met, beq_iff_eq.mpr isError⟩)
    rw [errorSpans_tokenize] at span
    obtain ⟨token, found, isSpan⟩ := List.mem_map.mp span
    rw [← isSpan]
    exact marks_of_token (List.mem_of_mem_filter found)
  · obtain ⟨char, -, front, back, whole, isSpan⟩ := warns.isEscape
    refine ⟨_, front, back, whole, isSpan, fun first head => ?_⟩
    cases head
    rfl

/-! ### Spans of what is reported -/

def Matching.holding (Holds : Span → Prop)
    (merge : ∀ {left right}, Holds left → Holds right → Holds (left.merge right)) : Matching where
  shown span := span
  sieve := .whole
  Spans left right := left = right ∧ Holds left
  Records left _ := ∀ entry ∈ left.diagnostics.entries, Holds entry.span
  shown_eq spans := spans.1
  shown_after spans := congrArg Span.after spans.1
  merge spans others := ⟨by rw [spans.1, others.1], merge spans.2 others.2⟩
  moved _ _ held := held
  reported held _ spans entry member :=
    (Parser.span_of_mem_report member).elim (held entry) fun same => same ▸ spans.2

/-- What holds of the spans of tokens and lexical errors, and of what is merged from such spans,
holds of the spans of all diagnostics. -/
theorem holds_of_entries {source : String} {options : Options} {Holds : Span → Prop}
    (merge : ∀ {left right}, Holds left → Holds right → Holds (left.merge right))
    (tokens : ∀ token ∈ (tokenize source).1, Holds token.span)
    (problems : ∀ problem ∈ (tokenize source).2, Holds problem.span) :
    ∀ entry ∈ (parseWith source options).2.entries, Holds entry.span := by
  have heard : List.Forall₂ (Matching.holding Holds merge).Heard (tokenize source).1
      (tokenize source).1 :=
    List.forall₂_same.mpr fun token member => ⟨rfl, fun _ => ⟨rfl, rfl, rfl, tokens token member⟩⟩
  have start : ∀ entry ∈ (Parser.ofSource source options).diagnostics.entries,
      Holds entry.span :=
    List.foldlRecOn
      (motive := fun parser : Parser => ∀ entry ∈ parser.diagnostics.entries, Holds entry.span)
      (tokenize source).2 _ nofun fun _ held problem met entry member =>
        (Parser.span_of_mem_report member).elim (held entry) fun same =>
          same ▸ problems problem met
  have parsers : (Matching.holding Holds merge).Parsers (.ofSource source options)
      (.ofSource source options) :=
    Matching.parsers_ofTokens heard (.inl (end_tokenize source)) rfl (fun _ => rfl) start
  have start := Parser.depth_ofSource source options
  obtain ⟨-, later, other, behind, reported, -⟩ := Matching.readUnit_agree parsers start start
  intro entry member
  rw [parseWith, reported] at member
  exact behind.records entry member

theorem marks_of_entries {source : String} {options : Options} :
    ∀ entry ∈ (parseWith source options).2.entries,
      ∃ text, entry.span.Marks source.toList text :=
  @holds_of_entries source options (fun span => ∃ text, span.Marks source.toList text)
    (fun ⟨_, marks⟩ ⟨_, marksToo⟩ => marks.merge marksToo) (fun _ => marks_of_token)
    fun _ => marks_of_problem

/-! ### Marks below a line -/

theorem length_le_utf8Len (chars : List Char) : chars.length ≤ String.utf8Len chars := by
  induction chars with
  | nil => exact Nat.le_refl 0
  | cons char chars ih => exact Nat.add_le_add ih char.utf8Size_pos

/-- A text has as many bytes as characters if each of them takes one byte. -/
theorem utf8Len_eq_length_iff {chars : List Char} :
    String.utf8Len chars = chars.length ↔ ∀ char ∈ chars, char.utf8Size = 1 := by
  induction chars with
  | nil => exact iff_of_true rfl nofun
  | cons char chars ih =>
      have here := char.utf8Size_pos
      have others := length_le_utf8Len chars
      rw [List.forall_mem_cons, ← ih, String.utf8Len_cons, List.length_cons]
      omega

theorem toList_pushn (text : String) (char : Char) (count : Nat) :
    (text.pushn char count).toList = text.toList ++ List.replicate count char := by
  rw [String.pushn_eq_repeat_push]
  induction count with
  | zero => exact (List.append_nil _).symm
  | succ count ih =>
      rw [Nat.repeat, String.toList_push, ih, List.append_assoc, List.replicate_succ']

namespace Diagnostic

/-- The excerpt with this line, and below it a mark this long behind so many blanks. -/
def excerptWith (diagnostic : Diagnostic) (line : String) (pad marks : Nat) : String :=
  let number := toString diagnostic.span.line
  let gutter := max number.length 4
  diagnostic.heading ++
    "".pushn ' ' (gutter - number.length) ++ number ++ " | " ++ line ++ "\n" ++
    "".pushn ' ' gutter ++ " | " ++ "".pushn ' ' pad ++ "^".pushn '~' (marks - 1) ++ "\n" ++
    match diagnostic.recovery with
    | some recovery => "".pushn ' ' gutter ++ " = " ++ recovery.text ++ "\n"
    | none => ""

/-- The mark stands below the characters of the span that are on its line: behind as many blanks
as characters stand in front of them, and as long as they are, but never empty. -/
def PointsAt (diagnostic : Diagnostic) (source line : String) : Prop :=
  ∃ front text back, source.toList = front ++ text ++ back ∧
    String.utf8Len front = diagnostic.span.start ∧
    String.utf8Len (front ++ text) = diagnostic.span.stop ∧
    line.toList = lastLine front ++ firstLine (text ++ back) ∧
    diagnostic.excerpt source = diagnostic.excerptWith line (lastLine front).length
      (max 1 (min text.length (firstLine (text ++ back)).length))

variable {diagnostic : Diagnostic} {source line : String}

theorem excerpt_eq_excerptWith (shown : sourceLine? source diagnostic.span.line = some line) :
    diagnostic.excerpt source = diagnostic.excerptWith line (diagnostic.span.column - 1)
      (max 1 diagnostic.span.length) := by
  have marks : max 1 diagnostic.span.length - 1 = diagnostic.span.length - 1 := by omega
  rw [excerpt, shown, excerptWith, marks]
  rfl

/-- An excerpt tells where its mark stands and how long it is. -/
theorem eq_of_excerptWith {pad padToo marks marksToo : Nat} (some : 0 < marks)
    (someToo : 0 < marksToo)
    (same : diagnostic.excerptWith line pad marks = diagnostic.excerptWith line padToo marksToo) :
    pad = padToo ∧ marks = marksToo := by
  have marked := (String.append_left_inj _).mp ((String.append_left_inj _).mp same)
  simp only [String.append_assoc, String.append_right_inj] at marked
  have chars := congrArg String.toList marked
  simp only [String.toList_append, toList_pushn] at chars
  have blanks := congrArg (List.count ' ') chars
  have tildes := congrArg (List.count '~') chars
  simp only [String.toList_empty, List.nil_append, String.reduceToList, List.cons_append,
    List.count_append, List.count_replicate_self, ne_eq, Char.reduceEq, not_false_eq_true,
    List.count_cons_of_ne, List.count_replicate, Char.reduceBEq, Bool.false_eq_true, ↓reduceIte,
    Nat.add_zero, Nat.zero_add] at blanks tildes
  omega

section Behind

variable {front text back : List Char} (whole : source.toList = front ++ text ++ back)
  (isSpan : diagnostic.span = Span.behind front text)
  (visible : ∀ char ∈ (text ++ back).head?, isLineEnd char = false)
  (shown : sourceLine? source diagnostic.span.line = some line)

include isSpan shown

theorem excerpt_of_behind : diagnostic.excerpt source =
    diagnostic.excerptWith line (String.utf8Len (lastLine front))
      (max 1 (String.utf8Len text)) := by
  have length : diagnostic.span.length = String.utf8Len text := by
    rw [isSpan]
    exact Nat.add_sub_cancel_left ..
  have column : diagnostic.span.column - 1 = String.utf8Len (lastLine front) := by
    rw [isSpan]
    exact Nat.add_sub_cancel_left ..
  rw [excerpt_eq_excerptWith shown, length, column]

include whole visible

theorem line_of_behind : line.toList = lastLine front ++ firstLine (text ++ back) := by
  have counted : (Span.behind front text).line ≠ 0 :=
    Nat.ne_of_gt (Nat.add_pos_left Nat.one_pos _)
  have index : (Span.behind front text).line - 1 = front.count '\n' :=
    Nat.add_sub_cancel_left ..
  rw [isSpan, sourceLine?, if_neg counted, index, whole, List.append_assoc] at shown
  obtain ⟨chars, found, rfl⟩ := Option.map_eq_some_iff.mp shown
  rw [String.toList_ofList]
  exact getElem?_sourceLines visible found

/-- The mark points at a text of a source if every character up to its end takes one byte, and the
text ends on the line on which it starts. -/
theorem pointsAt_iff_of_behind :
    diagnostic.PointsAt source line ↔ (∀ char ∈ lastLine front ++ text, char.utf8Size = 1) ∧
      text.length ≤ (firstLine (text ++ back)).length := by
  have marked := excerpt_of_behind isSpan shown
  have longer := length_le_utf8Len text
  have none : text.length = 0 → String.utf8Len text = 0 := fun none =>
    String.utf8Len_eq_zero.mpr (List.length_eq_zero_iff.mp none)
  have some : 0 < text.length → 0 < (firstLine (text ++ back)).length := fun some =>
    List.length_pos_iff.mpr (firstLine_ne_nil
      (List.append_ne_nil_of_left_ne_nil (List.length_pos_iff.mp some) _) visible)
  rw [List.forall_mem_append, ← utf8Len_eq_length_iff, ← utf8Len_eq_length_iff]
  constructor
  · -- There is only one text of this many bytes at this place, and only one mark in an excerpt.
    rintro ⟨frontToo, textToo, backToo, wholeToo, start, stop, -, same⟩
    rw [isSpan] at start stop
    obtain rfl : frontToo = front :=
      Span.eq_of_utf8Len_eq ⟨textToo ++ backToo, List.append_assoc .. ▸ wholeToo.symm⟩
        ⟨text ++ back, List.append_assoc .. ▸ whole.symm⟩ start
    obtain rfl : textToo = text := List.append_cancel_left
      (Span.eq_of_utf8Len_eq ⟨backToo, wholeToo.symm⟩ ⟨back, whole.symm⟩
        (stop.trans (String.utf8Len_append _ _).symm))
    obtain rfl : backToo = back := List.append_cancel_left (wholeToo.symm.trans whole)
    obtain ⟨pad, marks⟩ := eq_of_excerptWith (Nat.lt_of_lt_of_le Nat.one_pos (Nat.le_max_left _ _))
      (Nat.lt_of_lt_of_le Nat.one_pos (Nat.le_max_left _ _)) (marked.symm.trans same)
    omega
  · rintro ⟨⟨pad, bytes⟩, inside⟩
    refine ⟨front, text, back, whole, ?_, ?_, line_of_behind whole isSpan visible shown, ?_⟩
    · rw [isSpan]
      rfl
    · rw [isSpan, String.utf8Len_append]
      rfl
    · rw [marked, pad, bytes, Nat.min_eq_left inside]

end Behind

end Diagnostic

/-- Where the mark below a line stands that an excerpt shows, and when it points at what the
diagnostic is about. -/
theorem pointsAt_iff (source : String) (options : Options) :
    ∀ entry ∈ (parseWith source options).2.entries, ∀ line,
      sourceLine? source entry.span.line = some line →
      ∃ front text back, source.toList = front ++ text ++ back ∧
        entry.span = Span.behind front text ∧
        line.toList = lastLine front ++ firstLine (text ++ back) ∧
        entry.excerpt source = entry.excerptWith line (String.utf8Len (lastLine front))
          (max 1 (String.utf8Len text)) ∧
        (entry.PointsAt source line ↔ (∀ char ∈ lastLine front ++ text, char.utf8Size = 1) ∧
          text.length ≤ (firstLine (text ++ back)).length) := by
  intro entry reported line shown
  obtain ⟨text, front, back, whole, isSpan, visible⟩ := marks_of_entries entry reported
  exact ⟨front, text, back, whole, isSpan, Diagnostic.line_of_behind whole isSpan visible shown,
    Diagnostic.excerpt_of_behind isSpan shown,
    Diagnostic.pointsAt_iff_of_behind whole isSpan visible shown⟩

/-- In the source `é#` the mark of the second character stands one column too far to the right. -/
theorem pointsAt_iff_stray :
    ∃ entry ∈ (parseWith "é#" {}).2.entries, sourceLine? "é#" entry.span.line = some "é#" ∧
      ∃ front text back, "é#".toList = front ++ text ++ back ∧
        entry.span = Span.behind front text ∧
        "é#".toList = lastLine front ++ firstLine (text ++ back) ∧
        entry.excerpt "é#" = entry.excerptWith "é#" (String.utf8Len (lastLine front))
          (max 1 (String.utf8Len text)) ∧
        (entry.PointsAt "é#" "é#" ↔ (∀ char ∈ lastLine front ++ text, char.utf8Size = 1) ∧
          text.length ≤ (firstLine (text ++ back)).length) := by
  have reported : .error .lexical ⟨2, 3, 1, 3⟩ "stray character '#' at 1:3" ∈
      (parseWith "é#" {}).2.entries := by
    decide +kernel
  have shown : sourceLine? "é#" 1 = some "é#" := by decide +kernel
  exact ⟨_, reported, shown, pointsAt_iff "é#" {} _ reported _ shown⟩

/-- A template that is not closed, behind a character of two bytes. Its mark starts one column
behind the backtick, and is as long as all that is left of the source. -/
theorem not_pointsAt_openTemplate :
    ∃ entry ∈ (parseLenient "é`a\nb").2.entries,
      sourceLine? "é`a\nb" entry.span.line = some "é`a" ∧ ¬ entry.PointsAt "é`a\nb" "é`a" := by
  have reported : .error .lexical ⟨2, 6, 1, 3⟩ "backtick template not closed at 1:3" ∈
      (parseLenient "é`a\nb").2.entries := by
    decide +kernel
  have shown : sourceLine? "é`a\nb" 1 = some "é`a" := by decide +kernel
  have whole : "é`a\nb".toList = ['é'] ++ "`a\nb".toList ++ [] := by decide +kernel
  have isSpan : (⟨2, 6, 1, 3⟩ : Span) = Span.behind ['é'] "`a\nb".toList := by decide +kernel
  have visible : ∀ char ∈ ("`a\nb".toList ++ []).head?, isLineEnd char = false := by
    simp [isLineEnd]
  refine ⟨_, reported, shown, fun points => ?_⟩
  obtain ⟨narrow, -⟩ :=
    (Diagnostic.pointsAt_iff_of_behind whole isSpan visible shown).mp points
  have isWide : 'é'.utf8Size = 2 := rfl
  rw [narrow 'é' (by decide +kernel)] at isWide
  cases isWide

end ServiceLang
