import Mathlib.Data.List.DropRight
import Mathlib.Data.String.Basic
import ServiceLang.Lexical.Stream
import ServiceLang.Proofs.Extents

set_option autoImplicit false

/-! The tokens of a source tile it: every piece of the text is one token, or stands in a
gap that holds blanks and closed comments only. Lines and columns are those that a reader
counts off from the text. -/

namespace ServiceLang

/-! ### Places counted off from the text -/

theorem utf8Len_pos {chars : List Char} (nonempty : chars ≠ []) : 0 < String.utf8Len chars := by
  cases chars with
  | nil => contradiction
  | cons char chars =>
      have here := char.utf8Size_pos
      rw [String.utf8Len_cons]
      omega

def lastLine (front : List Char) : List Char :=
  front.rtakeWhile (fun char => char != '\n')

/-- The span of `text` behind `front`: a range of bytes, the line counted in newlines,
the column in bytes behind the last of them. -/
def Span.behind (front text : List Char) : Span where
  start := String.utf8Len front
  stop := String.utf8Len front + String.utf8Len text
  line := 1 + front.count '\n'
  column := 1 + String.utf8Len (lastLine front)

namespace Place

theorem offset_past (place : Place) (chars : List Char) :
    (place.past chars).offset = place.offset + String.utf8Len chars := by
  induction chars generalizing place with
  | nil => rfl
  | cons char chars ih =>
      have step : (place.next char).offset = place.offset + char.utf8Size := by
        unfold next
        split
        · rename_i newline
          rw [newline]
          rfl
        · rfl
      have behind := ih (place.next char)
      rw [step] at behind
      change ((place.next char).past chars).offset = _
      rw [behind, String.utf8Len_cons]
      omega

theorem line_past_start (front : List Char) :
    (start.past front).line = 1 + front.count '\n' := by
  induction front using List.reverseRecOn with
  | nil => rfl
  | append_singleton front char ih =>
      rw [past_append, List.count_append, List.count_singleton]
      change ((start.past front).next char).line = _
      unfold next
      split
      · rename_i newline
        rw [newline]
        simp only [beq_self_eq_true, if_true]
        omega
      · rename_i other
        simp only [beq_iff_eq, other, if_false]
        exact ih

theorem column_past_start (front : List Char) :
    (start.past front).column = 1 + String.utf8Len (lastLine front) := by
  induction front using List.reverseRecOn with
  | nil => rfl
  | append_singleton front char ih =>
      rw [past_append]
      change ((start.past front).next char).column = _
      unfold next lastLine
      split
      · rename_i newline
        rw [newline, List.rtakeWhile_concat_neg _ _ _ (by decide)]
        rfl
      · rename_i other
        rw [List.rtakeWhile_concat_pos _ _ _ (by simpa using other), String.utf8Len_append]
        change (start.past front).column + char.utf8Size = 1 + (String.utf8Len (lastLine front) + _)
        rw [ih, String.utf8Len_cons, String.utf8Len_nil]
        omega

/-- A place reached from the start is where the text says it is. -/
theorem span_past_start (front text : List Char) :
    (start.past front).span text = Span.behind front text := by
  unfold span Span.behind
  have offset : (start.past front).offset = String.utf8Len front := by
    rw [offset_past]
    exact Nat.zero_add _
  rw [offset_past (start.past front), offset, line_past_start, column_past_start]

end Place

/-! ### Gaps -/

/-- Blanks and closed block comments. A comment closes at the first `*/` in it. -/
inductive IsGap : List Char → Prop where
  | nil : IsGap []
  | blank {char : Char} {rest : List Char} :
      isBlank char = true → IsGap rest → IsGap (char :: rest)
  | comment {body rest : List Char} :
      ¬ ['*', '/'] <:+: body ++ ['*'] → IsGap rest →
      IsGap ('/' :: '*' :: (body ++ '*' :: '/' :: rest))

theorem closed_of_commentLength? {chars : List Char} {length : Nat}
    (closes : commentLength? chars = some length) :
    ∃ body, ¬ ['*', '/'] <:+: body ++ ['*'] ∧ length = body.length + 2 ∧
      chars = body ++ '*' :: '/' :: chars.drop length := by
  induction chars generalizing length with
  | nil => cases closes
  | cons char chars ih =>
      unfold commentLength? at closes
      split at closes
      · contradiction
      · rename_i rest same
        obtain ⟨rfl, rfl⟩ := List.cons.inj same
        cases closes
        exact ⟨[], by decide, rfl, rfl⟩
      · rename_i other rest notHere same
        obtain ⟨rfl, rfl⟩ := List.cons.inj same
        obtain ⟨inner, closesBehind, rfl⟩ := Option.map_eq_some_iff.mp closes
        obtain ⟨body, notInside, rfl, split⟩ := ih closesBehind
        refine ⟨char :: body, ?_, rfl, congrArg (char :: ·) split⟩
        -- The closing mark would start at this very character.
        intro inside
        rcases List.infix_cons_iff.mp inside with atFront | inside
        · obtain ⟨back, front⟩ := atFront
          obtain ⟨star, front⟩ := List.cons.inj front
          cases body with
          | nil => cases front
          | cons second body =>
              obtain ⟨slash, -⟩ := List.cons.inj front
              rw [← slash] at split
              exact notHere _ star.symm split
        · exact notInside inside

/-- What is skipped in front of a token, a comment begun earlier aside, is a gap. -/
theorem gap_of_gapLength (skip : Nat) (chars : List Char) (enough : skip ≤ chars.length) :
    ∃ gap rest, IsGap gap ∧ chars.drop skip = gap ++ rest ∧
      gapLength skip chars = skip + gap.length := by
  induction skip, chars using gapLength.induct with
  | case1 skip =>
      have none : skip = 0 := Nat.le_zero.mp enough
      rw [none]
      exact ⟨[], [], .nil, rfl, rfl⟩
  | case2 skip char rest ih =>
      obtain ⟨gap, behind, isGap, split, size⟩ := ih (Nat.le_of_succ_le_succ enough)
      refine ⟨gap, behind, isGap, split, ?_⟩
      rw [gapLength, size]
      omega
  | case3 char rest blank ih =>
      obtain ⟨gap, behind, isGap, split, size⟩ := ih (Nat.zero_le _)
      refine ⟨char :: gap, behind, .blank blank isGap, congrArg (char :: ·) split, ?_⟩
      rw [gapLength.eq_def]
      simp only [if_pos blank, size, List.length_cons]
      omega
  | case4 body length closes notBlank ih =>
      obtain ⟨comment, notInside, commentSize, whole⟩ := closed_of_commentLength? closes
      have enough : 1 + length ≤ ('*' :: body).length := by
        have sizes := congrArg List.length whole
        simp only [List.length_append, List.length_cons] at sizes ⊢
        omega
      obtain ⟨gap, behind, isGap, split, size⟩ := ih enough
      rw [Nat.add_comm 1 length, List.drop_succ_cons] at split
      refine ⟨'/' :: '*' :: (comment ++ '*' :: '/' :: gap), behind, .comment notInside isGap, ?_, ?_⟩
      · rw [List.drop_zero, whole, split]
        simp only [List.cons_append, List.append_assoc]
      · rw [gapLength.eq_def]
        simp only [if_neg notBlank, closes, size, List.length_cons, List.length_append]
        omega
  | case5 body open_ notBlank =>
      refine ⟨[], _, .nil, rfl, ?_⟩
      rw [gapLength.eq_def]
      simp only [if_neg notBlank, open_]
      rfl
  | case6 char rest notBlank notComment =>
      refine ⟨[], _, .nil, rfl, ?_⟩
      rw [gapLength.eq_def]
      simp only [if_neg notBlank]
      rfl

/-- Behind a gap there is none. -/
theorem gapLength_drop (skip : Nat) (chars : List Char) :
    gapLength 0 (chars.drop (gapLength skip chars)) = 0 := by
  induction skip, chars using gapLength.induct with
  | case1 skip =>
      rw [List.drop_nil]
      rfl
  | case2 skip char rest ih =>
      rw [gapLength, Nat.add_comm, List.drop_succ_cons]
      exact ih
  | case3 char rest blank ih =>
      rw [gapLength.eq_def 0 (char :: rest)]
      simp only [if_pos blank]
      rw [Nat.add_comm, List.drop_succ_cons]
      exact ih
  | case4 body length closes notBlank ih =>
      rw [gapLength.eq_def 0 ('/' :: '*' :: body)]
      simp only [if_neg notBlank, closes]
      rw [Nat.add_comm, List.drop_succ_cons]
      exact ih
  | case5 body stillOpen notBlank =>
      have none : gapLength 0 ('/' :: '*' :: body) = 0 := by
        rw [gapLength.eq_def]
        simp only [if_neg notBlank, stillOpen]
      rw [none]
      exact none
  | case6 char rest notBlank notComment =>
      have none : gapLength 0 (char :: rest) = 0 := by
        rw [gapLength.eq_def]
        simp only [if_neg notBlank]
      rw [none]
      exact none

theorem notBlank_of_gapLength {first : Char} {rest : List Char}
    (noGap : gapLength 0 (first :: rest) = 0) : ¬isBlank first = true := by
  intro blank
  rw [gapLength.eq_def] at noGap
  simp only [if_pos blank] at noGap
  omega

/-! ### Pieces of a source -/

/-- A span covers this text of a source. -/
def Span.Covers (span : Span) (source text : List Char) : Prop :=
  ∃ front back, source = front ++ text ++ back ∧ span = Span.behind front text

def Span.GapBetween (source : List Char) (left right : Span) : Prop :=
  ∃ front gap back, source = front ++ gap ++ back ∧ IsGap gap ∧
    left.stop = String.utf8Len front ∧ right.start = String.utf8Len (front ++ gap)

/-- A source starts with a gap up to this span. A byte order mark may open it. -/
def Span.GapBefore (source : List Char) (span : Span) : Prop :=
  ∃ mark gap back, source = mark ++ gap ++ back ∧ (mark = [] ∨ mark = [byteOrderMark]) ∧
    IsGap gap ∧ span.start = String.utf8Len (mark ++ gap)

structure IsTiling (source : String) (tokens : List Token) : Prop where
  covers : ∀ token ∈ tokens, token.span.Covers source.toList token.lexeme.toList
  ordered : tokens.Pairwise fun left right =>
    left.span.start < right.span.start ∧ left.span.stop ≤ right.span.start
  ends : ∃ earlier last, tokens = earlier ++ [last] ∧
    (last.kind = .endOfFile ∧ last.lexeme = "" ∧
      last.span.start = source.utf8ByteSize ∧ last.span.stop = source.utf8ByteSize) ∧
    ∀ token ∈ earlier, token.kind ≠ .endOfFile ∧ token.lexeme ≠ "" ∧
      token.span.start < token.span.stop
  gapBefore : ∀ token ∈ tokens.head?, token.span.GapBefore source.toList
  gaps : tokens.IsChain fun left right => Span.GapBetween source.toList left.span right.span

/-- The tokens cut from what stands behind `front` in a source. -/
inductive CutBehind (source : List Char) : List Char → List Token → Prop where
  | last {front gap : List Char} :
      IsGap gap → source = front ++ gap →
      CutBehind source front [⟨.endOfFile, "", Span.behind (front ++ gap) []⟩]
  | more {front gap text : List Char} {kind : Kind} {tokens : List Token} :
      IsGap gap → kind ≠ .endOfFile → text ≠ [] →
      CutBehind source (front ++ gap ++ text) tokens →
      CutBehind source front
        (⟨kind, String.ofList text, Span.behind (front ++ gap) text⟩ :: tokens)

namespace CutBehind

variable {source front : List Char} {tokens : List Token}

theorem isPrefix (cut : CutBehind source front tokens) : ∃ back, source = front ++ back := by
  induction cut with
  | last _ whole => exact ⟨_, whole⟩
  | more _ _ _ _ ih =>
      obtain ⟨back, whole⟩ := ih
      rw [List.append_assoc, List.append_assoc] at whole
      exact ⟨_, whole⟩

theorem covers (cut : CutBehind source front tokens) :
    ∀ token ∈ tokens, token.span.Covers source token.lexeme.toList := by
  induction cut with
  | @last front gap _ whole =>
      intro token member
      rw [List.mem_singleton.mp member]
      exact ⟨front ++ gap, [], by simpa using whole, rfl⟩
  | @more front gap text kind tokens _ _ _ later ih =>
      intro token member
      rcases List.mem_cons.mp member with rfl | member
      · obtain ⟨back, whole⟩ := later.isPrefix
        change Span.Covers _ _ (String.ofList text).toList
        rw [String.toList_ofList]
        exact ⟨front ++ gap, back, whole, rfl⟩
      · exact ih token member

/-- Tokens behind a text start behind it. -/
theorem starts_behind (cut : CutBehind source front tokens) :
    ∀ token ∈ tokens, String.utf8Len front ≤ token.span.start := by
  induction cut with
  | last _ _ =>
      intro token member
      rw [List.mem_singleton.mp member]
      change _ ≤ String.utf8Len _
      rw [String.utf8Len_append]
      exact Nat.le_add_right _ _
  | more _ _ _ _ ih =>
      intro token member
      rcases List.mem_cons.mp member with rfl | member
      · change _ ≤ String.utf8Len _
        rw [String.utf8Len_append]
        exact Nat.le_add_right _ _
      · have behind := ih token member
        rw [String.utf8Len_append, String.utf8Len_append] at behind
        omega

theorem ordered (cut : CutBehind source front tokens) :
    tokens.Pairwise fun left right =>
      left.span.start < right.span.start ∧ left.span.stop ≤ right.span.start := by
  induction cut with
  | last _ _ => exact List.pairwise_singleton _ _
  | @more front gap text kind tokens _ _ nonempty later ih =>
      apply List.Pairwise.cons _ ih
      intro token member
      have behind := later.starts_behind token member
      have longer := utf8Len_pos nonempty
      rw [String.utf8Len_append] at behind
      constructor
      · change String.utf8Len (front ++ gap) < _
        omega
      · exact behind

theorem ends (cut : CutBehind source front tokens) :
    ∃ earlier last, tokens = earlier ++ [last] ∧
      (last.kind = .endOfFile ∧ last.lexeme = "" ∧
        last.span.start = String.utf8Len source ∧ last.span.stop = String.utf8Len source) ∧
      ∀ token ∈ earlier, token.kind ≠ .endOfFile ∧ token.lexeme ≠ "" ∧
        token.span.start < token.span.stop := by
  induction cut with
  | last _ whole =>
      rw [whole]
      exact ⟨[], _, rfl, ⟨rfl, rfl, rfl, rfl⟩, fun token none => by cases none⟩
  | @more front gap text kind tokens _ notEnd nonempty _ ih =>
      obtain ⟨earlier, last, rfl, atEnd, earlierGood⟩ := ih
      refine ⟨_ :: earlier, last, rfl, atEnd, ?_⟩
      intro token member
      rcases List.mem_cons.mp member with rfl | member
      · refine ⟨notEnd, ?_, ?_⟩
        · intro empty
          exact nonempty (String.ofList_eq_empty_iff.mp empty)
        · have longer := utf8Len_pos nonempty
          change String.utf8Len (front ++ gap) < String.utf8Len (front ++ gap) + _
          omega
      · exact earlierGood token member

theorem head (cut : CutBehind source front tokens) :
    ∀ token ∈ tokens.head?, ∃ gap back, source = front ++ gap ++ back ∧ IsGap gap ∧
      token.span.start = String.utf8Len (front ++ gap) := by
  intro token first
  cases cut with
  | @last _ gap isGap whole =>
      cases first
      exact ⟨gap, [], by simpa using whole, isGap, rfl⟩
  | @more _ gap text kind tokens isGap _ _ later =>
      cases first
      obtain ⟨back, whole⟩ := later.isPrefix
      rw [List.append_assoc] at whole
      exact ⟨gap, _, whole, isGap, rfl⟩

theorem gaps (cut : CutBehind source front tokens) :
    tokens.IsChain fun left right => Span.GapBetween source left.span right.span := by
  induction cut with
  | last _ _ => exact .singleton _
  | @more front gap text kind tokens _ _ _ later ih =>
      cases tokens with
      | nil => exact .singleton _
      | cons right tokens =>
          obtain ⟨between, back, whole, isGap, start⟩ := later.head right rfl
          apply List.IsChain.cons_cons _ ih
          refine ⟨front ++ gap ++ text, between, back, whole, isGap, ?_, start⟩
          rw [String.utf8Len_append]
          rfl

end CutBehind

/-! ### Cutting -/

/-- An escape is unknown by the character that stands behind the backslash. -/
theorem head_of_unknown {chars : List Char} {other : Char}
    (unknown : Escape.read chars = .unknown other) : ∃ back, chars = other :: back := by
  cases chars with
  | nil => cases unknown
  | cons char rest =>
      have same : char = other := by
        simp only [Escape.read] at unknown
        repeat' split at unknown
        all_goals cases unknown
        rfl
      exact ⟨rest, by rw [same]⟩

/-- The unknown escapes of a string, each where it says it is and in front of a closing quote. -/
theorem unknown_stringExtent (index skip : Nat) (chars : List Char) :
    ∀ escape ∈ (stringExtent index skip chars).unknown, ∃ front back,
      escape.1 = index + front.length ∧ chars = front ++ '\\' :: escape.2 :: back ∧
        escape.1 + 2 ≤ (stringExtent index skip chars).length ∧
        ((stringExtent index skip chars).closed = true →
          escape.1 + 2 < (stringExtent index skip chars).length) := by
  have behind {index : Nat} {char : Char} {rest : List Char} {extent : Quoted}
      {escape : Nat × Char}
      (found : ∃ front back, escape.1 = index + 1 + front.length ∧
        rest = front ++ '\\' :: escape.2 :: back ∧ escape.1 + 2 ≤ extent.length ∧
        (extent.closed = true → escape.1 + 2 < extent.length)) :
      ∃ front back, escape.1 = index + front.length ∧
        char :: rest = front ++ '\\' :: escape.2 :: back ∧ escape.1 + 2 ≤ extent.length ∧
        (extent.closed = true → escape.1 + 2 < extent.length) := by
    obtain ⟨front, back, place, split, within⟩ := found
    refine ⟨char :: front, back, ?_, congrArg (char :: ·) split, within⟩
    rw [List.length_cons]
    omega
  fun_induction stringExtent index skip chars with
  | case1 | case3 | case4 =>
      intro escape none
      cases none
  | case2 index skip char rest ih =>
      intro escape member
      exact behind (ih escape member)
  | case5 index rest length known notEnd notQuote ih =>
      intro escape member
      exact behind (ih escape member)
  | case6 index rest other unknown tail notEnd notQuote ih =>
      intro escape member
      rcases List.mem_cons.mp member with rfl | member
      · obtain ⟨back, rfl⟩ := head_of_unknown unknown
        exact ⟨[], back, rfl, rfl, le_length_stringExtent (index + 2) 0 back,
          fun (closed : (stringExtent (index + 2) 0 back).closed = true) =>
            lt_length_stringExtent closed⟩
      · exact behind (ih escape member)
  | case7 index char rest notEnd notQuote notEscape ih =>
      intro escape member
      exact behind (ih escape member)

namespace Lexeme

def IsPlain (lexeme : Lexeme) : Prop :=
  lexeme.kind ≠ .endOfFile ∧ lexeme.unknownEscapes = []

theorem isPlain_good {kind : Kind} (notEnd : kind ≠ .endOfFile) (more : Nat) :
    (good kind more).IsPlain :=
  ⟨notEnd, rfl⟩

theorem isPlain_bad (fault : LexicalFault) (more : Nat) : (bad fault more).IsPlain :=
  ⟨Kind.noConfusion, rfl⟩

theorem isPlain_word (first : Char) (rest : List Char) : (word first rest).IsPlain := by
  apply isPlain_good
  unfold Kind.ofWord?
  split
  · decide
  · split
    · decide
    · cases Keyword.ofText? _ <;> exact Kind.noConfusion

theorem isPlain_symbol (first : Char) (rest : List Char) : (symbol first rest).IsPlain := by
  unfold symbol
  split
  · exact isPlain_good Kind.noConfusion _
  · split
    · exact isPlain_good Kind.noConfusion _
    · exact isPlain_bad _ _

theorem isPlain_decimal (chars : List Char) : (decimal chars).IsPlain := by
  have finished (trailing : Nat) (floats : Bool) (fault : LexicalFault) (past more : Nat) :
      (if trailing ≠ 0 then Lexeme.bad fault past
        else .good (if floats = true then Kind.floating else .integer) more).IsPlain := by
    split
    · exact isPlain_bad _ _
    · apply isPlain_good
      cases floats <;> exact Kind.noConfusion
  unfold decimal
  dsimp only
  split
  · exact isPlain_bad _ _
  · exact finished _ _ _ _ _

theorem isPlain_radix (isRadixDigit : Char → Bool) (digits : List Char) :
    (radix isRadixDigit digits).IsPlain := by
  unfold radix
  dsimp only
  split
  · exact isPlain_bad _ _
  · exact isPlain_good Kind.noConfusion _

theorem isPlain_number (first : Char) (rest : List Char) : (number first rest).IsPlain := by
  unfold number
  split
  · split
    · exact isPlain_radix _ _
    · split
      · exact isPlain_radix _ _
      · exact isPlain_decimal _
  · exact isPlain_decimal _

theorem isPlain_read {first : Char} (notString : first ≠ '"') (rest : List Char) :
    (read first rest).IsPlain := by
  unfold read
  split
  · exact isPlain_good Kind.noConfusion _
  · exact isPlain_bad _ _
  · exact absurd rfl notString
  · unfold template
    split
    · exact isPlain_good Kind.noConfusion _
    · exact isPlain_bad _ _
  · split
    · exact isPlain_number _ rest
    · exact isPlain_symbol _ rest
  · split
    · exact isPlain_number first rest
    · split
      · exact isPlain_word first rest
      · exact isPlain_symbol first rest

theorem kind_quoted (rest : List Char) :
    (quoted rest).kind = .string ∨ (quoted rest).kind = .invalid := by
  unfold quoted
  dsimp only
  split
  · exact .inl rfl
  · exact .inr rfl

/-- Only what stands behind the last token is the end of the file. -/
theorem kind_read_ne_endOfFile (first : Char) (rest : List Char) :
    (read first rest).kind ≠ .endOfFile := by
  by_cases isString : first = '"'
  · rw [isString]
    change (quoted rest).kind ≠ _
    rcases kind_quoted rest with good | bad
    · rw [good]
      exact Kind.noConfusion
    · rw [bad]
      exact Kind.noConfusion
  · exact (isPlain_read isString rest).1

theorem quoted_unknownEscapes (rest : List Char) :
    (quoted rest).unknownEscapes =
      (stringExtent 0 0 rest).unknown.map (fun (index, char) => (index + 1, char)) := by
  unfold quoted
  dsimp only
  split <;> rfl

theorem quoted_more (rest : List Char) : (quoted rest).more = (stringExtent 0 0 rest).length := by
  unfold quoted
  dsimp only
  split <;> rfl

theorem closed_of_kind_quoted {rest : List Char} (isString : (quoted rest).kind = .string) :
    (stringExtent 0 0 rest).closed = true := by
  by_contra stillOpen
  rw [quoted] at isString
  simp only [if_neg stillOpen] at isString
  cases isString

/-- Each unknown escape of a lexeme is a piece of it. The lexeme opens with a quote, and ends
with one if it is a string. -/
theorem unknown_read (first : Char) (rest : List Char) :
    ∀ escape ∈ (read first rest).unknownEscapes, ∃ front back, escape.1 = front.length ∧
      first :: rest.take (read first rest).more = front ++ ['\\', escape.2] ++ back ∧
      front ≠ [] ∧ ((read first rest).kind = .invalid ∨
        (read first rest).kind = .string ∧ back ≠ []) := by
  by_cases isString : first = '"'
  · subst isString
    change ∀ escape ∈ (quoted rest).unknownEscapes, ∃ front back, _ ∧
      _ :: rest.take (quoted rest).more = _ ∧ _ ∧ ((quoted rest).kind = _ ∨
        (quoted rest).kind = _ ∧ _)
    rw [quoted_unknownEscapes, quoted_more]
    intro escape member
    obtain ⟨⟨index, char⟩, unknown, rfl⟩ := List.mem_map.mp member
    obtain ⟨front, back, place, split, within, inside⟩ := unknown_stringExtent 0 0 rest _ unknown
    dsimp only at place split within inside ⊢
    rw [Nat.zero_add] at place
    obtain ⟨more, size⟩ := Nat.exists_eq_add_of_le within
    rw [place, Nat.add_assoc, Nat.add_comm 2 more] at size
    refine ⟨'"' :: front, back.take more, ?_, ?_, List.cons_ne_nil _ _, ?_⟩
    · rw [place, List.length_cons]
    · rw [size, split, List.take_length_add_append]
      simp only [List.take_succ_cons, List.cons_append, List.append_assoc, List.nil_append]
    · refine (kind_quoted rest).symm.imp_right fun isString => ⟨isString, ?_⟩
      -- The closing quote stands behind the escape.
      have longer := inside (closed_of_kind_quoted isString)
      have within := length_stringExtent_le 0 0 rest
      have sizes := congrArg List.length split
      simp only [List.length_append, List.length_cons] at sizes
      rw [← List.length_pos_iff, List.length_take]
      omega
  · rw [(isPlain_read isString rest).2]
    intro escape none
    cases none

end Lexeme

namespace TokenStream

/-- The stream stands behind this much of a source, and has met only errors in it. -/
structure IsBehind (stream : TokenStream) (source front : List Char) : Prop where
  place : stream.place = Place.start.past front
  rest : source = front ++ stream.rest
  errors : ∀ problem ∈ stream.errors, ∃ text, problem.span.Covers source text

namespace IsBehind

variable {stream : TokenStream} {source front : List Char}

theorem skipGap (isBehind : stream.IsBehind source front) :
    ∃ gap, IsGap gap ∧ stream.skipGap.IsBehind source (front ++ gap) := by
  obtain ⟨gap, rest, isGap, split, size⟩ := gap_of_gapLength 0 stream.rest (Nat.zero_le _)
  rw [List.drop_zero] at split
  rw [Nat.zero_add] at size
  refine ⟨gap, isGap, ?_, ?_, isBehind.errors⟩
  · change stream.place.past (stream.rest.take (gapLength 0 stream.rest)) = _
    rw [size, split, List.take_left', isBehind.place, Place.past_append]
    rfl
  · change source = _ ++ stream.rest.drop (gapLength 0 stream.rest)
    rw [size, isBehind.rest, split, List.drop_left', List.append_assoc]
    rfl

/-- The errors of a lexeme are about pieces of it. -/
theorem covers_of_lexemeErrors {first : Char} {rest text back : List Char}
    (isText : text = first :: rest.take (Lexeme.read first rest).more)
    (whole : source = front ++ text ++ back) :
    ∀ problem ∈ lexemeErrors (Place.start.past front) (Lexeme.read first rest) text,
      ∃ piece, problem.span.Covers source piece := by
  intro problem member
  rcases List.mem_append.mp member with escape | fault
  · obtain ⟨⟨index, char⟩, unknown, rfl⟩ := List.mem_map.mp escape
    obtain ⟨before, behind, place, split, -⟩ := Lexeme.unknown_read first rest _ unknown
    rw [← isText] at split
    dsimp only at place split ⊢
    refine ⟨['\\', char], front ++ before, behind ++ back, ?_, ?_⟩
    · rw [whole, split]
      simp only [List.append_assoc]
    · rw [place, split, List.append_assoc, List.take_left', ← Place.past_append,
        Place.span_past_start]
      rfl
  · obtain ⟨reason, -, rfl⟩ := List.mem_map.mp fault
    exact ⟨text, front, back, whole, Place.span_past_start front text⟩

theorem lexeme (isBehind : stream.IsBehind source front) {token : Token} {later : TokenStream}
    (step : stream.next? = some (token, later)) :
    ∃ gap first rest text, IsGap gap ∧ stream.skipGap.rest = first :: rest ∧
      text = first :: rest.take (Lexeme.read first rest).more ∧
      source = front ++ gap ++ text ++ rest.drop (Lexeme.read first rest).more ∧
      token = ⟨(Lexeme.read first rest).kind, String.ofList text,
        Span.behind (front ++ gap) text⟩ ∧
      later = ⟨Place.start.past (front ++ gap ++ text), rest.drop (Lexeme.read first rest).more,
        stream.errors ++
          lexemeErrors (Place.start.past (front ++ gap)) (Lexeme.read first rest) text⟩ := by
  obtain ⟨gap, isGap, skipped⟩ := isBehind.skipGap
  obtain ⟨first, rest, text, ahead, rfl, rfl, rfl⟩ := lexeme_of_next? step
  refine ⟨gap, first, rest, _, isGap, ahead, rfl, ?_, ?_, ?_⟩
  · rw [skipped.rest, ahead]
    simp only [List.append_assoc, List.cons_append, List.take_append_drop]
  · rw [skipped.place, Place.span_past_start]
  · rw [Place.past_append, ← skipped.place]

theorem next (isBehind : stream.IsBehind source front) {token : Token} {later : TokenStream}
    (step : stream.next? = some (token, later)) :
    ∃ gap text, IsGap gap ∧ text ≠ [] ∧ later.IsBehind source (front ++ gap ++ text) ∧
      token.kind ≠ .endOfFile ∧ token.lexeme = String.ofList text ∧
      token.span = Span.behind (front ++ gap) text := by
  obtain ⟨gap, first, rest, text, isGap, -, isText, whole, rfl, rfl⟩ := isBehind.lexeme step
  refine ⟨gap, text, isGap, isText ▸ List.cons_ne_nil _ _, ⟨rfl, whole, ?_⟩,
    Lexeme.kind_read_ne_endOfFile first rest, rfl, rfl⟩
  intro problem member
  rcases List.mem_append.mp member with earlier | here
  · exact isBehind.errors problem earlier
  · exact covers_of_lexemeErrors isText whole problem here

theorem last (isBehind : stream.IsBehind source front) (done : stream.next? = none) :
    ∃ gap, IsGap gap ∧ source = front ++ gap ∧
      stream.skipGap.endToken = ⟨.endOfFile, "", Span.behind (front ++ gap) []⟩ := by
  obtain ⟨gap, isGap, skipped⟩ := isBehind.skipGap
  simp only [next?] at done
  split at done
  · rename_i atEnd
    refine ⟨gap, isGap, ?_, ?_⟩
    · rw [skipped.rest, atEnd, List.append_nil]
    · unfold endToken
      rw [skipped.place, Place.span_past_start]
  · cases done

theorem tokens (isBehind : stream.IsBehind source front) :
    CutBehind source front stream.tokens.1 ∧
      ∀ problem ∈ stream.tokens.2, ∃ text, problem.span.Covers source text := by
  fun_induction TokenStream.tokens stream generalizing front with
  | case1 stream token later step tokens errors cut ih =>
      obtain ⟨gap, text, isGap, nonempty, behind, notEnd, lexeme, span⟩ := isBehind.next step
      obtain ⟨laterCut, laterErrors⟩ := ih behind
      rw [cut] at laterCut laterErrors
      obtain ⟨kind, spelled, place⟩ := token
      dsimp only at notEnd lexeme span
      rw [lexeme, span]
      exact ⟨.more isGap notEnd nonempty laterCut, laterErrors⟩
  | case2 stream done =>
      obtain ⟨gap, isGap, whole, token⟩ := isBehind.last done
      rw [token]
      exact ⟨.last isGap whole, isBehind.errors⟩

end IsBehind

/-- A stream starts behind the byte order mark. -/
theorem isBehind_ofSource (source : String) :
    ∃ mark, (mark = [] ∨ mark = [byteOrderMark]) ∧
      (ofSource source).IsBehind source.toList mark := by
  unfold ofSource
  split
  · rename_i empty
    exact ⟨[], .inl rfl, rfl, empty, fun problem none => by cases none⟩
  · rename_i char rest chars
    split
    · rename_i isMark
      refine ⟨[byteOrderMark], .inr rfl, ?_, ?_, fun problem none => by cases none⟩
      · rw [isMark]
        rfl
      · rw [chars, isMark]
        rfl
    · exact ⟨[], .inl rfl, rfl, chars, fun problem none => by cases none⟩

end TokenStream

theorem isTiling_of_tokenize (source : String) : IsTiling source (tokenize source).1 := by
  obtain ⟨mark, isMark, isBehind⟩ := TokenStream.isBehind_ofSource source
  have cut := isBehind.tokens.1
  have bytes : String.utf8Len source.toList = source.utf8ByteSize := by
    rw [← String.utf8ByteSize_ofList, String.ofList_toList]
  refine ⟨cut.covers, cut.ordered, ?_, ?_, cut.gaps⟩
  · rw [← bytes]
    exact cut.ends
  · intro token first
    obtain ⟨gap, back, whole, isGap, start⟩ := cut.head token first
    exact ⟨mark, gap, back, whole, isMark, isGap, start⟩

/-- Every error in the text of a source says where it stands. -/
theorem covers_of_tokenize (source : String) :
    ∀ problem ∈ (tokenize source).2, ∃ text, problem.span.Covers source.toList text := by
  obtain ⟨mark, -, isBehind⟩ := TokenStream.isBehind_ofSource source
  exact isBehind.tokens.2

/-- Cutting a source loses nothing and invents nothing: tokens and gaps tile it, and
every token and every error says where it stands. -/
theorem tokenize_tiles (source : String) :
    IsTiling source (tokenize source).1 ∧
      ∀ problem ∈ (tokenize source).2, ∃ text, problem.span.Covers source.toList text :=
  ⟨isTiling_of_tokenize source, covers_of_tokenize source⟩

end ServiceLang
