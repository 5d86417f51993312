import ServiceLang.Proofs.Faults
import ServiceLang.Proofs.Ledger

set_option autoImplicit false

/-! What lexical errors are about. An error is about an invalid token, all of it, and each invalid
token has one. A warning is about an escape in a string. -/

namespace ServiceLang

/-- This warns of an unknown escape, a backslash and one character, behind the first character of
a token. Behind the escape a string has its closing quote; only a string that is not closed, which
is no token, may end with it. -/
structure LexicalError.WarnsIn (problem : LexicalError) (source : List Char) (token : Token) :
    Prop where
  isWarning : problem.severity = .warning
  isEscape : ∃ char, problem.fault = .unknownEscape char ∧
    problem.span.Covers source ['\\', char]
  starts : token.span.start < problem.span.start
  stops : token.kind = .invalid ∧ problem.span.stop ≤ token.span.stop ∨
    token.kind = .string ∧ problem.span.stop < token.span.stop

/-- A warning of a token is within it. -/
theorem LexicalError.WarnsIn.within {problem : LexicalError} {source : List Char} {token : Token}
    (warns : problem.WarnsIn source token) :
    token.span.start < problem.span.start ∧ problem.span.start < problem.span.stop ∧
      problem.span.stop ≤ token.span.stop := by
  obtain ⟨char, -, front, back, -, isSpan⟩ := warns.isEscape
  have bytes := utf8Len_pos (List.cons_ne_nil '\\' [char])
  refine ⟨warns.starts, ?_, ?_⟩
  · rw [isSpan]
    exact Nat.lt_add_of_pos_right bytes
  · rcases warns.stops with ⟨-, stops⟩ | ⟨-, stops⟩
    · exact stops
    · exact Nat.le_of_lt stops

namespace TokenStream

variable {stream : TokenStream} {source front : List Char}

/-- The errors of a lexeme are its own fault and warnings of escapes in it. -/
theorem warnsIn_of_lexemeErrors {first : Char} {rest text back : List Char}
    (isText : text = first :: rest.take (Lexeme.read first rest).more)
    (whole : source = front ++ text ++ back) (lexeme : String) :
    ∀ problem ∈ lexemeErrors (Place.start.past front) (Lexeme.read first rest) text,
      problem.severity = .error ∨
        problem.WarnsIn source ⟨(Lexeme.read first rest).kind, lexeme, Span.behind front text⟩ := by
  intro problem member
  rcases List.mem_append.mp member with escape | fault
  · obtain ⟨⟨index, char⟩, unknown, rfl⟩ := List.mem_map.mp escape
    obtain ⟨before, behind, place, split, opens, closes⟩ := Lexeme.unknown_read first rest _ unknown
    rw [← isText] at split
    dsimp only at place split
    have span : ((Place.start.past front).past (text.take index)).span ['\\', char] =
        Span.behind (front ++ before) ['\\', char] := by
      rw [place, split, List.append_assoc, List.take_left', ← Place.past_append,
        Place.span_past_start]
      rfl
    have bytes : String.utf8Len text = String.utf8Len before + String.utf8Len ['\\', char] +
        String.utf8Len behind := by
      rw [split, String.utf8Len_append, String.utf8Len_append]
    have bytesBefore := utf8Len_pos opens
    dsimp only
    rw [span]
    refine .inr ⟨rfl, ⟨char, rfl, front ++ before, behind ++ back, ?_, rfl⟩, ?_, ?_⟩
    · rw [whole, split]
      simp only [List.append_assoc]
    · change String.utf8Len front < String.utf8Len (front ++ before)
      rw [String.utf8Len_append]
      omega
    · change _ ∧ String.utf8Len (front ++ before) + _ ≤ String.utf8Len front + _ ∨
        _ ∧ String.utf8Len (front ++ before) + _ < String.utf8Len front + _
      rw [String.utf8Len_append, bytes]
      refine closes.imp (fun invalid => ⟨invalid, by omega⟩) fun ⟨isString, more⟩ => ⟨isString, ?_⟩
      have bytesBehind := utf8Len_pos more
      omega
  · obtain ⟨reason, found, rfl⟩ := List.mem_map.mp fault
    rcases Lexeme.isJudged_read first rest with ⟨-, sound⟩ | ⟨-, fault, isFault, isError⟩
    · rw [sound] at found
      cases found
    · rw [isFault, Option.toList_some, List.mem_singleton] at found
      rw [found]
      exact .inl (isError _)

/-- A step meets errors of its token only. -/
theorem warnsIn_of_next? (isBehind : stream.IsBehind source front) {token : Token}
    {later : TokenStream} (step : stream.next? = some (token, later)) :
    ∃ met, later.errors = stream.errors ++ met ∧
      ∀ problem ∈ met, problem.severity = .error ∨ problem.WarnsIn source token := by
  obtain ⟨gap, first, rest, text, -, -, isText, whole, rfl, rfl⟩ := isBehind.lexeme step
  exact ⟨_, rfl, warnsIn_of_lexemeErrors isText whole _⟩

theorem warnsIn_of_tokens (isBehind : stream.IsBehind source front) :
    ∀ problem ∈ stream.tokens.2, problem ∈ stream.errors ∨ problem.severity = .error ∨
      ∃ token ∈ stream.tokens.1, problem.WarnsIn source token := by
  obtain ⟨pairs, warn, areTokens, areErrors, -⟩ := exists_ledger
    (fun token met => ∀ problem ∈ met, problem.severity = .error ∨ problem.WarnsIn source token)
    (fun behind step => warnsIn_of_next? behind step) (fun _ _ => nofun) isBehind
  intro problem member
  rw [areErrors] at member
  refine (List.mem_append.mp member).imp_right fun met => ?_
  obtain ⟨pair, inside, metHere⟩ := List.mem_flatMap.mp met
  refine (warn pair inside problem metHere).imp_right fun warns => ⟨pair.1, ?_, warns⟩
  exact areTokens ▸ List.mem_map_of_mem inside

end TokenStream

/-- The errors of a source stand where its invalid tokens do, in order and one for each. All else
that is met are warnings, each of an unknown escape in a string, be it closed or not. -/
theorem errors_of_tokenize (source : String) :
    errorSpans (tokenize source).2 = invalidSpans (tokenize source).1 ∧
      ∀ problem ∈ (tokenize source).2, problem.severity = .error ∨
        ∃ token ∈ (tokenize source).1, problem.WarnsIn source.toList token := by
  refine ⟨errorSpans_tokenize source, fun problem member => ?_⟩
  obtain ⟨mark, -, isBehind⟩ := TokenStream.isBehind_ofSource source
  rcases TokenStream.warnsIn_of_tokens isBehind problem member with early | other
  · rw [TokenStream.errors_ofSource] at early
    cases early
  · exact other

/-- One escape in a string, one at the end of a string that is not closed. -/
theorem errors_of_two_strings :
    errorSpans (tokenize "\"a\\qb\" \"\\w").2 = [⟨7, 10, 1, 8⟩] ∧
      ∃ problem ∈ (tokenize "\"a\\qb\" \"\\w").2, problem.span = ⟨2, 4, 1, 3⟩ ∧
        ∃ token ∈ (tokenize "\"a\\qb\" \"\\w").1,
          problem.WarnsIn "\"a\\qb\" \"\\w".toList token := by
  obtain ⟨paired, warned⟩ := errors_of_tokenize "\"a\\qb\" \"\\w"
  refine ⟨paired.trans (by decide +kernel), ⟨.unknownEscape 'q', ⟨2, 4, 1, 3⟩⟩, ?_, rfl, ?_⟩
  · decide +kernel
  · exact (warned ⟨.unknownEscape 'q', ⟨2, 4, 1, 3⟩⟩ (by decide +kernel)).resolve_left (by decide)

/-- A string that is not closed may end with the escape, so that the escape reaches to the end of
the invalid token. -/
theorem escape_ends_token : ¬ ∀ problem ∈ (tokenize "\"\\q").2, problem.severity = .error ∨
    ∃ token ∈ (tokenize "\"\\q").1, (token.kind = .string ∨ token.kind = .invalid) ∧
      token.span.start < problem.span.start ∧ problem.span.stop < token.span.stop := by
  decide +kernel

end ServiceLang
