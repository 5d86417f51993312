import Mathlib.Data.List.Nodup
import ServiceLang.Proofs.Tiling

set_option autoImplicit false

/-! What is wrong with a lexeme. It has a fault, one that is an error, exactly if it is no
token, so that the errors of a source start where its invalid tokens do. -/

namespace ServiceLang

/-! ### Where lexical errors stand -/

/-- The spans of those lexical errors that are more than warnings. -/
def errorSpans (errors : List LexicalError) : List Span :=
  (errors.filter fun problem => problem.severity == .error).map fun problem => problem.span

theorem errorSpans_append (errors more : List LexicalError) :
    errorSpans (errors ++ more) = errorSpans errors ++ errorSpans more := by
  rw [errorSpans, List.filter_append, List.map_append]
  rfl

def invalidSpans (tokens : List Token) : List Span :=
  (tokens.filter fun token => token.kind == .invalid).map fun token => token.span

theorem invalidSpans_cons (token : Token) (tokens : List Token) :
    invalidSpans (token :: tokens) = invalidSpans [token] ++ invalidSpans tokens := by
  rw [← List.singleton_append, invalidSpans, List.filter_append, List.map_append]
  rfl

def errorStarts (errors : List LexicalError) : List Nat :=
  (errors.filter fun problem => problem.severity == .error).map fun problem => problem.span.start

theorem errorStarts_eq (errors : List LexicalError) :
    errorStarts errors = (errorSpans errors).map Span.start :=
  List.map_map.symm

theorem errorStarts_append (errors more : List LexicalError) :
    errorStarts (errors ++ more) = errorStarts errors ++ errorStarts more := by
  rw [errorStarts, List.filter_append, List.map_append]
  rfl

def invalidStarts (tokens : List Token) : List Nat :=
  (tokens.filter fun token => token.kind == .invalid).map fun token => token.span.start

theorem invalidStarts_eq (tokens : List Token) :
    invalidStarts tokens = (invalidSpans tokens).map Span.start :=
  List.map_map.symm

namespace Lexeme

/-- A lexeme has a fault, one that is an error, exactly if it is no token. -/
def IsJudged (lexeme : Lexeme) : Prop :=
  (lexeme.kind ≠ .invalid ∧ lexeme.fault = none) ∨
    (lexeme.kind = .invalid ∧
      ∃ fault, lexeme.fault = some fault ∧ ∀ span, LexicalError.severity ⟨fault, span⟩ = .error)

theorem IsJudged.sound {lexeme : Lexeme} (judged : lexeme.IsJudged)
    (valid : lexeme.kind ≠ .invalid) : lexeme.fault = none := by
  rcases judged with ⟨-, sound⟩ | ⟨invalid, -⟩
  · exact sound
  · exact absurd invalid valid

theorem isJudged_good {kind : Kind} (valid : kind ≠ .invalid) (more : Nat) :
    (good kind more).IsJudged :=
  .inl ⟨valid, rfl⟩

theorem isJudged_bad {fault : LexicalFault} (more : Nat)
    (isError : ∀ span, LexicalError.severity ⟨fault, span⟩ = .error) :
    (bad fault more).IsJudged :=
  .inr ⟨rfl, fault, rfl, isError⟩

theorem isJudged_word (first : Char) (rest : List Char) : (word first rest).IsJudged := by
  apply isJudged_good
  unfold Kind.ofWord?
  split
  · exact Kind.noConfusion
  · split
    · exact Kind.noConfusion
    · cases Keyword.ofText? _ <;> exact Kind.noConfusion

theorem isJudged_symbol (first : Char) (rest : List Char) : (symbol first rest).IsJudged := by
  unfold symbol
  split
  · exact isJudged_good Kind.noConfusion _
  · split
    · exact isJudged_good Kind.noConfusion _
    · exact isJudged_bad _ fun _ => rfl

theorem isJudged_decimal (chars : List Char) : (decimal chars).IsJudged := by
  have finished (trailing : Nat) (floats : Bool) (detail : String) (past more : Nat) :
      (if trailing ≠ 0 then Lexeme.bad (.malformedNumber detail) past
        else .good (if floats = true then Kind.floating else .integer) more).IsJudged := by
    split
    · exact isJudged_bad _ fun _ => rfl
    · apply isJudged_good
      cases floats <;> exact Kind.noConfusion
  unfold decimal
  dsimp only
  split
  · exact isJudged_bad _ fun _ => rfl
  · exact finished _ _ _ _ _

theorem isJudged_radix (isRadixDigit : Char → Bool) (digits : List Char) :
    (radix isRadixDigit digits).IsJudged := by
  unfold radix
  dsimp only
  split
  · exact isJudged_bad _ fun _ => rfl
  · exact isJudged_good Kind.noConfusion _

theorem isJudged_number (first : Char) (rest : List Char) : (number first rest).IsJudged := by
  unfold number
  split
  · split
    · exact isJudged_radix _ _
    · split
      · exact isJudged_radix _ _
      · exact isJudged_decimal _
  · exact isJudged_decimal _

theorem isJudged_quoted (rest : List Char) : (quoted rest).IsJudged := by
  unfold quoted
  dsimp only
  split
  · exact .inl ⟨Kind.noConfusion, rfl⟩
  · exact .inr ⟨rfl, .openString, rfl, fun _ => rfl⟩

theorem isJudged_template (rest : List Char) : (template rest).IsJudged := by
  unfold template
  split
  · exact isJudged_good Kind.noConfusion _
  · exact isJudged_bad _ fun _ => rfl

theorem isJudged_read (first : Char) (rest : List Char) : (read first rest).IsJudged := by
  unfold read
  split
  · exact isJudged_good Kind.noConfusion _
  · exact isJudged_bad _ fun _ => rfl
  · exact isJudged_quoted rest
  · exact isJudged_template rest
  · split
    · exact isJudged_number _ rest
    · exact isJudged_symbol _ rest
  · split
    · exact isJudged_number first rest
    · split
      · exact isJudged_word first rest
      · exact isJudged_symbol first rest

end Lexeme

namespace TokenStream

/-- A lexeme has one error, all of it, if it is no token, and only warnings otherwise. -/
theorem errorSpans_lexemeErrors (place : Place) (chars : List Char) {lexeme : Lexeme}
    (judged : lexeme.IsJudged) (text : String) :
    errorSpans (lexemeErrors place lexeme chars) =
      invalidSpans [⟨lexeme.kind, text, place.span chars⟩] := by
  have warnings {warn : Nat × Char → LexicalError}
      (mild : ∀ escape, (warn escape).severity = .warning) (escapes : List (Nat × Char)) :
      errorSpans (escapes.map warn) = [] := by
    induction escapes with
    | nil => rfl
    | cons escape escapes ih =>
        rw [List.map_cons, errorSpans, List.filter_cons_of_neg (by simp [mild])]
        exact ih
  rw [lexemeErrors, errorSpans_append, warnings fun _ => rfl, List.nil_append]
  rcases judged with ⟨valid, sound⟩ | ⟨invalid, fault, found, isError⟩
  · rw [sound, invalidSpans, List.filter_singleton, beq_false_of_ne valid]
    rfl
  · rw [found, invalid]
    simp [errorSpans, invalidSpans, isError]

theorem errorSpans_tokens (stream : TokenStream) :
    errorSpans stream.tokens.2 = errorSpans stream.errors ++ invalidSpans stream.tokens.1 := by
  fun_induction tokens stream with
  | case1 stream token later step tokens errors cut ih =>
      rw [cut] at ih
      obtain ⟨first, rest, text, -, -, rfl, rfl⟩ := lexeme_of_next? step
      rw [ih, invalidSpans_cons, ← List.append_assoc, errorSpans_append,
        errorSpans_lexemeErrors _ _ (Lexeme.isJudged_read _ _)]
  | case2 stream done =>
      exact (List.append_nil _).symm

theorem errors_ofSource (source : String) : (ofSource source).errors = [] := by
  unfold ofSource
  split
  · rfl
  · split <;> rfl

end TokenStream

theorem errorSpans_tokenize (source : String) :
    errorSpans (tokenize source).2 = invalidSpans (tokenize source).1 := by
  rw [tokenize, TokenStream.errorSpans_tokens, TokenStream.errors_ofSource]
  rfl

/-- Without errors every token is valid. -/
theorem valid_of_sound {source : String}
    (sound : ∀ problem ∈ (tokenize source).2, problem.severity ≠ .error) :
    ∀ token ∈ (tokenize source).1, token.kind ≠ .invalid := by
  intro token inside invalid
  have span : token.span ∈ invalidSpans (tokenize source).1 :=
    List.mem_map_of_mem (List.mem_filter.mpr ⟨inside, beq_iff_eq.mpr invalid⟩)
  rw [← errorSpans_tokenize] at span
  obtain ⟨problem, member, -⟩ := List.mem_map.mp span
  obtain ⟨met, isError⟩ := List.mem_filter.mp member
  exact sound problem met (beq_iff_eq.mp isError)

theorem errorStarts_tokenize (source : String) :
    errorStarts (tokenize source).2 = invalidStarts (tokenize source).1 := by
  rw [errorStarts_eq, invalidStarts_eq, errorSpans_tokenize]

/-- No two tokens of a source start at the same offset. -/
theorem nodup_starts_tokenize (source : String) :
    ((tokenize source).1.map fun token => token.span.start).Nodup := by
  obtain ⟨mark, -, isBehind⟩ := TokenStream.isBehind_ofSource source
  rw [List.Nodup, List.pairwise_map]
  exact isBehind.tokens.1.ordered.imp fun ⟨before, _⟩ => Nat.ne_of_lt before

end ServiceLang
