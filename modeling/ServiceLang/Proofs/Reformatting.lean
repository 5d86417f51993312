import ServiceLang.Proofs.Faults
import ServiceLang.Proofs.Parting
import ServiceLang.Proofs.Relexing

set_option autoImplicit false

/-! Tokens written anew with a blank behind each are cut into the same tokens again. No token owes
its kind to what it stood in front of. -/

namespace ServiceLang

/-! ### Gaps -/

/-- No gap opens with the lexeme of a token. -/
theorem gapLength_of_sound {first : Char} {rest : List Char} (visible : ¬isBlank first = true)
    (sound : (Lexeme.read first rest).fault = none) : gapLength 0 (first :: rest) = 0 := by
  rw [gapLength, if_neg visible]
  rintro body rfl rfl
  cases sound

namespace TokenStream

variable {stream again : TokenStream}

theorem next?_of_sound {first : Char} {rest : List Char} (ahead : stream.rest = first :: rest)
    (visible : ¬isBlank first = true) (sound : (Lexeme.read first rest).fault = none) :
    let lexeme := Lexeme.read first rest
    let chars := first :: rest.take lexeme.more
    stream.next? = some (⟨lexeme.kind, String.ofList chars, stream.place.span chars⟩,
      ⟨stream.place.past chars, rest.drop lexeme.more,
        stream.errors ++ lexemeErrors stream.place lexeme chars⟩) := by
  have noGap : stream.skipGap = stream := by
    rw [skipGap, ahead, gapLength_of_sound visible sound, ← ahead]
    rfl
  simp only [next?, noGap, ahead]

theorem tokens_of_next? {token : Token} {later : TokenStream}
    (step : stream.next? = some (token, later)) :
    stream.tokens = (token :: later.tokens.1, later.tokens.2) := by
  rw [tokens]
  split
  · rename_i same
    rw [step] at same
    cases same
    rfl
  · rename_i none
    rw [step] at none
    cases none

theorem tokens_of_end (done : stream.next? = none) :
    stream.tokens = ([stream.skipGap.endToken], stream.errors) := by
  rw [tokens]
  split
  · rename_i step
    rw [done] at step
    cases step
  · rfl

theorem tokens_of_blank {char : Char} {rest : List Char} (ahead : stream.rest = char :: rest)
    (blank : isBlank char = true) :
    stream.tokens = (⟨stream.place.next char, rest, stream.errors⟩ : TokenStream).tokens := by
  have gap : gapLength 0 (char :: rest) = gapLength 0 rest + 1 := by
    rw [gapLength.eq_def]
    simp only [if_pos blank]
    exact Nat.add_comm 1 _
  have skipped : stream.skipGap =
      (⟨stream.place.next char, rest, stream.errors⟩ : TokenStream).skipGap := by
    simp only [skipGap, ahead, gap, List.take_succ_cons, List.drop_succ_cons]
    rfl
  have step : stream.next? =
      (⟨stream.place.next char, rest, stream.errors⟩ : TokenStream).next? := by
    rw [next?, next?, skipped]
  cases next : stream.next? with
  | none => rw [tokens_of_end next, tokens_of_end (step ▸ next), skipped]
  | some pair =>
      obtain ⟨token, later⟩ := pair
      exact (tokens_of_next? next).trans (tokens_of_next? (step ▸ next)).symm

end TokenStream

/-! ### Tokens written anew -/

/-- What is written behind a token: a space, or a newline where a comment would go on. -/
def Kind.separator (kind : Kind) : Char :=
  if kind = .comment then '\n' else ' '

theorem Kind.isBlank_separator (kind : Kind) : isBlank kind.separator = true := by
  unfold separator
  split <;> rfl

theorem Kind.opensBlank_separator (kind : Kind) (rest : List Char) :
    OpensBlank (kind.separator :: rest) := by
  intro char first
  cases first
  unfold separator
  split
  · exact .inr rfl
  · exact .inl rfl

def Token.spaced (token : Token) : List Char :=
  token.lexeme.toList ++ [token.kind.separator]

def respaced (tokens : List Token) : String :=
  String.ofList (tokens.flatMap Token.spaced)

namespace TokenStream

variable {stream later again : TokenStream} {token : Token}

theorem fault_lexemeErrors (place other : Place) (lexeme : Lexeme) (chars : List Char) :
    (lexemeErrors place lexeme chars).map LexicalError.fault =
      (lexemeErrors other lexeme chars).map LexicalError.fault := by
  simp only [lexemeErrors, List.map_append, List.map_map]
  rfl

theorem next?_spaced (step : stream.next? = some (token, later)) (valid : token.kind ≠ .invalid)
    {rest : List Char} (ahead : again.rest = token.spaced ++ rest) :
    ∃ other behind met, again.next? = some (other, behind) ∧ other.spelling = token.spelling ∧
      behind.rest = token.kind.separator :: rest ∧
      later.errors.map LexicalError.fault = stream.errors.map LexicalError.fault ++ met ∧
      behind.errors.map LexicalError.fault = again.errors.map LexicalError.fault ++ met := by
  have noGap : gapLength 0 stream.skipGap.rest = 0 := gapLength_drop 0 stream.rest
  obtain ⟨first, text, -, atFront, rfl, rfl, rfl⟩ := lexeme_of_next? step
  have sound : (Lexeme.read first text).fault = none := by
    rcases Lexeme.isJudged_read first text with ⟨-, sound⟩ | ⟨invalid, -⟩
    · exact sound
    · exact absurd invalid valid
  have visible : ¬isBlank first = true := by
    rw [atFront] at noGap
    exact notBlank_of_gapLength noGap
  let lexeme := Lexeme.read first text
  let tail := lexeme.kind.separator :: rest
  have size : (text.take lexeme.more).length = lexeme.more := by
    rw [List.length_take, Nat.min_eq_left (Lexeme.more_read_le sound)]
  have split : text.take lexeme.more ++ text.drop lexeme.more = text := List.take_append_drop _ _
  have same : Lexeme.read first (text.take lexeme.more ++ tail) = lexeme := by
    have ends : Lexeme.EndsAt (Lexeme.read first) (text.take lexeme.more)
        (text.drop lexeme.more) := by
      constructor
      · rw [split]
        exact sound
      · rw [split, size]
    have swapped := Lexeme.read_swap ends (Kind.opensBlank_separator lexeme.kind rest) fun comment => by
      rw [split] at comment
      intro char head
      cases head
      exact if_pos comment
    rw [swapped, split]
  have front : again.rest = first :: (text.take lexeme.more ++ tail) := by
    rw [ahead, Token.spaced, String.toList_ofList, List.append_assoc]
    rfl
  have cut := next?_of_sound front visible (by rw [same]; exact sound)
  simp only [same] at cut
  have takes : (text.take lexeme.more ++ tail).take lexeme.more = text.take lexeme.more :=
    List.take_left' size
  have drops : (text.take lexeme.more ++ tail).drop lexeme.more = tail :=
    List.drop_left' size
  rw [takes, drops] at cut
  refine ⟨_, _, _, cut, rfl, rfl, List.map_append, ?_⟩
  rw [List.map_append, fault_lexemeErrors again.place stream.skipGap.place]

theorem tokens_spaced (valid : ∀ token ∈ stream.tokens.1, token.kind ≠ .invalid)
    (ahead : again.rest = stream.tokens.1.flatMap Token.spaced) :
    again.tokens.1.map Token.spelling = stream.tokens.1.map Token.spelling ∧
      ∃ met, stream.tokens.2.map LexicalError.fault = stream.errors.map LexicalError.fault ++ met ∧
        again.tokens.2.map LexicalError.fault = again.errors.map LexicalError.fault ++ met := by
  fun_induction tokens stream generalizing again with
  | case1 stream token later step tokens errors cut ih =>
      rw [cut] at ih
      rw [List.flatMap_cons] at ahead
      obtain ⟨other, behind, met, next, spelled, rest, errorsLater, errorsBehind⟩ :=
        next?_spaced step (valid token List.mem_cons_self) ahead
      have skip := tokens_of_blank rest (Kind.isBlank_separator token.kind)
      obtain ⟨spelledLater, metLater, one, two⟩ := @ih ⟨behind.place.next token.kind.separator,
        tokens.flatMap Token.spaced, behind.errors⟩
        (fun token inside => valid token (List.mem_cons_of_mem _ inside)) rfl
      rw [tokens_of_next? next, skip]
      refine ⟨?_, met ++ metLater, ?_, ?_⟩
      · rw [List.map_cons, List.map_cons, spelled, spelledLater]
      · rw [one, errorsLater, List.append_assoc]
      · rw [two, errorsBehind, List.append_assoc]
  | case2 stream done =>
      have blank : again.rest = [' '] := ahead
      have nothing : (⟨again.place.next ' ', [], again.errors⟩ : TokenStream).next? = none := rfl
      rw [tokens_of_blank blank rfl, tokens_of_end nothing]
      exact ⟨rfl, [], (List.append_nil _).symm, (List.append_nil _).symm⟩

/-- No token starts with a byte order mark. -/
theorem noMark_of_tokens (valid : ∀ token ∈ stream.tokens.1, token.kind ≠ .invalid) :
    byteOrderMark ∉ (stream.tokens.1.flatMap Token.spaced).head? := by
  intro mark
  cases step : stream.next? with
  | none =>
      rw [tokens_of_end step] at mark
      cases mark
  | some pair =>
      obtain ⟨token, later⟩ := pair
      rw [tokens_of_next? step] at mark valid
      have isValid := valid token List.mem_cons_self
      obtain ⟨first, rest, text, -, rfl, rfl, -⟩ := lexeme_of_next? step
      rw [List.flatMap_cons, Token.spaced, String.toList_ofList] at mark
      obtain rfl := Option.some.inj mark
      rw [Lexeme.read_byteOrderMark] at isValid
      exact isValid rfl

end TokenStream

theorem LexicalError.severity_of_fault {problem other : LexicalError}
    (same : problem.fault = other.fault) : problem.severity = other.severity := by
  rw [severity, same, severity]

/-- Without errors, tokens that are written anew are read again: the same kinds and texts, with
the same warnings. -/
theorem tokenize_respaced (source : String)
    (sound : ∀ problem ∈ (tokenize source).2, problem.severity ≠ .error) :
    (tokenize (respaced (tokenize source).1)).1.map Token.spelling =
        (tokenize source).1.map Token.spelling ∧
      (∀ problem ∈ (tokenize (respaced (tokenize source).1)).2, problem.severity ≠ .error) ∧
      (tokenize (respaced (tokenize source).1)).2.map LexicalError.fault =
        (tokenize source).2.map LexicalError.fault := by
  have valid := valid_of_sound sound
  -- A byte order mark would be skipped, but no token starts with one.
  have again : (TokenStream.ofSource (respaced (tokenize source).1)).rest =
      (tokenize source).1.flatMap Token.spaced := by
    have noMark := TokenStream.noMark_of_tokens valid
    change byteOrderMark ∉ ((tokenize source).1.flatMap Token.spaced).head? at noMark
    rw [TokenStream.ofSource, respaced, String.toList_ofList]
    split
    · rename_i nothing
      exact nothing.symm
    · rename_i char rest more
      rw [more] at noMark
      have other : char ≠ byteOrderMark := fun mark => noMark (congrArg some mark)
      rw [if_neg other]
      exact more.symm
  obtain ⟨spelled, met, first, second⟩ := TokenStream.tokens_spaced valid again
  rw [TokenStream.errors_ofSource, List.map_nil, List.nil_append] at first second
  have faults : (tokenize (respaced (tokenize source).1)).2.map LexicalError.fault =
      (tokenize source).2.map LexicalError.fault := second.trans first.symm
  refine ⟨spelled, fun problem member isError => ?_, faults⟩
  obtain ⟨other, met, same⟩ := List.mem_map.mp (faults ▸ List.mem_map_of_mem member)
  exact sound other met ((LexicalError.severity_of_fault same).trans isError)

/-- A number with an exponent in front of a dot, a comment and an escape that is unknown. -/
theorem tokenize_respaced_mixed :
    respaced (tokenize "1e3.x<-\"\\q\"// c\n0x1fL;").1 = "1e3 . x <- \"\\q\" // c\n0x1fL ;  " ∧
      (tokenize "1e3 . x <- \"\\q\" // c\n0x1fL ;  ").1.map Token.spelling =
        (tokenize "1e3.x<-\"\\q\"// c\n0x1fL;").1.map Token.spelling ∧
      (tokenize "1e3 . x <- \"\\q\" // c\n0x1fL ;  ").2.map LexicalError.fault =
        [.unknownEscape 'q'] := by
  have text : respaced (tokenize "1e3.x<-\"\\q\"// c\n0x1fL;").1 =
      "1e3 . x <- \"\\q\" // c\n0x1fL ;  " := by decide +kernel
  have again := tokenize_respaced "1e3.x<-\"\\q\"// c\n0x1fL;" (by decide +kernel)
  rw [text] at again
  exact ⟨text, again.1, again.2.2.trans (by decide +kernel)⟩

end ServiceLang
