import ServiceLang.Lexical.Lexeme
import ServiceLang.Lexical.Place
import ServiceLang.Token

set_option autoImplicit false

/-! The tokens of a source text, one after the other, together with the lexical
errors met on the way. Comments to the end of a line are tokens; blanks and
closed block comments are not. -/

namespace ServiceLang

structure TokenStream where
  place : Place
  rest : List Char
  /-- The errors met and not yet taken. -/
  errors : List LexicalError

namespace TokenStream

/-- The stream of a whole source. One byte order mark at its front is skipped. -/
def ofSource (source : String) : TokenStream :=
  match source.toList with
  | [] => ⟨.start, [], []⟩
  | char :: rest =>
      if char = byteOrderMark then ⟨Place.start.next char, rest, []⟩
      else ⟨.start, char :: rest, []⟩

/-- The errors of a lexeme that starts at a place: its unknown escapes in order,
then its own fault. -/
def lexemeErrors (place : Place) (lexeme : Lexeme) (chars : List Char) : List LexicalError :=
  lexeme.unknownEscapes.map (fun (index, char) =>
    ⟨.unknownEscape char, (place.past (chars.take index)).span ['\\', char]⟩) ++
  lexeme.fault.toList.map (fun fault => ⟨fault, place.span chars⟩)

def skipGap (stream : TokenStream) : TokenStream :=
  let gap := gapLength 0 stream.rest
  { stream with
    place := stream.place.past (stream.rest.take gap)
    rest := stream.rest.drop gap }

def next? (stream : TokenStream) : Option (Token × TokenStream) :=
  let stream := stream.skipGap
  match stream.rest with
  | [] => none
  | first :: rest =>
      let lexeme := Lexeme.read first rest
      let chars := first :: rest.take lexeme.more
      some
        (⟨lexeme.kind, String.ofList chars, stream.place.span chars⟩,
         ⟨stream.place.past chars, rest.drop lexeme.more,
          stream.errors ++ lexemeErrors stream.place lexeme chars⟩)

def endToken (stream : TokenStream) : Token :=
  ⟨.endOfFile, "", stream.place.span []⟩

/-- The next token. At the end it is the end of the file, again and again. -/
def next (stream : TokenStream) : Token × TokenStream :=
  match stream.next? with
  | some step => step
  | none => (stream.skipGap.endToken, stream.skipGap)

def hasErrors (stream : TokenStream) : Bool :=
  !stream.errors.isEmpty

def takeErrors (stream : TokenStream) : List LexicalError × TokenStream :=
  (stream.errors, { stream with errors := [] })

theorem length_skipGap_le (stream : TokenStream) :
    stream.skipGap.rest.length ≤ stream.rest.length := by
  simp [skipGap]

/-- All that a step does: behind the gap it cuts off one lexeme, and it meets the errors in it. -/
theorem lexeme_of_next? {stream later : TokenStream} {token : Token}
    (step : stream.next? = some (token, later)) :
    ∃ first rest text, stream.skipGap.rest = first :: rest ∧
      text = first :: rest.take (Lexeme.read first rest).more ∧
      token = ⟨(Lexeme.read first rest).kind, String.ofList text,
        stream.skipGap.place.span text⟩ ∧
      later = ⟨stream.skipGap.place.past text, rest.drop (Lexeme.read first rest).more,
        stream.errors ++ lexemeErrors stream.skipGap.place (Lexeme.read first rest) text⟩ := by
  simp only [next?] at step
  split at step
  · contradiction
  · rename_i first rest ahead
    cases step
    exact ⟨first, rest, _, ahead, rfl, rfl, rfl⟩

theorem length_lt_of_next? {stream later : TokenStream} {token : Token}
    (step : stream.next? = some (token, later)) :
    later.rest.length < stream.rest.length := by
  obtain ⟨first, rest, text, ahead, -, -, rfl⟩ := lexeme_of_next? step
  have skipped := stream.length_skipGap_le
  rw [ahead, List.length_cons] at skipped
  simp only [List.length_drop]
  omega

def tokens (stream : TokenStream) : List Token × List LexicalError :=
  match _step : stream.next? with
  | some (token, later) =>
      let (tokens, errors) := later.tokens
      (token :: tokens, errors)
  | none => ([stream.skipGap.endToken], stream.errors)
termination_by stream.rest.length
decreasing_by exact length_lt_of_next? _step

end TokenStream

def tokenize (source : String) : List Token × List LexicalError :=
  (TokenStream.ofSource source).tokens

end ServiceLang
