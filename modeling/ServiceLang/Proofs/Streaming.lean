import ServiceLang.Proofs.Escapes

set_option autoImplicit false

/-! Asking for tokens one by one. Whatever else is asked in between, the tokens are those of the
whole cut. The errors that are handed over, with those that are still held, are the errors that
stand in the tokens handed out so far. -/

namespace ServiceLang

namespace TokenStream

/-! ### Questions and answers -/

inductive Request where
  | next
  | hasErrors
  | takeErrors
deriving DecidableEq, Repr

inductive Answer where
  | token (token : Token)
  | hasErrors (held : Bool)
  | errors (taken : List LexicalError)
deriving DecidableEq, Repr

def Answer.token? : Answer → Option Token
  | token found => some found
  | _ => none

def Answer.taken : Answer → List LexicalError
  | errors taken => taken
  | _ => []

def answer (stream : TokenStream) : Request → Answer × TokenStream
  | .next => (.token stream.next.1, stream.next.2)
  | .hasErrors => (.hasErrors stream.hasErrors, stream)
  | .takeErrors => (.errors stream.takeErrors.1, stream.takeErrors.2)

/-- The answers to one request after the other, and the stream behind them. -/
def answerAll (stream : TokenStream) : List Request → List Answer × TokenStream
  | [] => ([], stream)
  | request :: rest =>
      ((stream.answer request).1 :: ((stream.answer request).2.answerAll rest).1,
        ((stream.answer request).2.answerAll rest).2)

variable {stream : TokenStream} {source front : List Char}

theorem answerAll_append (stream : TokenStream) (requests others : List Request) :
    stream.answerAll (requests ++ others) =
      ((stream.answerAll requests).1 ++ ((stream.answerAll requests).2.answerAll others).1,
        ((stream.answerAll requests).2.answerAll others).2) := by
  induction requests generalizing stream with
  | nil => rfl
  | cons request requests ih => rw [List.cons_append, answerAll, ih, answerAll, List.cons_append]

/-- A request is answered by the stream behind those before it. -/
theorem getElem?_answerAll {requests : List Request} {index : Nat} {request : Request}
    (asked : requests[index]? = some request) (stream : TokenStream) :
    (stream.answerAll requests).1[index]? =
      some ((stream.answerAll (requests.take index)).2.answer request).1 := by
  induction requests generalizing stream index with
  | nil => cases asked
  | cons first requests ih =>
      cases index with
      | zero =>
          cases asked
          rfl
      | succ index => exact ih asked (stream.answer first).2

/-! ### Errors held and errors taken -/

/-- The stream as if it had met these errors before those that it holds. -/
def withEarlier (stream : TokenStream) (earlier : List LexicalError) : TokenStream :=
  { stream with errors := earlier ++ stream.errors }

theorem next_withEarlier (stream : TokenStream) (earlier : List LexicalError) :
    (stream.withEarlier earlier).next = (stream.next.1, stream.next.2.withEarlier earlier) := by
  have skipped : (stream.withEarlier earlier).skipGap = stream.skipGap.withEarlier earlier := rfl
  simp only [next, next?, skipped]
  cases ahead : stream.skipGap.rest with
  | nil => simp only [withEarlier, ahead, endToken]
  | cons first rest => simp only [withEarlier, ahead, List.append_assoc]

theorem withEarlier_takeErrors (stream : TokenStream) (earlier : List LexicalError) :
    stream.takeErrors.2.withEarlier (earlier ++ stream.takeErrors.1) =
      stream.withEarlier earlier := by
  simp only [takeErrors, withEarlier, List.append_nil]

/-- Only the requests for tokens move a stream. Had nothing been taken from it, it would hold what
has been taken in front of what it holds. -/
theorem nextTimes_withEarlier (stream : TokenStream) (earlier : List LexicalError)
    (requests : List Request) :
    (stream.withEarlier earlier).nextTimes (requests.count .next) =
      ((stream.answerAll requests).1.filterMap Answer.token?,
        (stream.answerAll requests).2.withEarlier
          (earlier ++ (stream.answerAll requests).1.flatMap Answer.taken)) := by
  induction requests generalizing stream earlier with
  | nil => rw [answerAll, List.flatMap_nil, List.append_nil]; rfl
  | cons request requests ih =>
      cases request with
      | next =>
          rw [List.count_cons_self, nextTimes, next_withEarlier, ih]
          rfl
      | hasErrors =>
          rw [List.count_cons_of_ne (by decide), ih]
          rfl
      | takeErrors =>
          rw [List.count_cons_of_ne (by decide), ← withEarlier_takeErrors, ih, List.append_assoc]
          rfl

def settled (requests : List Request) : List Request :=
  requests.rdropWhile (· != .takeErrors)

theorem count_settled_le (requests : List Request) :
    (settled requests).count .next ≤ requests.count .next :=
  (List.rdropWhile_prefix _ _).sublist.count_le _

/-- What has been taken, with what is held, is what is met when nothing is ever taken. -/
theorem taken_append_errors (stream : TokenStream) (requests : List Request) :
    (stream.answerAll requests).1.flatMap Answer.taken ++ (stream.answerAll requests).2.errors =
      (stream.nextTimes (requests.count .next)).2.errors := by
  have same : stream.withEarlier [] = stream := rfl
  have whole := nextTimes_withEarlier stream [] requests
  rw [same, List.nil_append] at whole
  rw [whole]
  rfl

/-- What has been taken is what was met up to the last time that errors were taken. -/
theorem taken_answerAll (clean : stream.errors = []) (requests : List Request) :
    (stream.answerAll requests).1.flatMap Answer.taken =
      (stream.nextTimes ((settled requests).count .next)).2.errors := by
  induction requests using List.reverseRecOn with
  | nil => exact clean.symm
  | append_singleton requests request ih =>
      rw [answerAll_append, List.flatMap_append, settled]
      by_cases takes : request = .takeErrors
      · have noToken : [Request.takeErrors].count .next = 0 := rfl
        rw [takes, List.rdropWhile_concat_neg _ _ _ (by decide), List.count_append, noToken,
          Nat.add_zero, ← taken_append_errors]
        exact congrArg (_ ++ ·) (List.append_nil _)
      · have nothing : ((stream.answerAll requests).2.answerAll [request]).1.flatMap
            Answer.taken = [] := by
          cases request with
          | next | hasErrors => rfl
          | takeErrors => exact absurd rfl takes
        rw [List.rdropWhile_concat_pos _ _ _ (by simpa using takes), nothing, List.append_nil]
        exact ih

end TokenStream

/-! ### Errors in tokens -/

structure LexicalError.StandsIn (problem : LexicalError) (token : Token) : Prop where
  starts : token.span.start ≤ problem.span.start
  nonempty : problem.span.start < problem.span.stop
  stops : problem.span.stop ≤ token.span.stop

namespace LexicalError.StandsIn

variable {problem : LexicalError} {token other : Token}

theorem contains (stands : problem.StandsIn token) :
    token.span.contains problem.span = true := by
  rw [Span.contains, Bool.and_eq_true, decide_eq_true_eq, decide_eq_true_eq]
  exact ⟨stands.starts, stands.stops⟩

/-- It stands in no token in front of this one or behind it. -/
theorem not_contains (stands : problem.StandsIn token)
    (apart : token.span.stop ≤ other.span.start ∨ other.span.stop ≤ token.span.start) :
    ¬ other.span.contains problem.span = true := by
  obtain ⟨starts, nonempty, stops⟩ := stands
  rw [Span.contains, Bool.and_eq_true, decide_eq_true_eq, decide_eq_true_eq]
  omega

end LexicalError.StandsIn

/-- Those of the errors that stand in one of the tokens. -/
def errorsIn (tokens : List Token) (errors : List LexicalError) : List LexicalError :=
  errors.filter fun problem => tokens.any fun token => token.span.contains problem.span

theorem errorsIn_append (tokens : List Token) (left right : List LexicalError) :
    errorsIn tokens (left ++ right) = errorsIn tokens left ++ errorsIn tokens right :=
  List.filter_append ..

theorem errorsIn_self {pairs : List (Token × List LexicalError)}
    (stand : ∀ pair ∈ pairs, ∀ problem ∈ pair.2, problem.StandsIn pair.1) :
    errorsIn (pairs.map Prod.fst) (pairs.flatMap Prod.snd) = pairs.flatMap Prod.snd := by
  refine List.filter_eq_self.mpr fun problem met => ?_
  obtain ⟨pair, member, inPair⟩ := List.mem_flatMap.mp met
  exact List.any_eq_true.mpr
    ⟨pair.1, List.mem_map_of_mem member, (stand pair member problem inPair).contains⟩

/-- The errors that were met with other tokens stand in none of these. -/
theorem errorsIn_of_apart {pairs part : List (Token × List LexicalError)}
    (stand : ∀ pair ∈ pairs, ∀ problem ∈ pair.2, problem.StandsIn pair.1)
    (apart : ∀ pair ∈ pairs, ∀ own ∈ part,
      pair.1.span.stop ≤ own.1.span.start ∨ own.1.span.stop ≤ pair.1.span.start) :
    errorsIn (part.map Prod.fst) (pairs.flatMap Prod.snd) = [] := by
  refine List.filter_eq_nil_iff.mpr fun problem met found => ?_
  obtain ⟨pair, member, inPair⟩ := List.mem_flatMap.mp met
  obtain ⟨token, inside, contains⟩ := List.any_eq_true.mp found
  obtain ⟨own, ownMember, rfl⟩ := List.mem_map.mp inside
  exact (stand pair member problem inPair).not_contains (apart pair member own ownMember) contains

/-- Of all errors, those in a part of the tokens are those that were met with this part. -/
theorem errorsIn_part {before part after : List (Token × List LexicalError)}
    (stand : ∀ pair ∈ before ++ part ++ after, ∀ problem ∈ pair.2, problem.StandsIn pair.1)
    (ordered : ((before ++ part ++ after).map Prod.fst).Pairwise
      fun left right => left.span.stop ≤ right.span.start) :
    errorsIn (part.map Prod.fst) ((before ++ part ++ after).flatMap Prod.snd) =
      part.flatMap Prod.snd := by
  rw [List.pairwise_map, List.pairwise_append, List.pairwise_append] at ordered
  obtain ⟨⟨-, -, behind⟩, -, inFront⟩ := ordered
  have inBefore : errorsIn (part.map Prod.fst) (before.flatMap Prod.snd) = [] :=
    errorsIn_of_apart (fun pair member => stand pair (by simp [member]))
      fun pair member own ownMember => .inl (behind pair member own ownMember)
  have inAfter : errorsIn (part.map Prod.fst) (after.flatMap Prod.snd) = [] :=
    errorsIn_of_apart (fun pair member => stand pair (by simp [member]))
      fun pair member own ownMember =>
        .inr (inFront own (List.mem_append_right _ ownMember) pair member)
  have inside : errorsIn (part.map Prod.fst) (part.flatMap Prod.snd) = part.flatMap Prod.snd :=
    errorsIn_self fun pair member => stand pair (by simp [member])
  rw [List.flatMap_append, List.flatMap_append, errorsIn_append, errorsIn_append, inBefore, inside,
    inAfter, List.nil_append, List.append_nil]

namespace TokenStream

variable {stream : TokenStream} {source front : List Char}

/-- All that a step meets stands in its token. -/
theorem standsIn_of_next? (isBehind : stream.IsBehind source front) {token : Token}
    {later : TokenStream} (step : stream.next? = some (token, later)) :
    ∃ met, later.errors = stream.errors ++ met ∧ ∀ problem ∈ met, problem.StandsIn token := by
  obtain ⟨gap, first, rest, text, -, -, isText, whole, rfl, rfl⟩ := isBehind.lexeme step
  refine ⟨_, rfl, fun problem member => ?_⟩
  rcases List.mem_append.mp member with escape | fault
  · obtain ⟨unknown, -, rfl⟩ := List.mem_map.mp escape
    rcases warnsIn_of_lexemeErrors isText whole "" _ member with isError | warns
    · cases isError
    · obtain ⟨starts, some, stops⟩ := warns.within
      exact ⟨starts.le, some, stops⟩
  · -- A fault is about the whole token.
    obtain ⟨reason, -, rfl⟩ := List.mem_map.mp fault
    rw [Place.span_past_start]
    refine ⟨le_rfl, ?_, le_rfl⟩
    exact Nat.lt_add_of_pos_right (utf8Len_pos (isText ▸ List.cons_ne_nil _ _))

/-- The tokens of a source beside the errors that stand in each. -/
theorem exists_ledger_ofSource (source : String) :
    ∃ pairs : List (Token × List LexicalError),
      (∀ pair ∈ pairs, ∀ problem ∈ pair.2, problem.StandsIn pair.1) ∧
      (tokenize source).1 = pairs.map Prod.fst ∧ (tokenize source).2 = pairs.flatMap Prod.snd ∧
      ∀ count, ((ofSource source).nextTimes count).2.errors =
        (pairs.take count).flatMap Prod.snd := by
  obtain ⟨mark, -, isBehind⟩ := isBehind_ofSource source
  have ledger := exists_ledger (fun token met => ∀ problem ∈ met, problem.StandsIn token)
    (fun behind step => standsIn_of_next? behind step) (fun _ _ => nofun) isBehind
  rw [errors_ofSource] at ledger
  exact ledger

/-- The errors met with so many tokens of a source are its first ones, and in the end all. -/
theorem errors_nextTimes_prefix (source : String) (count : Nat) :
    ((ofSource source).nextTimes count).2.errors <+: (tokenize source).2 ∧
      ((tokenize source).1.length ≤ count →
        ((ofSource source).nextTimes count).2.errors = (tokenize source).2) := by
  obtain ⟨pairs, -, areTokens, areErrors, upTo⟩ := exists_ledger_ofSource source
  rw [upTo, areErrors, areTokens, List.length_map]
  refine ⟨?_, fun enough => ?_⟩
  · conv_rhs => rw [← List.take_append_drop count pairs, List.flatMap_append]
    exact List.prefix_append _ _
  · rw [List.take_of_length_le enough]

/-- The errors met with so many tokens are those met with fewer, and then those that stand in the
others. -/
theorem errors_nextTimes (source : String) {first count : Nat} (before : first ≤ count) :
    ((ofSource source).nextTimes count).2.errors =
      ((ofSource source).nextTimes first).2.errors ++
        errorsIn (((tokenize source).1.take count).drop first) (tokenize source).2 := by
  obtain ⟨mark, -, isBehind⟩ := isBehind_ofSource source
  have ordered := isBehind.tokens.1.ordered.imp And.right
  obtain ⟨pairs, stand, areTokens, areErrors, upTo⟩ := exists_ledger_ofSource source
  have split : pairs.take first ++ (pairs.take count).drop first = pairs.take count := by
    rw [List.drop_take, ← List.take_add, Nat.add_sub_cancel' before]
  have all : pairs.take first ++ (pairs.take count).drop first ++ pairs.drop count = pairs := by
    rw [split, List.take_append_drop]
  rw [← tokenize, areTokens, ← all] at ordered
  rw [← all] at stand
  have part := errorsIn_part stand ordered
  rw [all, ← areErrors, List.map_drop, List.map_take, ← areTokens] at part
  rw [part, upTo, upTo, ← List.flatMap_append, split]

/-- The errors that stand in the tokens handed out since errors were last taken. -/
def recorded (source : String) (requests : List Request) : List LexicalError :=
  errorsIn (((tokenize source).1.take (requests.count .next)).drop
    ((settled requests).count .next)) (tokenize source).2

/-- These are the errors that are held. -/
theorem errors_answerAll (source : String) (requests : List Request) :
    ((ofSource source).answerAll requests).2.errors = recorded source requests := by
  have met := taken_append_errors (ofSource source) requests
  rw [taken_answerAll (errors_ofSource source),
    errors_nextTimes source (count_settled_le requests)] at met
  exact List.append_cancel_left met

/-- A source gives the same whether it is cut at once or token by token. Whatever is asked in
whatever order, the tokens are those of the whole cut and then its end of file over and over. What
is taken, one time after the other, and what is held in the end are the errors that stand in the
tokens handed out, which are the first ones of the whole cut, and all of them once the end has been
handed out. There are errors exactly if some stand in the tokens handed out since errors were last
taken. -/
theorem answers_ofSource (source : String) (requests : List Request) :
    let batch := tokenize source
    let handed := requests.count .next
    let answers := ((ofSource source).answerAll requests).1
    let met := answers.flatMap Answer.taken ++ ((ofSource source).answerAll requests).2.errors
    (∃ final, batch.1.getLast? = some final ∧ final.kind = .endOfFile ∧
      answers.filterMap Answer.token? =
        batch.1.take handed ++ List.replicate (handed - batch.1.length) final) ∧
    (met = errorsIn (batch.1.take handed) batch.2 ∧ met <+: batch.2 ∧
      (batch.1.length ≤ handed → met = batch.2)) ∧
    ∀ index, requests[index]? = some Request.hasErrors →
      answers[index]? =
        some (Answer.hasErrors (!(recorded source (requests.take index)).isEmpty)) := by
  dsimp only
  have whole := nextTimes_withEarlier (ofSource source) [] requests
  have unchanged : (ofSource source).withEarlier [] = ofSource source := rfl
  have none : ((ofSource source).nextTimes 0).2.errors = [] := errors_ofSource source
  obtain ⟨final, isLast, isEnd, handed⟩ := tokens_nextTimes (ofSource source)
  refine ⟨⟨final, isLast, isEnd, ?_⟩, ?_, fun index asked => ?_⟩
  · rw [unchanged] at whole
    rw [tokenize, ← handed, whole]
  · rw [taken_append_errors]
    refine ⟨?_, errors_nextTimes_prefix source _⟩
    rw [errors_nextTimes source (Nat.zero_le _), none, List.nil_append, List.drop_zero]
  · rw [getElem?_answerAll asked, answer, hasErrors, errors_answerAll]

/-- An unknown escape is held until the errors are taken. -/
theorem answers_ofSource_unknownEscape :
    let requests : List Request := [.next, .hasErrors, .takeErrors, .hasErrors, .next, .next]
    let answers := ((ofSource "\"\\q\"").answerAll requests).1
    requests[1]? = some Request.hasErrors ∧ answers[1]? = some (Answer.hasErrors true) ∧
      requests[3]? = some Request.hasErrors ∧ answers[3]? = some (Answer.hasErrors false) := by
  obtain ⟨-, -, flags⟩ := answers_ofSource "\"\\q\""
    [.next, .hasErrors, .takeErrors, .hasErrors, .next, .next]
  refine ⟨rfl, (flags 1 rfl).trans ?_, rfl, (flags 3 rfl).trans ?_⟩ <;> decide +kernel

end TokenStream

end ServiceLang
