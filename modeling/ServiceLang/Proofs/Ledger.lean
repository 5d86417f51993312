import ServiceLang.Proofs.Tiling

set_option autoImplicit false

/-! A source cut token by token. Every token comes with the errors that are met while it is cut,
and behind the last one nothing but the end of the file is handed out, at the same place and
without further errors. -/

namespace ServiceLang

namespace TokenStream

variable {stream later : TokenStream} {source front : List Char} {token : Token}

def nextTimes (stream : TokenStream) : Nat → List Token × TokenStream
  | 0 => ([], stream)
  | count + 1 =>
      (stream.next.1 :: (stream.next.2.nextTimes count).1, (stream.next.2.nextTimes count).2)

theorem next_of_next? (step : stream.next? = some (token, later)) :
    stream.next = (token, later) := by
  rw [next, step]

theorem next_of_end (done : stream.next? = none) :
    stream.next = (stream.skipGap.endToken, stream.skipGap) := by
  rw [next, done]

theorem nextTimes_of_next? (step : stream.next? = some (token, later)) (count : Nat) :
    stream.nextTimes (count + 1) =
      (token :: (later.nextTimes count).1, (later.nextTimes count).2) := by
  rw [nextTimes, next_of_next? step]

theorem skipGap_skipGap (stream : TokenStream) : stream.skipGap.skipGap = stream.skipGap := by
  have none : gapLength 0 stream.skipGap.rest = 0 := gapLength_drop 0 stream.rest
  rw [skipGap, none]
  rfl

theorem nextTimes_of_end (done : stream.next? = none) (count : Nat) :
    (stream.nextTimes count).1 = List.replicate count stream.skipGap.endToken ∧
      (stream.nextTimes count).2.errors = stream.errors := by
  induction count generalizing stream with
  | zero => exact ⟨rfl, rfl⟩
  | succ count ih =>
      have again : stream.skipGap.next? = none := by
        rw [next?, skipGap_skipGap]
        exact done
      obtain ⟨tokens, errors⟩ := ih again
      rw [skipGap_skipGap] at tokens
      rw [nextTimes, next_of_end done, tokens, errors]
      exact ⟨rfl, rfl⟩

/-- The tokens are those of the whole cut, in order, and then its end of file over and over. -/
theorem tokens_nextTimes (stream : TokenStream) :
    ∃ final, stream.tokens.1.getLast? = some final ∧ final.kind = .endOfFile ∧
      ∀ count, (stream.nextTimes count).1 = stream.tokens.1.take count ++
        List.replicate (count - stream.tokens.1.length) final := by
  fun_induction tokens stream with
  | case1 stream token later step tokens errors cut ih =>
      rw [cut] at ih
      obtain ⟨final, isLast, isEnd, handed⟩ := ih
      refine ⟨final, ?_, isEnd, fun count => ?_⟩
      · rw [List.getLast?_cons, isLast]
        rfl
      · cases count with
        | zero => simp [nextTimes]
        | succ count =>
            rw [nextTimes_of_next? step, handed, List.take_succ_cons, List.length_cons,
              Nat.add_sub_add_right]
            rfl
  | case2 stream done =>
      refine ⟨_, rfl, rfl, fun count => ?_⟩
      rw [(nextTimes_of_end done count).1]
      cases count with
      | zero => rfl
      | succ count =>
          rw [List.take_succ_cons, List.take_nil, List.replicate_succ]
          rfl

/-- The tokens of a source beside the errors met with each of them. What holds of every token that
can be cut, and of the end of the file with no errors, holds of all these pairs; and the errors met
after so many tokens are those of so many pairs. -/
theorem exists_ledger (Holds : Token → List LexicalError → Prop)
    (ofStep : ∀ {stream later : TokenStream} {front : List Char} {token : Token},
      stream.IsBehind source front → stream.next? = some (token, later) →
        ∃ met, later.errors = stream.errors ++ met ∧ Holds token met)
    (ofEnd : ∀ {stream : TokenStream} {front : List Char},
      stream.IsBehind source front → stream.next? = none → Holds stream.skipGap.endToken [])
    (isBehind : stream.IsBehind source front) :
    ∃ pairs : List (Token × List LexicalError), (∀ pair ∈ pairs, Holds pair.1 pair.2) ∧
      stream.tokens.1 = pairs.map Prod.fst ∧
      stream.tokens.2 = stream.errors ++ pairs.flatMap Prod.snd ∧
      ∀ count, (stream.nextTimes count).2.errors =
        stream.errors ++ (pairs.take count).flatMap Prod.snd := by
  fun_induction tokens stream generalizing front with
  | case1 stream token later step tokens errors cut ih =>
      obtain ⟨gap, text, -, -, behind, -⟩ := isBehind.next step
      obtain ⟨met, here, holds⟩ := ofStep isBehind step
      obtain ⟨pairs, others, areTokens, areErrors, upTo⟩ := ih behind
      rw [cut] at areTokens areErrors
      refine ⟨(token, met) :: pairs, List.forall_mem_cons.mpr ⟨holds, others⟩,
        congrArg (token :: ·) areTokens, ?_, fun count => ?_⟩
      · rw [List.flatMap_cons, ← List.append_assoc, ← here]
        exact areErrors
      · cases count with
        | zero => exact (List.append_nil _).symm
        | succ count =>
            rw [nextTimes_of_next? step, List.take_succ_cons, List.flatMap_cons,
              ← List.append_assoc, ← here]
            exact upTo count
  | case2 stream done =>
      refine ⟨[(stream.skipGap.endToken, [])], ?_, rfl, (List.append_nil _).symm, fun count => ?_⟩
      · intro pair member
        rw [List.mem_singleton.mp member]
        exact ofEnd isBehind done
      · rw [(nextTimes_of_end done count).2]
        cases count with
        | zero => exact (List.append_nil _).symm
        | succ count =>
            rw [List.take_succ_cons, List.take_nil, List.flatMap_singleton, List.append_nil]

/-- What holds of every token that can be cut, and of the end of the file, holds of all tokens. -/
theorem forall_tokens (Holds : Token → Prop)
    (ofStep : ∀ {stream later : TokenStream} {front : List Char} {token : Token},
      stream.IsBehind source front → stream.next? = some (token, later) → Holds token)
    (ofEnd : ∀ {stream : TokenStream} {front : List Char},
      stream.IsBehind source front → stream.next? = none → Holds stream.skipGap.endToken)
    (isBehind : stream.IsBehind source front) : ∀ token ∈ stream.tokens.1, Holds token := by
  obtain ⟨pairs, hold, areTokens, -, -⟩ := exists_ledger (fun token _ => Holds token)
    (fun behind step => by
      obtain ⟨_, _, _, _, -, -, -, -, -, rfl⟩ := behind.lexeme step
      exact ⟨_, rfl, ofStep behind step⟩)
    ofEnd isBehind
  intro token inside
  rw [areTokens] at inside
  obtain ⟨pair, member, rfl⟩ := List.mem_map.mp inside
  exact hold pair member

end TokenStream

end ServiceLang
