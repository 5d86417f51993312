import Mathlib.Data.List.Sort
import ServiceLang.Proofs.Nesting
import ServiceLang.Proofs.Spending

set_option autoImplicit false

/-! Comments among the tokens of a source. Each stands before the next token that is none, and
behind the one before that. -/

namespace ServiceLang

/-- The comments of a token list, each with the next token that is no comment. -/
def remarked : List Token → List (Token × Token)
  | [] => []
  | token :: rest =>
      match rest.find? (fun next => next.kind != .comment) with
      | some next =>
          if token.kind = .comment then (token, next) :: remarked rest else remarked rest
      | none => remarked rest

/-- What the comments say that stand right before a token that starts at one of these offsets. -/
def remarksBefore (tokens : List Token) (starts : List Nat) : List Remark :=
  ((remarked tokens).filter fun remarked => decide (remarked.2.span.start ∈ starts)).map
    fun remarked => remarked.1.remark

/-- In a list that does not end with a comment each comment stands before another token. -/
theorem map_fst_remarked (earlier : List Token) {last : Token} (notComment : last.kind ≠ .comment) :
    (remarked (earlier ++ [last])).map Prod.fst =
      (earlier ++ [last]).filter fun token => token.kind == .comment := by
  induction earlier with
  | nil => simp [remarked, notComment]
  | cons token earlier ih =>
      have found : ((earlier ++ [last]).find? fun next => next.kind != .comment).isSome := by
        rw [List.find?_isSome]
        exact ⟨last, List.mem_append_right _ (List.mem_singleton_self last), by simpa⟩
      obtain ⟨next, isNext⟩ := Option.isSome_iff_exists.mp found
      rw [List.cons_append, remarked, isNext, List.filter_cons, ← ih]
      by_cases isComment : token.kind = .comment
      · simp [isComment]
      · simp [isComment]

namespace Slot

def remarked (slot : Slot) : List (Token × Token) :=
  slot.comments.map fun comment => (comment, slot.token)

def row (slot : Slot) : List Token :=
  slot.comments ++ [slot.token]

variable {earlier : List Token} {last : Token}

/-- What a token list is cut into are tokens of it, in its order. -/
theorem rows_ofTokens_sublist (pending : List Token)
    (notEnd : ∀ token ∈ earlier, token.kind ≠ .endOfFile) (isEnd : last.kind = .endOfFile) :
    ((ofTokens pending (earlier ++ [last])).1.flatMap row ++
      (ofTokens pending (earlier ++ [last])).2.row).Sublist (pending ++ (earlier ++ [last])) := by
  induction earlier generalizing pending with
  | nil =>
      rw [List.nil_append, ofTokens.eq_def]
      simp only [isEnd]
      exact .refl _
  | cons token earlier ih =>
      have here := notEnd token List.mem_cons_self
      have rest (pending : List Token) :=
        ih pending fun other member => notEnd other (List.mem_cons_of_mem _ member)
      rw [List.cons_append, ofTokens.eq_def]
      dsimp only
      split
      · contradiction
      · have kept := rest (pending ++ [token])
        rwa [List.append_assoc] at kept
      · exact (rest pending).trans ((List.Sublist.refl _).append (List.sublist_cons_self _ _))
      · have kept := rest []
        rw [List.flatMap_cons, row, List.append_assoc, List.append_assoc]
        exact (List.Sublist.refl _).append (kept.cons_cons token)

theorem flatMap_row_sublist (notEnd : ∀ token ∈ earlier, token.kind ≠ .endOfFile)
    (isEnd : last.kind = .endOfFile) :
    ((buffer (earlier ++ [last])).flatMap row).Sublist (earlier ++ [last]) := by
  rw [buffer, List.flatMap_append, List.flatMap_singleton]
  exact rows_ofTokens_sublist [] notEnd isEnd

theorem remarked_ofTokens (pending : List Token)
    (notEnd : ∀ token ∈ earlier, token.kind ≠ .endOfFile) (isEnd : last.kind = .endOfFile)
    (valid : ∀ token ∈ earlier, token.kind ≠ .invalid) :
    ∃ next, (earlier ++ [last]).find? (fun next => next.kind != .comment) = some next ∧
      (ofTokens pending (earlier ++ [last])).1.flatMap remarked ++
          (ofTokens pending (earlier ++ [last])).2.remarked =
        pending.map (fun comment => (comment, next)) ++
          ServiceLang.remarked (earlier ++ [last]) := by
  induction earlier generalizing pending with
  | nil =>
      refine ⟨last, by simp [isEnd], ?_⟩
      rw [List.nil_append, ofTokens.eq_def]
      simp [isEnd, remarked, ServiceLang.remarked]
  | cons token earlier ih =>
      have here := notEnd token List.mem_cons_self
      have isValid := valid token List.mem_cons_self
      have rest (pending : List Token) :=
        ih pending (fun other member => notEnd other (List.mem_cons_of_mem _ member))
          fun other member => valid other (List.mem_cons_of_mem _ member)
      rw [List.cons_append, ofTokens.eq_def]
      dsimp only
      split
      · contradiction
      · rename_i isComment
        obtain ⟨next, isNext, whole⟩ := rest (pending ++ [token])
        refine ⟨next, by rw [List.find?_cons_of_neg (by simp [isComment]), isNext], ?_⟩
        rw [whole, ServiceLang.remarked, isNext]
        simp [isComment]
      · contradiction
      · rename_i notComment _
        obtain ⟨next, isNext, whole⟩ := rest []
        refine ⟨token, List.find?_cons_of_pos (by simpa using notComment), ?_⟩
        rw [ServiceLang.remarked, isNext]
        simp only [if_neg notComment]
        rw [List.flatMap_cons, List.append_assoc, whole]
        rfl

/-- Where no token is invalid, the comments of the slots are those of the token list. -/
theorem flatMap_remarked (notEnd : ∀ token ∈ earlier, token.kind ≠ .endOfFile)
    (isEnd : last.kind = .endOfFile) (valid : ∀ token ∈ earlier, token.kind ≠ .invalid) :
    (buffer (earlier ++ [last])).flatMap remarked = ServiceLang.remarked (earlier ++ [last]) := by
  obtain ⟨next, -, same⟩ := remarked_ofTokens [] notEnd isEnd valid
  rw [buffer, List.flatMap_append, List.flatMap_singleton, same, List.map_nil, List.nil_append]

end Slot

/-! ### Comments of a layout -/

namespace Layout

variable (layout : Layout)

def commentsAt (index : Nat) : List Token :=
  (layout.buffer[index]?.map Slot.comments).getD []

def remarksAt (index : Nat) : List Remark :=
  (layout.commentsAt index).map Token.remark

def IsLined : Prop :=
  (layout.buffer.flatMap Slot.row).Pairwise fun left right => left.span.stop ≤ right.span.start

variable {layout} (lined : layout.IsLined) {index : Nat} {comment : Token}
  (member : comment ∈ layout.commentsAt index)

theorem exists_of_mem_commentsAt (member : comment ∈ layout.commentsAt index) :
    ∃ inside : index < layout.buffer.length, comment ∈ layout.buffer[index].comments := by
  rw [commentsAt] at member
  by_cases inside : index < layout.buffer.length
  · rw [List.getElem?_eq_getElem inside] at member
    exact ⟨inside, member⟩
  · rw [List.getElem?_eq_none (by omega)] at member
    cases member

include lined

theorem ordered_commentsAt (index : Nat) :
    (layout.commentsAt index).Pairwise fun left right => left.span.stop ≤ right.span.start := by
  by_cases inside : index < layout.buffer.length
  · have row := (List.pairwise_flatMap.mp lined).1 _ (List.getElem_mem inside)
    rw [commentsAt, List.getElem?_eq_getElem inside]
    exact (List.pairwise_append.mp row).1
  · rw [commentsAt, List.getElem?_eq_none (by omega)]
    exact List.Pairwise.nil

include member

/-- A comment stops before the token behind it. -/
theorem stop_le_startAt : comment.span.stop ≤ layout.startAt index := by
  obtain ⟨inside, member⟩ := exists_of_mem_commentsAt member
  have row := (List.pairwise_flatMap.mp lined).1 _ (List.getElem_mem inside)
  rw [startAt, List.getElem?_eq_getElem inside]
  exact (List.pairwise_append.mp row).2.2 comment member _ (List.mem_singleton_self _)

/-- A comment starts behind every earlier token. -/
theorem stopAt_le_start {earlier : Nat} (less : earlier < index) :
    layout.stopAt earlier ≤ comment.span.start := by
  obtain ⟨inside, member⟩ := exists_of_mem_commentsAt member
  have rows := List.pairwise_iff_getElem.mp (List.pairwise_flatMap.mp lined).2 earlier index
    (by omega) inside less
  rw [stopAt, List.getElem?_eq_getElem (by omega)]
  exact rows _ (List.mem_append_right _ (List.mem_singleton_self _)) comment
    (List.mem_append_left _ member)

end Layout

theorem Layout.startAt_injective (layout : Layout) {left right : Nat}
    (insideLeft : left < layout.buffer.length) (insideRight : right < layout.buffer.length)
    (same : layout.startAt left = layout.startAt right) : left = right := by
  have strict {first second : Nat} (less : first < second)
      (inside : second < layout.buffer.length) : layout.startAt first < layout.startAt second :=
    Nat.lt_of_lt_of_le (layout.startAt_lt_stopAt first (by omega))
      (layout.stopAt_le_startAt first second less inside)
  rcases Nat.lt_trichotomy left right with less | same | less
  · exact absurd same (Nat.ne_of_lt (strict less insideRight))
  · exact same
  · exact absurd same.symm (Nat.ne_of_lt (strict less insideLeft))

/-- A list that is run through by its indices. -/
theorem flatMap_eq_range {α β : Type} (list : List α) (parts : α → List β) :
    list.flatMap parts =
      (List.range list.length).flatMap fun index => (list[index]?.map parts).getD [] := by
  induction list with
  | nil => rfl
  | cons head rest ih =>
      rw [List.length_cons, List.range_succ_eq_map, List.flatMap_cons, List.flatMap_cons,
        List.flatMap_map, ih]
      rfl

/-- Running only through some members is giving nothing for the others. -/
theorem flatMap_filter_eq {α β : Type} (list : List α) (keeps : α → Bool) (parts : α → List β) :
    (list.filter keeps).flatMap parts =
      list.flatMap fun member => if keeps member then parts member else [] := by
  induction list with
  | nil => rfl
  | cons head rest ih =>
      rw [List.flatMap_cons, List.filter_cons, ← ih]
      split <;> rfl

/-- The comments before some tokens, told by where these start. -/
theorem Layout.flatMap_remarksAt (layout : Layout) {places starts : List Nat}
    (sorted : places.Pairwise (· < ·)) (inside : ∀ place ∈ places, place < layout.buffer.length)
    (same : ∀ start, start ∈ starts ↔ ∃ place ∈ places, layout.startAt place = start) :
    places.flatMap layout.remarksAt =
      ((layout.buffer.flatMap Slot.remarked).filter fun remarked =>
        decide (remarked.2.span.start ∈ starts)).map fun remarked => remarked.1.remark := by
  have chosen : (List.range layout.buffer.length).filter (fun index => decide (index ∈ places)) =
      places := by
    refine List.Pairwise.eq_of_mem_iff (List.pairwise_lt_range.filter _) sorted fun index => ?_
    simpa using fun member => inside index member
  have each (index : Nat) (bounded : index < layout.buffer.length) :
      ((layout.buffer[index]?.map fun slot => (slot.remarked.filter fun remarked =>
        decide (remarked.2.span.start ∈ starts)).map fun remarked => remarked.1.remark).getD []) =
      if index ∈ places then layout.remarksAt index else [] := by
    have start : layout.startAt index = layout.buffer[index].token.span.start := by
      rw [startAt, List.getElem?_eq_getElem bounded]
      rfl
    have isChosen : layout.buffer[index].token.span.start ∈ starts ↔ index ∈ places := by
      rw [← start, same]
      constructor
      · rintro ⟨place, member, isStart⟩
        rwa [← layout.startAt_injective (inside place member) bounded isStart]
      · exact fun member => ⟨index, member, rfl⟩
    rw [remarksAt, commentsAt, List.getElem?_eq_getElem bounded]
    simp only [Option.map_some, Option.getD_some, Slot.remarked, List.filter_map, List.map_map]
    split
    · rename_i member
      rw [List.filter_eq_self.mpr]
      · rfl
      · intro comment _
        simpa using isChosen.mpr member
    · rename_i other
      rw [List.filter_eq_nil_iff.mpr]
      · rfl
      · intro comment _
        simpa using fun member => other (isChosen.mp member)
  rw [List.filter_flatMap, List.map_flatMap, flatMap_eq_range layout.buffer]
  conv => lhs; rw [← chosen]
  rw [flatMap_filter_eq]
  refine List.flatMap_congr fun index member => ?_
  rw [each index (List.mem_range.mp member)]
  simp only [decide_eq_true_eq]

end ServiceLang
