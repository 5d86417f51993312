import ServiceLang.Proofs.BridgedDefinition

set_option autoImplicit false

/-! A semicolon that is left out. Where the next token shows that a statement has ended, its
semicolon is assumed: one diagnostic says so, and but for places and comments the tree is the
one that is read with the semicolon. -/

namespace ServiceLang

/-- The tokens before which a statement has to have ended. -/
def Kind.followsStatement (kind : Kind) : Prop :=
  kind.startsStatement = true ∨ kind = .keyword .workerKw ∨ kind = .symbol .rightBrace

namespace Kind

variable {kind : Kind} (follows : kind.followsStatement)

include follows

theorem isInert_of_followsStatement : kind.isInert = true := by
  rcases follows with starts | rfl | rfl
  · rw [isInert, starts, Bool.true_or, Bool.true_or]
  · rfl
  · rfl

theorem mayFollowStatement_of_followsStatement : Step.mayFollowStatement kind = true := by
  rcases follows with starts | rfl | rfl
  · rw [Step.mayFollowStatement, starts, Bool.true_or, Bool.true_or]
  · rfl
  · rfl

theorem ne_end_of_followsStatement : kind ≠ .endOfFile := by
  rintro rfl
  rcases follows with starts | same | same <;> contradiction

end Kind

/-- Comments in front of tokens do not matter where comments do not. -/
theorem View.slots_ofTokens {view : View} (silent : view.sieve.comments = false)
    (spans : ∀ span, view.Spans span span) (pending others tokens : List Token) :
    List.Forall₂ view.Slots (Slot.ofTokens pending tokens).1 (Slot.ofTokens others tokens).1 := by
  have heard : List.Forall₂ (Gap.unchanging view {}).Heard tokens tokens :=
    List.forall₂_same.mpr fun token _ => ⟨rfl, fun _ => Matchable.agree_self view spans token⟩
  have comments : view.Comments pending others := by
    intro kept
    rw [silent] at kept
    cases kept
  exact (Matching.slots_ofTokens comments heard (.inr (Matchable.agree_self view spans _))).1

/-! ### The gap that a semicolon leaves -/

/-- A semicolon is left out before some tokens; `pending` are the comments in front of it. -/
def Omission.ofSemicolon (semicolon : Token) (pending after : List Token) : Omission where
  sign := .semicolon
  missing := [⟨semicolon, pending⟩]
  behind := (Slot.ofTokens [] after).1
  other := (Slot.ofTokens pending after).1
  final := (Slot.ofTokens pending after).2
  sieve := .silent

theorem Slot.ofTokens_semicolon {semicolon : Token} (pending after : List Token)
    (isSemicolon : semicolon.kind = .symbol .semicolon) :
    ofTokens pending (semicolon :: after) =
      (⟨semicolon, pending⟩ :: (ofTokens [] after).1, (ofTokens [] after).2) := by
  rw [ofTokens]
  simp only [isSemicolon]

section Semicolon

variable {semicolon next : Token} (pending : List Token) {after : List Token}
  (isSemicolon : semicolon.kind = .symbol .semicolon)
  (isNext : after.find? Token.isRead = some next) (follows : next.kind.followsStatement)

include isNext in
theorem Omission.next_ofSemicolon : (ofSemicolon semicolon pending after).next = next := by
  refine (Slot.token_first_ofTokens pending after).trans ?_
  rw [isNext, Option.getD_some]

include isNext follows in
theorem Omission.isSemicolon_ofSemicolon :
    (ofSemicolon semicolon pending after).IsSemicolon := by
  refine ⟨rfl, rfl, ?_, View.slots_ofTokens rfl (fun _ => trivial) _ _ _⟩
  rw [next_ofSemicolon pending isNext]
  exact Kind.mayFollowStatement_of_followsStatement follows

include isSemicolon in
theorem Omission.joined_ofSemicolon {reach : Prop} {before : List Token} {slots : List Slot}
    (cut : ∀ after, Slot.ofTokens [] (before ++ after) =
      (slots ++ (Slot.ofTokens pending after).1, (Slot.ofTokens pending after).2))
    (edge : (ofSemicolon semicolon pending after).seam.IsSoft reach ∨
      (ofSemicolon semicolon pending after).seam.IsApart) (options : Options) :
    (Parser.ofTokens (before ++ semicolon :: after) [] options).Joined reach
      (ofSemicolon semicolon pending after).seam slots (.ofTokens (before ++ after) [] options) := by
  have joined := @Parser.joined_of_cut before slots pending cut reach (semicolon :: after) after
  rw [Slot.ofTokens_semicolon pending after isSemicolon] at joined
  exact joined (.inl edge) options

def Gap.ofSemicolon {options : Options} (room : options.maxErrors ≠ some 0) : Gap where
  toOmission := .ofSemicolon semicolon pending after
  options := options
  someMissing := List.cons_ne_nil _ _
  signs slot member := by
    rw [List.mem_singleton.mp member]
    exact isSemicolon
  inert := by
    obtain ⟨slot, others, cut, rfl⟩ :=
      Slot.cons_ofTokens pending isNext (Kind.ne_end_of_followsStatement follows)
    exact ⟨slot, others, cut, Kind.isInert_of_followsStatement follows⟩
  room := room
  silent := rfl
  sort := .inl (Omission.isSemicolon_ofSemicolon pending isNext follows)

theorem Gap.before_ofSemicolon {options : Options} (room : options.maxErrors ≠ some 0)
    {before : List Token} {slots : List Slot}
    (cut : ∀ after, Slot.ofTokens [] (before ++ after) =
      (slots ++ (Slot.ofTokens pending after).1, (Slot.ofTokens pending after).2)) :
    (ofSemicolon pending isSemicolon isNext follows room).Before slots
      (.ofTokens (before ++ semicolon :: after) [] options) (.ofTokens (before ++ after) [] options) := by
  constructor
  · exact Omission.joined_ofSemicolon pending isSemicolon cut
      (.inl (ofSemicolon pending isSemicolon isNext follows room).soft) options
  · rfl
  · intro _
    change (Slot.ofTokens [] (before ++ semicolon :: after)).2 = (Slot.ofTokens pending after).2
    rw [cut, Slot.ofTokens_semicolon pending after isSemicolon]
    refine ((Slot.ofTokens_pending [] pending after).2.2 ?_).symm
    obtain ⟨slot, others, isCons, -⟩ :=
      Slot.cons_ofTokens [] isNext (Kind.ne_end_of_followsStatement follows)
    rw [isCons]
    exact List.cons_ne_nil _ _

end Semicolon

/-- A semicolon may be missing before a token that shows that a statement has ended. If nothing
is wrong with some tokens otherwise, then without such a semicolon exactly one diagnostic is
given, which says that it has been assumed before that token; and the tree stays the same, but
for its places and the comments among its statements. -/
theorem parseTokens_without_semicolon (before after : List Token) (semicolon next : Token)
    (options : Options) (noEnd : ∀ token ∈ before, token.kind ≠ .endOfFile)
    (isSemicolon : semicolon.kind = .symbol .semicolon)
    (isNext : after.find? Token.isRead = some next) (follows : next.kind.followsStatement)
    (room : options.maxErrors ≠ some 0)
    (clean : (parseTokens (before ++ semicolon :: after) options).2.entries = []) :
    (parseTokens (before ++ after) options).2.entries =
        [(Diagnostic.expectedToken next.span "';'" next.kind.description).withRecovery
          (.inserted "';'")] ∧
      (parseTokens (before ++ after) options).1.unplaced.sifted .silent =
        (parseTokens (before ++ semicolon :: after) options).1.unplaced.sifted .silent := by
  obtain ⟨slots, pending, cut, -⟩ := Slot.ofTokens_front [] before noEnd
  obtain ⟨unit, later, ran⟩ := Grammar.sourceUnit_succeeds options.maxDepth
    (.ofTokens (before ++ semicolon :: after) [] options)
  have cleanLater := clean_of_parseTokens ran clean
  have isGap : (Omission.ofSemicolon semicolon pending after).IsSemicolon :=
    Omission.isSemicolon_ofSemicolon pending isNext follows
  have start := Gap.before_ofSemicolon pending isSemicolon isNext follows room cut
  have more : slots ≠ [] := by
    rintro rfl
    exact Grammar.not_clean_of_sourceUnit options.maxDepth start.peek_left ran cleanLater
  obtain ⟨other, last, ranOther, agree, across⟩ :=
    (Grammar.sourceUnit_bridges options.maxDepth isGap).meets (.before start fun _ => more) ran cleanLater
  have parsers := across.parsers_of_end isGap (Grammar.isEnd_of_sourceUnit options.maxDepth ran)
  rw [parseTokens_of_ok ran, parseTokens_of_ok ranOther]
  refine ⟨(parsers.records cleanLater).entries.trans (congrArg (fun entry => [entry]) ?_), agree.same.symm⟩
  refine Gap.note_eq.trans ?_
  rw [show (Gap.ofSemicolon pending isSemicolon isNext follows room).next = next from
    Omission.next_ofSemicolon pending isNext]
  rfl

/-- `function f() { break` -/
def openBreak : List Token :=
  [⟨.keyword .functionKw, "function", ⟨0, 8, 1, 1⟩⟩, ⟨.identifier, "f", ⟨9, 10, 1, 10⟩⟩,
    ⟨.symbol .leftParen, "(", ⟨10, 11, 1, 11⟩⟩, ⟨.symbol .rightParen, ")", ⟨11, 12, 1, 12⟩⟩,
    ⟨.symbol .leftBrace, "\x7b", ⟨13, 14, 1, 14⟩⟩, ⟨.keyword .breakKw, "break", ⟨15, 20, 1, 16⟩⟩]

def breakSemicolon : Token :=
  ⟨.symbol .semicolon, ";", ⟨20, 21, 1, 21⟩⟩

def returnWord : Token :=
  ⟨.keyword .returnKw, "return", ⟨27, 33, 2, 1⟩⟩

/-- `// n`, and `return; }` behind it -/
def commentedReturn : List Token :=
  [⟨.comment, "// n", ⟨22, 26, 1, 23⟩⟩, returnWord, ⟨.symbol .semicolon, ";", ⟨33, 34, 2, 7⟩⟩,
    ⟨.symbol .rightBrace, "\x7d", ⟨35, 36, 2, 9⟩⟩, ⟨.endOfFile, "", ⟨36, 36, 2, 10⟩⟩]

theorem parseTokens_without_semicolon_openBreak :
    (parseTokens (openBreak ++ breakSemicolon :: commentedReturn) {}).2.entries = [] ∧
      (parseTokens (openBreak ++ commentedReturn) {}).2.entries =
        [(Diagnostic.expectedToken returnWord.span "';'"
          returnWord.kind.description).withRecovery (.inserted "';'")] ∧
      (parseTokens (openBreak ++ commentedReturn) {}).1.unplaced.sifted .silent =
        (parseTokens (openBreak ++ breakSemicolon :: commentedReturn) {}).1.unplaced.sifted
          .silent := by
  have clean : (parseTokens (openBreak ++ breakSemicolon :: commentedReturn) {}).2.entries = [] := by
    decide +kernel
  exact ⟨clean, parseTokens_without_semicolon openBreak commentedReturn breakSemicolon returnWord {}
    (by decide) rfl rfl (.inl rfl) (by decide) clean⟩

end ServiceLang
