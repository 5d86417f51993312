import ServiceLang.Proofs.Opening
import ServiceLang.Proofs.StableDefinition

set_option autoImplicit false

/-! A source that is read without a diagnostic is read the same with another one behind it.
The definitions of the other one follow its own, and so do the diagnostics. -/

namespace ServiceLang

def EndsDefinition (slots : List Slot) : Prop :=
  ∀ slot, [slot] <:+ slots → slot.token.kind.endsDefinition

namespace EndsDefinition

variable {front behind : List Slot}

theorem nil : EndsDefinition [] := by
  intro slot isLast
  exact absurd (List.suffix_nil.mp isLast) (List.cons_ne_nil _ _)

theorem append (ends : EndsDefinition front) (endsBehind : EndsDefinition behind) :
    EndsDefinition (front ++ behind) := by
  intro slot isLast
  rw [List.singleton_suffix_iff_getLast?_eq_some, List.getLast?_append] at isLast
  cases last : behind.getLast? with
  | none =>
      rw [last] at isLast
      exact ends slot (List.singleton_suffix_iff_getLast?_eq_some.mpr isLast)
  | some other =>
      rw [last] at isLast
      cases isLast
      exact endsBehind slot (List.singleton_suffix_iff_getLast?_eq_some.mpr last)

theorem of_passed {reach : Prop} {signs : List Symbol} (passed : Step.Passed reach (some signs) front)
    (subset : signs ⊆ [.semicolon, .rightBrace]) : EndsDefinition front := by
  obtain ⟨slot, isLast, sign, member, isSign⟩ := passed.closed signs rfl
  intro other isOther
  rw [List.singleton_suffix_iff_getLast?_eq_some] at isLast isOther
  cases isLast.symm.trans isOther
  rw [isSign]
  rcases List.mem_cons.mp (subset member) with rfl | last
  · exact .inl rfl
  · rw [List.mem_singleton.mp last]
    exact .inr rfl

end EndsDefinition

def Seam.first (seam : Seam) : Token :=
  (seam.other.head?.getD seam.final).token

/-- Where nothing stands behind on the one side, both sides tell words alike that the other
side does not start with. -/
theorem Parser.Joined.mem_iff {reach : Prop} {seam : Seam} {shared : List Slot} {left right : Parser}
    (joined : left.Joined reach seam shared right) (nothing : seam.rest = []) {words : List Kind}
    (plain : seam.first.kind ∉ words) (notEnd : Kind.endOfFile ∉ words) :
    right.cursor.peek.kind ∈ words ↔ left.cursor.peek.kind ∈ words := by
  by_cases empty : shared = []
  · subst empty
    have atEnd : left.cursor.peek.kind = .endOfFile := by
      rw [Cursor.peek_isEnd_iff, joined.ahead, nothing]
      rfl
    have first : right.cursor.peek = seam.first := by
      rw [Cursor.peek, joined.other, joined.final]
      rfl
    rw [atEnd, first]
    exact iff_of_false plain notEnd
  · rw [joined.peek empty]

namespace Step

variable {α σ : Type}

/-- What has been read between two places: tokens up to the end of a definition, and
nothing was reported. With other tokens behind, a parser `again` comes to the same place. -/
structure Complete (parser later : Parser) (again : Parser → Parser → Prop) : Prop where
  clean : parser.Clean
  passed : ∃ front, parser.cursor.ahead = front ++ later.cursor.ahead ∧ EndsDefinition front
  again : ∀ (seam : Seam) (shared left : List Slot) (right : Parser),
    parser.Joined False seam shared right → later.cursor.ahead = left ++ seam.rest →
    ∃ last, later.Joined False seam left last ∧ again right last

theorem Carried.complete {step : Step α} {parser later : Parser} {value : α}
    (carried : Carried False False Grammar.definitionEnds step parser value later) :
    Complete parser later fun right last => step right = .ok value last := by
  obtain ⟨front, split, passed⟩ := carried.passed
  refine ⟨carried.clean, ⟨front, split, .of_passed passed (List.Subset.refl _)⟩, ?_⟩
  intro seam shared left right joined leaves
  obtain ⟨last, ran, joinedLast⟩ :=
    carried.again seam shared left right joined nofun leaves fun _ => .inl rfl
  exact ⟨last, joinedLast, ran⟩

section Turns

structure Repeats (turn : σ → Step (ForInStep σ)) (part : σ → Step σ) (goesOn : Kind → Prop) :
    Prop where
  yields : ∀ {state parser}, goesOn parser.cursor.peek.kind →
    turn state parser = (do return .yield (← part state) : Step (ForInStep σ)) parser
  stops : ∀ {state parser}, ¬goesOn parser.cursor.peek.kind →
    turn state parser = .ok (.done state) parser

variable {turn : σ → Step (ForInStep σ)} {part : σ → Step σ} {goesOn : Kind → Prop}
  (repeats : Repeats turn part goesOn) {state next final : σ} {parser between later : Parser}

include repeats

theorem Repeats.of_ok (here : goesOn parser.cursor.peek.kind)
    (ran : loop turn state parser = .ok final later) :
    ∃ next between, part state parser = .ok next between ∧
      (between.cursor.remaining < parser.cursor.remaining ∧
          loop turn next between = .ok final later ∨
        ¬between.cursor.remaining < parser.cursor.remaining ∧ final = next ∧ later = between) := by
  rcases loop_ok ran with ranTurn | ⟨next, between, ranTurn, rest⟩
  · rw [repeats.yields here] at ranTurn
    obtain ⟨value, _, -, same⟩ := bind_ok ranTurn
    cases same
  · rw [repeats.yields here] at ranTurn
    obtain ⟨value, _, ranPart, same⟩ := bind_ok ranTurn
    cases same
    exact ⟨next, between, ranPart, rest⟩

theorem Repeats.loop_of_ok (here : goesOn parser.cursor.peek.kind)
    (ran : part state parser = .ok next between)
    (shorter : between.cursor.remaining < parser.cursor.remaining) :
    loop turn state parser = loop turn next between := by
  apply loop_of_yield _ shorter
  rw [repeats.yields here, bind_of_ok ran, pure_eq]

/-- Such a loop, whose parts are whole, goes on with other tokens behind where it has ended
without them. -/
theorem Repeats.complete (stable : ∀ state, Stable False Grammar.definitionEnds (part state))
    (ran : loop turn state parser = .ok final later) (clean : later.Clean) :
    ¬goesOn later.cursor.peek.kind ∧
      Complete parser later fun right last => loop turn state right = loop turn final last := by
  induction less : parser.cursor.remaining using Nat.strongRecOn generalizing parser state with
  | ind _ ih =>
    subst less
    by_cases here : goesOn parser.cursor.peek.kind
    · obtain ⟨next, between, ranPart, rest⟩ := repeats.of_ok here ran
      have cleanBetween : between.Clean := by
        rcases rest with ⟨shorter, rest⟩ | ⟨-, -, rfl⟩
        · exact (ih _ shorter rest rfl).2.clean
        · exact clean
      have carried := stable state ranPart cleanBetween
      obtain ⟨front, split, passed⟩ := carried.passed
      have some : 0 < front.length := List.length_pos_iff.mpr (passed.ne_nil rfl)
      have lengths : parser.cursor.remaining = front.length + between.cursor.remaining := by
        rw [Cursor.remaining, split, List.length_append]
        rfl
      obtain ⟨-, rest⟩ := rest.resolve_right fun still => still.1 (by omega)
      obtain ⟨ended, behind⟩ := ih _ (by omega) rest rfl
      obtain ⟨back, splitBehind, ends⟩ := behind.passed
      refine ⟨ended, carried.clean, ⟨front ++ back, ?_, ?_⟩, ?_⟩
      · rw [split, splitBehind, List.append_assoc]
      · exact (EndsDefinition.of_passed passed (List.Subset.refl _)).append ends
      · intro seam shared left right joined leaves
        have leavesBetween : between.cursor.ahead = (back ++ left) ++ seam.rest := by
          rw [splitBehind, leaves, List.append_assoc]
        have whole : shared = front ++ (back ++ left) :=
          Carried.shared_eq joined split leavesBetween
        obtain ⟨rightBetween, joinedBetween, ranRight⟩ :=
          carried.complete.again seam shared (back ++ left) right joined leavesBetween
        obtain ⟨last, joinedLast, onwards⟩ :=
          behind.again seam (back ++ left) left rightBetween joinedBetween leaves
        have more : shared ≠ [] := by
          rw [whole]
          exact List.append_ne_nil_of_left_ne_nil (passed.ne_nil rfl) _
        refine ⟨last, joinedLast, (repeats.loop_of_ok ?_ ranRight ?_).trans onwards⟩
        · rwa [joined.peek more]
        · rw [joined.otherRemaining, joinedBetween.otherRemaining, whole]
          simp only [List.length_append]
          omega
    · rw [loop_of_done (repeats.stops here)] at ran
      cases ran
      refine ⟨here, clean, ⟨[], rfl, .nil⟩, fun seam shared left right joined leaves => ?_⟩
      obtain rfl : shared = left := List.append_cancel_right (joined.ahead.symm.trans leaves)
      exact ⟨right, joined, rfl⟩

end Turns

end Step

namespace Grammar

open Step

theorem directives_repeat : Repeats nextDirective
    (fun found => orSkip (do return found ++ [← directive]) (fun _ => found))
    (fun kind => kind ∈ [.keyword .importKw, .keyword .xmlnsKw]) := by
  constructor
  · intro state parser here
    rw [nextDirective, look_bind (current_eq parser), if_pos here]
  · intro state parser other
    rw [nextDirective, look_bind (current_eq parser), if_neg other, pure_eq]

theorem definitions_repeat (room : Nat) : Repeats (nextDefinition room)
    (fun found => do return found ++ [← orSkip (definition room) (fun span => .broken span)])
    (fun kind => kind ≠ .endOfFile) := by
  constructor
  · intro state parser here
    rw [nextDefinition, isEnd, look_bind (check_eq parser _), if_neg (by simpa using here)]
    simp only [bind_assoc, pure_bind]
  · intro state parser atEnd
    rw [nextDefinition, isEnd, look_bind (check_eq parser _), if_pos (by simpa using atEnd), pure_eq]

/-- The words that only the head of a source may start with. -/
def headWords : List Kind :=
  [.keyword .packageKw, .keyword .importKw, .keyword .xmlnsKw]

theorem packageHeader_complete {parser later : Parser} {package : Option PackageDecl}
    (ran : packageHeader parser = .ok package later) (clean : later.Clean) :
    Complete parser later fun right last =>
      (right.cursor.peek.kind ∈ [.keyword .packageKw] ↔
        parser.cursor.peek.kind ∈ [.keyword .packageKw]) → packageHeader right = .ok package last := by
  have header {parser : Parser} (here : parser.cursor.peek.kind = .keyword .packageKw) :
      packageHeader parser = orSkip (do return some (← packageDecl)) (fun _ => none) parser := by
    rw [packageHeader, look_bind (check_eq parser _), if_pos (by simpa using here)]
  have noHeader {parser : Parser} (other : parser.cursor.peek.kind ≠ .keyword .packageKw) :
      packageHeader parser = .ok none parser := by
    rw [packageHeader, look_bind (check_eq parser _), if_neg (by simpa using other), pure_eq]
  simp only [List.mem_singleton]
  by_cases here : parser.cursor.peek.kind = .keyword .packageKw
  · have stable : Stable False definitionEnds
        (orSkip (do return some (← packageDecl)) (fun _ => none)) :=
      .orSkip (.mapped _ (.closedBy packageDecl_stable (by simp)))
    rw [header here] at ran
    have complete := (stable ran clean).complete
    refine ⟨complete.clean, complete.passed, fun seam shared left right joined leaves => ?_⟩
    obtain ⟨last, joinedLast, ranRight⟩ := complete.again seam shared left right joined leaves
    refine ⟨last, joinedLast, fun alike => ?_⟩
    rw [header (alike.mpr here), ranRight]
  · rw [noHeader here] at ran
    cases ran
    refine ⟨clean, ⟨[], rfl, .nil⟩, fun seam shared left right joined leaves => ?_⟩
    obtain rfl : shared = left := List.append_cancel_right (joined.ahead.symm.trans leaves)
    exact ⟨right, joined, fun alike => noHeader fun same => here (alike.mp same)⟩

/-- What has been read of a source, and what a source is that starts the same and goes on
with a definition. -/
theorem sourceUnit_complete (room : Nat) {parser later : Parser} {unit : SourceUnit}
    (ran : sourceUnit room parser = .ok unit later) (clean : later.Clean) :
    later.cursor.ahead = [] ∧ EndsDefinition parser.cursor.ahead ∧
      ∀ seam right, parser.Joined False seam parser.cursor.ahead right → seam.rest = [] →
        seam.first.kind ∉ headWords →
        ∃ last, later.Joined False seam [] last ∧ sourceUnit room right = (do
          let items ← loop (nextDefinition room) unit.items
          return ⟨unit.package, unit.directives, items,
            Span.merge right.cursor.peek.span (← peek).span⟩ : Step SourceUnit) last := by
  obtain ⟨_, _, ranPeek, ran⟩ := bind_ok ran
  cases ranPeek
  obtain ⟨package, atDirectives, ranPackage, ran⟩ := bind_ok ran
  obtain ⟨found, atDefinitions, ranDirectives, ran⟩ := bind_ok ran
  obtain ⟨items, _, ranItems, ran⟩ := bind_ok ran
  cases ran
  obtain ⟨atEnd, definitions⟩ := (definitions_repeat room).complete
    (fun _ => .mapped _ (.orSkip (definition_stable room))) ranItems clean
  obtain ⟨noDirective, directives⟩ := directives_repeat.complete
    (fun _ => .orSkip (.mapped _ (.closedBy directive_stable (by simp))))
    ranDirectives definitions.clean
  have header := packageHeader_complete ranPackage directives.clean
  have nothing : later.cursor.ahead = [] :=
    later.cursor.peek_isEnd_iff.mp (Classical.not_not.mp atEnd)
  obtain ⟨front, split, ends⟩ := header.passed
  obtain ⟨middle, splitMiddle, endsMiddle⟩ := directives.passed
  obtain ⟨back, splitBack, endsBack⟩ := definitions.passed
  rw [nothing, List.append_nil] at splitBack
  rw [splitBack] at splitMiddle
  rw [splitMiddle] at split
  refine ⟨nothing, ?_, ?_⟩
  · rw [split]
    exact ends.append (endsMiddle.append endsBack)
  · intro seam right joined noRest plain
    have leaves {slots ahead : List Slot} (same : ahead = slots) : ahead = slots ++ seam.rest := by
      rw [noRest, List.append_nil, same]
    obtain ⟨rightDirectives, joinedDirectives, ranRightPackage⟩ :=
      header.again seam _ _ right joined (leaves rfl)
    obtain ⟨rightDefinitions, joinedDefinitions, ranRightDirectives⟩ :=
      directives.again seam _ _ rightDirectives joinedDirectives (leaves rfl)
    obtain ⟨last, joinedLast, ranRightItems⟩ :=
      definitions.again seam _ [] rightDefinitions joinedDefinitions (leaves nothing)
    have ranHeader : packageHeader right = .ok package rightDirectives := by
      apply ranRightPackage
      apply joined.mem_iff noRest _ (by simp)
      intro member
      exact plain (List.mem_cons.mpr (.inl (List.mem_singleton.mp member)))
    have stops : ¬rightDefinitions.cursor.peek.kind ∈ [.keyword .importKw, .keyword .xmlnsKw] := by
      rw [joinedDefinitions.mem_iff noRest _ (by simp)]
      · exact noDirective
      · exact fun member => plain (List.mem_cons_of_mem _ member)
    have ranFound : Grammar.directives rightDirectives = .ok found rightDefinitions := by
      rw [Grammar.directives, ranRightDirectives, loop_of_done (directives_repeat.stops stops)]
    refine ⟨last, joinedLast, ?_⟩
    rw [sourceUnit, look_bind (peek_eq right), bind_of_ok ranHeader, bind_of_ok ranFound]
    exact bind_of_eq ranRightItems

theorem sourceUnit_of_plain (room : Nat) {parser : Parser}
    (plain : parser.cursor.peek.kind ∉ headWords) : sourceUnit room parser = (do
      let items ← loop (nextDefinition room) []
      return ⟨none, [], items, Span.merge parser.cursor.peek.span (← peek).span⟩ :
        Step SourceUnit) parser := by
  have noHeader : packageHeader parser = .ok none parser := by
    rw [packageHeader, look_bind (check_eq parser _), if_neg, pure_eq]
    intro same
    exact plain (List.mem_cons.mpr (.inl (by simpa using same)))
  have noDirective : Grammar.directives parser = .ok [] parser := by
    apply loop_of_done
    apply directives_repeat.stops
    intro member
    exact plain (List.mem_cons_of_mem _ member)
  rw [sourceUnit, look_bind (peek_eq parser), bind_of_ok noHeader, bind_of_ok noDirective]
  rfl

theorem definitions_of_sourceUnit (room : Nat) {parser later : Parser} {unit : SourceUnit}
    (plain : parser.cursor.peek.kind ∉ headWords)
    (ran : sourceUnit room parser = .ok unit later) :
    definitions room parser = .ok unit.items later := by
  rw [sourceUnit_of_plain room plain] at ran
  obtain ⟨items, between, ranItems, ran⟩ := bind_ok ran
  rw [look_bind (peek_eq between)] at ran
  cases ran
  exact ranItems

end Grammar

namespace Slot

/-- The first token that is read is the first one that is no comment and not invalid. -/
theorem token_first_ofTokens (pending tokens : List Token) :
    ((ofTokens pending tokens).1.head?.getD (ofTokens pending tokens).2).token =
      (tokens.find? Token.isRead).getD .missingEnd := by
  induction tokens generalizing pending with
  | nil => rfl
  | cons token rest ih =>
      rw [ofTokens]
      split
      · rename_i atEnd
        rw [List.find?_cons_of_pos (by simp [Token.isRead, atEnd])]
        rfl
      · rename_i comment
        rw [List.find?_cons_of_neg (by simp [Token.isRead, comment]), ih]
      · rename_i invalid
        rw [List.find?_cons_of_neg (by simp [Token.isRead, invalid]), ih]
      · rename_i notEnd notComment notInvalid
        rw [List.find?_cons_of_pos (by simpa [Token.isRead] using ⟨notComment, notInvalid⟩)]
        rfl

/-- The first token that is read has a slot, whatever comments stand before it. -/
theorem cons_ofTokens {tokens : List Token} {token : Token} (pending : List Token)
    (first : tokens.find? Token.isRead = some token) (notEnd : token.kind ≠ .endOfFile) :
    ∃ slot others, (ofTokens pending tokens).1 = slot :: others ∧ slot.token = token := by
  have isFirst := token_first_ofTokens pending tokens
  rw [first, Option.getD_some] at isFirst
  cases cut : (ofTokens pending tokens).1 with
  | nil =>
      rw [cut] at isFirst
      exact absurd (isFirst ▸ (ofTokens_kinds pending tokens).2) notEnd
  | cons slot others =>
      rw [cut] at isFirst
      exact ⟨slot, others, rfl, isFirst⟩

/-- Comments in front of a list of tokens go to the first token that is read, and nothing
else depends on them. -/
theorem ofTokens_pending (pending others tokens : List Token) :
    (ofTokens others tokens).1.tail = (ofTokens pending tokens).1.tail ∧
      (ofTokens others tokens).1.length = (ofTokens pending tokens).1.length ∧
      ((ofTokens pending tokens).1 ≠ [] →
        (ofTokens others tokens).2 = (ofTokens pending tokens).2) := by
  induction tokens generalizing pending others with
  | nil => exact ⟨rfl, rfl, fun more => absurd rfl more⟩
  | cons token rest ih =>
      simp only [ofTokens]
      split
      · exact ⟨rfl, rfl, fun more => absurd rfl more⟩
      · exact ih _ _
      · exact ih _ _
      · exact ⟨rfl, rfl, fun _ => rfl⟩

end Slot

theorem Cursor.peek_ofTokens (tokens : List Token) :
    (Cursor.ofTokens tokens).peek = (tokens.find? Token.isRead).getD .missingEnd :=
  Slot.token_first_ofTokens [] tokens

/-- Two clean parsers before the same tokens are near, whatever comments stand in front. -/
theorem Parser.Clean.near {pending others tokens : List Token} {left right : Parser}
    (clean : left.Clean) (cleanRight : right.Clean) (options : right.options = left.options)
    (depth : right.depth = left.depth)
    (ahead : left.cursor.ahead = (Slot.ofTokens pending tokens).1)
    (final : left.cursor.final = (Slot.ofTokens pending tokens).2)
    (aheadRight : right.cursor.ahead = (Slot.ofTokens others tokens).1)
    (finalRight : right.cursor.final = (Slot.ofTokens others tokens).2) : left.Near right := by
  obtain ⟨tail, length, finals⟩ := Slot.ofTokens_pending pending others tokens
  constructor
  · obtain ⟨cursor, kept, ⟨entries⟩, reportedAt, limitHit, open_, within⟩ := left
    obtain ⟨otherCursor, otherKept, ⟨otherEntries⟩, otherReportedAt, otherLimitHit, otherOpen,
      otherWithin⟩ := right
    obtain ⟨isNil, remembered, hit⟩ := clean
    obtain ⟨otherIsNil, otherRemembered, otherHit⟩ := cleanRight
    cases options
    cases depth
    cases isNil
    cases otherIsNil
    cases remembered
    cases otherRemembered
    cases hit
    cases otherHit
    rfl
  · rw [Cursor.peek, Cursor.peek, ahead, final, aheadRight, finalRight,
      Slot.token_first_ofTokens, Slot.token_first_ofTokens]
  · rw [ahead, aheadRight, tail]
  · rw [Cursor.remaining, Cursor.remaining, ahead, aheadRight, length]
  · intro more
    rw [final, finalRight, finals (ahead ▸ more)]

/-- A clean parser stands near the start of the tokens that are ahead of it. -/
theorem Parser.near_of_clean {pending tokens : List Token} {options : Options} {parser : Parser}
    (clean : parser.Clean) (sameOptions : parser.options = options) (start : parser.depth = 0)
    (ahead : parser.cursor.ahead = (Slot.ofTokens pending tokens).1)
    (final : parser.cursor.final = (Slot.ofTokens pending tokens).2) :
    (Parser.ofTokens tokens [] options).Near parser :=
  (Parser.clean_ofTokens tokens options).near clean sameOptions start rfl rfl ahead final

section Cut

variable {before : List Token} {slots : List Slot} {left : List Token}
  (cut : ∀ after, Slot.ofTokens [] (before ++ after) =
    (slots ++ (Slot.ofTokens left after).1, (Slot.ofTokens left after).2))

include cut

/-- Two lists of tokens that start alike stand before what the one goes on with as before what
the other one does. -/
theorem Parser.joined_of_cut {reach : Prop} (behind after : List Token)
    (edge : (Seam.IsSoft ⟨(Slot.ofTokens left behind).1, (Slot.ofTokens left after).1,
      (Slot.ofTokens left after).2⟩ reach ∨ Seam.IsApart ⟨(Slot.ofTokens left behind).1,
        (Slot.ofTokens left after).1, (Slot.ofTokens left after).2⟩) ∨ EndsDefinition slots)
    (options : Options) :
    (Parser.ofTokens (before ++ behind) [] options).Joined reach
      ⟨(Slot.ofTokens left behind).1, (Slot.ofTokens left after).1, (Slot.ofTokens left after).2⟩
      slots (.ofTokens (before ++ after) [] options) := by
  constructor
  · rfl
  · rfl
  · rfl
  · intro more
    obtain ⟨slot, others, rfl⟩ := List.exists_cons_of_ne_nil more
    change ((Slot.ofTokens [] (before ++ after)).1.head?.getD _).comments =
      ((Slot.ofTokens [] (before ++ behind)).1.head?.getD _).comments
    rw [cut, cut]
    rfl
  · change (Slot.ofTokens [] (before ++ behind)).1 = _
    rw [cut]
  · change (Slot.ofTokens [] (before ++ after)).1 = _
    rw [cut]
  · change (Slot.ofTokens [] (before ++ after)).2 = _
    rw [cut]
  · exact edge
  · exact Parser.clean_ofTokens _ _

/-- A list of tokens stands before what it ends with as it does before what follows it. -/
theorem Parser.joined_ofTokens (ends : EndsDefinition slots) (after : List Token)
    (options : Options) :
    (Parser.ofTokens before [] options).Joined False
      ⟨[], (Slot.ofTokens left after).1, (Slot.ofTokens left after).2⟩ slots
      (.ofTokens (before ++ after) [] options) := by
  have joined := @joined_of_cut before slots left cut False [] after (.inr ends) options
  rwa [List.append_nil] at joined

end Cut

/-- A source that nothing is reported about leaves the parser clean. -/
theorem clean_of_parseTokens {tokens : List Token} {options : Options} {unit : SourceUnit}
    {later : Parser}
    (ran : Grammar.sourceUnit options.maxDepth (.ofTokens tokens [] options) = .ok unit later)
    (nothing : (parseTokens tokens options).2.entries = []) : later.Clean := by
  rw [parseTokens_of_ok ran] at nothing
  have kept := Parser.clean_of_entries_nil
    (Grammar.sourceUnit_orderly options.maxDepth (.ofTokens tokens [] options))
    (Parser.clean_ofTokens _ _) (by rw [Step.after_of_ok ran]; exact nothing)
  rwa [Step.after_of_ok ran] at kept

/-- A source that is read without any diagnostic is not affected by what follows it: with
any tokens behind whose first one, comments and invalid tokens apart, does not belong to
the head of a source, its package, its directives and its definitions stay as they are, the
definitions of what follows stand behind them, and what is reported is what is reported
about what follows. -/
theorem parseTokens_append (before after : List Token) (options : Options)
    (noEnd : ∀ token ∈ before, token.kind ≠ .endOfFile)
    (clean : (parseTokens before options).2.entries = [])
    (plain : ∀ token, after.find? Token.isRead = some token →
      token.kind ∉ ([.keyword .packageKw, .keyword .importKw, .keyword .xmlnsKw] : List Kind)) :
    (parseTokens (before ++ after) options).1.package = (parseTokens before options).1.package ∧
      (parseTokens (before ++ after) options).1.directives =
        (parseTokens before options).1.directives ∧
      (parseTokens (before ++ after) options).1.items =
        (parseTokens before options).1.items ++ (parseTokens after options).1.items ∧
      (parseTokens (before ++ after) options).2 = (parseTokens after options).2 := by
  obtain ⟨slots, left, cut, -⟩ := Slot.ofTokens_front [] before noEnd
  obtain ⟨unit, later, ran⟩ :=
    Grammar.sourceUnit_succeeds options.maxDepth (.ofTokens before [] options)
  obtain ⟨-, ends, onwards⟩ :=
    Grammar.sourceUnit_complete options.maxDepth ran (clean_of_parseTokens ran clean)
  have ahead : (Parser.ofTokens before [] options).cursor.ahead = slots := by
    have cutBefore := congrArg Prod.fst (cut [])
    rw [List.append_nil, Slot.ofTokens, List.append_nil] at cutBefore
    exact cutBefore
  rw [ahead] at ends onwards
  have noHead : ((after.find? Token.isRead).getD .missingEnd).kind ∉ Grammar.headWords := by
    cases found : after.find? Token.isRead with
    | none => decide
    | some token => exact plain token found
  obtain ⟨last, joined, ranWhole⟩ := onwards _ _
    (Parser.joined_ofTokens cut ends after options) rfl (by
      change ((Slot.ofTokens left after).1.head?.getD _).token.kind ∉ _
      rwa [Slot.token_first_ofTokens])
  have sameOptions : last.options = options :=
    joined.options.trans
      ((Grammar.sourceUnit_orderly options.maxDepth (.ofTokens before [] options)).options_of_ok ran)
  have asDeep := (Grammar.sourceUnit_levels (Nat.lt_succ_self options.maxDepth)).asDeep
    (show options.maxDepth ≤ (Parser.ofTokens before [] options).options.maxDepth from Nat.le_refl _)
  rw [Step.after_of_ok ran] at asDeep
  -- Behind `before` the parser differs from a new one in the token consumed last at most.
  have near : (Parser.ofTokens after [] options).Near last :=
    Parser.near_of_clean joined.clean sameOptions (joined.depth.trans asDeep.depth) joined.other
      joined.final
  obtain ⟨items, alone, whole, ranAlone, ranBehind, sameReport⟩ :=
    Grammar.definitions_of_near options.maxDepth near
  have startsPlain : (Parser.ofTokens after [] options).cursor.peek.kind ∉ Grammar.headWords := by
    change (Cursor.ofTokens after).peek.kind ∉ _
    rwa [Cursor.peek_ofTokens]
  have ranAfter := Grammar.sourceUnit_of_plain options.maxDepth startsPlain
  rw [Step.bind_of_ok (ranAlone []), Step.look_bind (Step.peek_eq alone), Step.pure_eq] at ranAfter
  rw [Step.bind_of_ok (ranBehind unit.items), Step.look_bind (Step.peek_eq whole), Step.pure_eq]
    at ranWhole
  rw [parseTokens_of_ok ran, parseTokens_of_ok ranWhole, parseTokens_of_ok ranAfter]
  exact ⟨rfl, rfl, rfl, sameReport⟩

/-- `int x;` -/
def variableTokens : List Token :=
  [⟨.keyword .intKw, "int", ⟨0, 3, 1, 1⟩⟩, ⟨.identifier, "x", ⟨4, 5, 1, 5⟩⟩,
    ⟨.symbol .semicolon, ";", ⟨5, 6, 1, 6⟩⟩]

/-- `y;`, which is no definition. -/
def strayName : List Token :=
  [⟨.identifier, "y", ⟨7, 8, 2, 1⟩⟩, ⟨.symbol .semicolon, ";", ⟨8, 9, 2, 2⟩⟩,
    ⟨.endOfFile, "", ⟨9, 9, 2, 3⟩⟩]

theorem parseTokens_variableTokens_append_strayName :
    (parseTokens variableTokens {}).2.entries = [] ∧
      (parseTokens (variableTokens ++ strayName) {}).1.package =
        (parseTokens variableTokens {}).1.package ∧
      (parseTokens (variableTokens ++ strayName) {}).1.directives =
        (parseTokens variableTokens {}).1.directives ∧
      (parseTokens (variableTokens ++ strayName) {}).1.items =
        (parseTokens variableTokens {}).1.items ++ (parseTokens strayName {}).1.items ∧
      (parseTokens (variableTokens ++ strayName) {}).2 = (parseTokens strayName {}).2 :=
  ⟨by decide +kernel,
    parseTokens_append variableTokens strayName {} (by decide) (by decide +kernel) (by
      rintro token first
      cases first
      decide)⟩

/-- `// n`, and `import a;` behind it -/
def commentedImport : List Token :=
  [⟨.comment, "// n", ⟨7, 11, 2, 1⟩⟩, ⟨.keyword .importKw, "import", ⟨12, 18, 3, 1⟩⟩,
    ⟨.identifier, "a", ⟨19, 20, 3, 8⟩⟩, ⟨.symbol .semicolon, ";", ⟨20, 21, 3, 9⟩⟩,
    ⟨.endOfFile, "", ⟨22, 22, 4, 1⟩⟩]

/-- A comment in front does not make an import part of what follows a definition: alone
nothing is reported about it, and behind a definition it is. -/
theorem commentedImport_behind_variableTokens :
    (∀ token ∈ variableTokens, token.kind ≠ .endOfFile) ∧
      (parseTokens variableTokens {}).2.entries = [] ∧
      commentedImport.getLast?.map Token.kind = some .endOfFile ∧
      commentedImport.head?.map Token.kind ∉ ([some (.keyword .packageKw),
        some (.keyword .importKw), some (.keyword .xmlnsKw)] : List (Option Kind)) ∧
      ((variableTokens ++ commentedImport).map fun token => token.span.start).Nodup ∧
      (parseTokens (variableTokens ++ commentedImport) {}).2 ≠
        (parseTokens commentedImport {}).2 := by
  decide +kernel

end ServiceLang
