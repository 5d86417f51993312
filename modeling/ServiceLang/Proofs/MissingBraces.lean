import ServiceLang.Proofs.BridgedDefinition

set_option autoImplicit false

/-! Closing braces that are left out at the end of a definition. A word that announces the next
definition shows where they are missing. All of them are assumed there, one diagnostic says so,
and what stands behind is read as if nothing were missing. -/

namespace ServiceLang

def Kind.announcesDefinition (kind : Kind) : Prop :=
  kind ∈ ([.keyword .serviceKw, .keyword .nativeKw, .keyword .functionKw, .keyword .connectorKw,
    .keyword .structKw, .keyword .typemapperKw, .keyword .constKw, .keyword .annotationKw] :
    List Kind)

namespace Kind

variable {kind : Kind} (announces : kind.announcesDefinition)

include announces

theorem startsDefinition_of_announces : kind.startsDefinition = true := by
  simp only [announcesDefinition, List.mem_cons, List.not_mem_nil, or_false] at announces
  rcases announces with rfl | rfl | rfl | rfl | rfl | rfl | rfl | rfl <;> rfl

theorem isInert_of_announces : kind.isInert = true := by
  rw [isInert, startsDefinition_of_announces announces, Bool.or_true, Bool.true_or]

theorem ne_end_of_announces : kind ≠ .endOfFile := by
  rintro rfl
  exact Bool.noConfusion (startsDefinition_of_announces announces)

theorem notMem_headWords_of_announces : kind ∉ Grammar.headWords := by
  simp only [announcesDefinition, List.mem_cons, List.not_mem_nil, or_false] at announces
  rcases announces with rfl | rfl | rfl | rfl | rfl | rfl | rfl | rfl <;> decide

end Kind

namespace Grammar

open Step

variable (room : Nat)

/-! ### Up to the first definition -/

/-- No action stands outside a connector. -/
theorem definition_of_nativeAction {parser later : Parser} {first : Definition}
    (native : parser.cursor.peek.kind = .keyword .nativeKw)
    (action : (parser.cursor.peekNth 1).kind = .keyword .actionKw) :
    definition room parser ≠ .ok first later := by
  intro ran
  rw [definition, look_bind (peek_eq parser),
    bind_of_ok (attachments_of_other room (by simp [native])), headedDefinition,
    look_bind (current_eq parser), native] at ran
  simp only [nativeDefinition] at ran
  rw [look_bind (kindNth_eq parser 1), action] at ran
  simp only at ran
  rw [look_bind (cursor_eq parser)] at ran
  exact fail_ne_ok ran

/-- Where a definition starts that nothing is wrong with, the members of another one end. -/
theorem endsMembers_of_definitions {parser later : Parser} {items : List Definition}
    (announces : parser.cursor.peek.kind.announcesDefinition)
    (ran : definitions room parser = .ok items later) (clean : later.Clean) :
    endsMembers parser.cursor.peek.kind (parser.cursor.peekNth 1).kind = true := by
  obtain ⟨first, _, _, -, ranFirst, -⟩ :=
    definition_of_definitions room (Kind.ne_end_of_announces announces) ran clean
  have noAction : (parser.cursor.peek.kind == .keyword .nativeKw &&
      (parser.cursor.peekNth 1).kind == .keyword .actionKw) = false := by
    refine Bool.eq_false_iff.mpr fun both => ?_
    rw [Bool.and_eq_true, beq_iff_eq, beq_iff_eq] at both
    exact definition_of_nativeAction room both.1 both.2 ranFirst
  rw [endsMembers, Kind.startsDefinition_of_announces announces, noAction, Bool.not_false,
    Bool.and_true, Bool.or_true]

def upToFirst : Step (Option PackageDecl × List Directive × Definition) := do
  let package ← packageHeader
  let found ← directives
  let first ← definition room
  return (package, found, first)

theorem upToFirst_bridges {gap : Gap} : Bridges gap .inside .among (upToFirst room) := by
  refine headed_bridged (fun package found parser later value here ran => ?_)
    fun package other packages found others directives => ?_
  · obtain ⟨_, _, ranFirst, -⟩ := bind_ok ran
    exact absurd ranFirst (definition_blocks room (.inl here))
  · exact .bind (definition_bridges room).inside fun _ _ firsts => .pure ⟨packages, directives, firsts⟩

variable {room} {parser later between : Parser} {first : Definition}

theorem sourceUnit_of_upToFirst {package : Option PackageDecl} {found : List Directive}
    (ran : upToFirst room parser = .ok (package, found, first) between) :
    sourceUnit room parser = (do
      let items ← loop (nextDefinition room) [first]
      return ⟨package, found, items, Span.merge parser.cursor.peek.span (← peek).span⟩ :
        Step SourceUnit) between := by
  obtain ⟨_, atDirectives, ranPackage, ran⟩ := bind_ok ran
  obtain ⟨_, atDefinitions, ranDirectives, ran⟩ := bind_ok ran
  obtain ⟨_, _, ranFirst, same⟩ := bind_ok ran
  cases same
  have shorter := (definition_eager room).strict ranFirst
  have more : atDefinitions.cursor.peek.kind ≠ .endOfFile := by
    intro atEnd
    rw [Cursor.remaining, Cursor.remaining, atDefinitions.cursor.peek_isEnd_iff.mp atEnd] at shorter
    exact Nat.not_lt_zero _ shorter
  have reads : nextDefinition room [] atDefinitions = .ok (.yield [first]) between := by
    rw [nextDefinition, isEnd, look_bind (check_eq atDefinitions _), if_neg (by simpa using more),
      bind_of_ok (orSkip_of_ok ranFirst)]
    rfl
  rw [sourceUnit, look_bind (peek_eq parser), bind_of_ok ranPackage, bind_of_ok ranDirectives,
    definitions, bind_of_eq (loop_of_yield reads shorter)]

/-- A source of one definition that nothing is wrong with is read up to its end with it. -/
theorem upToFirst_of_sourceUnit {unit : SourceUnit} (single : unit.items = [first])
    (ran : sourceUnit room parser = .ok unit later) (clean : later.Clean) :
    upToFirst room parser = .ok (unit.package, unit.directives, first) later := by
  obtain ⟨_, _, ranPeek, ran⟩ := bind_ok ran
  cases ranPeek
  obtain ⟨package, atDirectives, ranPackage, ran⟩ := bind_ok ran
  obtain ⟨found, atDefinitions, ranDirectives, ran⟩ := bind_ok ran
  obtain ⟨items, between, ranItems, ran⟩ := bind_ok ran
  cases ran
  obtain rfl : items = [first] := single
  have more : atDefinitions.cursor.peek.kind ≠ .endOfFile := by
    intro atEnd
    rw [definitions, loop_of_done (nextDefinition_of_end room atEnd [])] at ranItems
    cases ranItems
  obtain ⟨_, rest, behind, same, ranFirst, ranRest, -⟩ :=
    definition_of_definitions room more ranItems clean
  cases same
  have atEnd : behind.cursor.peek.kind = .endOfFile := by
    apply Classical.byContradiction
    intro more
    obtain ⟨_, _, _, same, -⟩ := definition_of_definitions room more ranRest clean
    cases same
  rw [definitions, loop_of_done (nextDefinition_of_end room atEnd [])] at ranRest
  cases ranRest
  rw [upToFirst, bind_of_ok ranPackage, bind_of_ok ranDirectives, bind_of_ok ranFirst, pure_eq]

end Grammar

/-! ### The gap that closing braces leave -/

/-- Closing braces are left out before some tokens; `pending` are the comments in front of
them. -/
def Omission.ofBraces (pending braces behind : List Token) : Omission where
  sign := .rightBrace
  missing := (Slot.ofTokens pending braces).1
  behind := []
  other := (Slot.ofTokens pending behind).1
  final := (Slot.ofTokens pending behind).2
  sieve := .coarse

theorem Slot.tokens_ofTokens_braces (pending : List Token) {braces : List Token}
    (areBraces : ∀ token ∈ braces, token.kind = .symbol .rightBrace) :
    (ofTokens pending braces).1.map Slot.token = braces := by
  obtain ⟨slots, left, cut, tokens⟩ := ofTokens_front pending braces fun token member => by
    rw [areBraces token member]
    nofun
  have whole := congrArg Prod.fst (cut [])
  rw [List.append_nil, ofTokens, List.append_nil] at whole
  rw [whole, tokens, List.filter_eq_self]
  intro token member
  rw [Token.isRead, areBraces token member]
  rfl

section Braces

variable (pending : List Token) {braces behind : List Token} {next : Token}
  (someBraces : braces ≠ []) (areBraces : ∀ token ∈ braces, token.kind = .symbol .rightBrace)
  (isNext : behind.find? Token.isRead = some next) (announces : next.kind.announcesDefinition)
  (ends : Grammar.endsMembers next.kind ((Cursor.ofTokens behind).peekNth 1).kind = true)

include isNext in
theorem Omission.next_ofBraces : (ofBraces pending braces behind).next = next := by
  refine (Slot.token_first_ofTokens pending behind).trans ?_
  rw [isNext, Option.getD_some]

include isNext announces ends in
theorem Omission.isBraces_ofBraces : (ofBraces pending braces behind).IsBraces := by
  refine ⟨rfl, rfl, rfl, ?_, ?_⟩
  · rw [next_ofBraces pending isNext]
    exact Kind.startsDefinition_of_announces announces
  · rw [next_ofBraces pending isNext]
    -- The comments in front do not change the token behind the first one.
    obtain ⟨tail, -, final⟩ := Slot.ofTokens_pending [] pending behind
    obtain ⟨slot, others, cut, -⟩ :=
      Slot.cons_ofTokens [] isNext (Kind.ne_end_of_announces announces)
    have second : (ofBraces pending braces behind).other[1]?.getD
        (ofBraces pending braces behind).final =
          (Slot.ofTokens [] behind).1[1]?.getD (Slot.ofTokens [] behind).2 := by
      rw [← List.getElem?_tail, ← final (by rw [cut]; exact List.cons_ne_nil _ _),
        ← List.getElem?_tail, ← tail]
      rfl
    rw [second]
    exact ends

def Gap.ofBraces {options : Options} (room : options.maxErrors ≠ some 0) : Gap where
  toOmission := .ofBraces pending braces behind
  options := options
  someMissing := by
    intro none
    have tokens := Slot.tokens_ofTokens_braces pending areBraces
    change (Slot.ofTokens pending braces).1 = [] at none
    rw [none] at tokens
    exact someBraces tokens.symm
  signs slot member := by
    refine areBraces slot.token ?_
    rw [← Slot.tokens_ofTokens_braces pending areBraces]
    exact List.mem_map_of_mem member
  inert := by
    obtain ⟨slot, others, cut, rfl⟩ :=
      Slot.cons_ofTokens pending isNext (Kind.ne_end_of_announces announces)
    exact ⟨slot, others, cut, Kind.isInert_of_announces announces⟩
  room := room
  silent := rfl
  sort := .inr (Omission.isBraces_ofBraces pending isNext announces ends)

theorem Gap.before_ofBraces {options : Options} (room : options.maxErrors ≠ some 0)
    {front : List Token} {slots : List Slot}
    (cut : ∀ after, Slot.ofTokens [] (front ++ after) =
      (slots ++ (Slot.ofTokens pending after).1, (Slot.ofTokens pending after).2)) :
    (ofBraces pending someBraces areBraces isNext announces ends room).Before slots
      (.ofTokens (front ++ braces) [] options) (.ofTokens (front ++ behind) [] options) := by
  refine ⟨?_, rfl, fun semicolon => absurd ?_ (not_isBraces_of_isSemicolon semicolon)⟩
  · have seam : (ofBraces pending someBraces areBraces isNext announces ends room).seam =
        ⟨(Slot.ofTokens pending braces).1, (Slot.ofTokens pending behind).1,
          (Slot.ofTokens pending behind).2⟩ := by
      rw [Omission.seam]
      exact congrArg (Seam.mk · _ _) (List.append_nil _)
    rw [seam]
    refine Parser.joined_of_cut cut braces behind (.inl (.inl ?_)) options
    rw [← seam]
    exact soft
  · exact Omission.isBraces_ofBraces pending isNext announces ends

end Braces

/-! ### Behind the braces -/

def Matching.noted (note : Diagnostic) : Matching where
  toView := .exact
  Records left right := left.Clean → right.Noted note
  moved _ otherPlace records clean :=
    (records ((Parser.clean_moved _).mp clean)).moved otherPlace
  reported _ _ _ clean := absurd clean (Parser.not_clean_report _ _)

theorem Matching.eq_of_agree_noted {note : Diagnostic} {left right : List Definition}
    (agree : (noted note).Agree left right) : left = right := by
  have same : left.map (fun item => (item.placedBy id).sifted .whole) =
      right.map (fun item => (item.placedBy id).sifted .whole) := View.map_eq_of_forall₂ agree
  have stays (item : Definition) : (item.placedBy id).sifted .whole = item := by
    rw [Definition.sifted_whole, Definition.placedBy_id, id]
  rwa [map_sifted_whole stays, map_sifted_whole stays] at same

namespace Grammar

open Step

variable (room : Nat)

/-- What has been reported before does not change what is read, if nothing is added to it. -/
theorem definitions_of_noted {parser later : Parser} {items : List Definition} {note : Diagnostic}
    (noted : parser.Noted note) (ran : definitions room parser.cleared = .ok items later)
    (clean : later.Clean) : ∃ last, definitions room parser = .ok items last ∧ last.Noted note := by
  have cursors : (Matching.noted note).Cursors parser.cursor parser.cursor :=
    Matchable.agree_self _ (fun _ => rfl) parser.cursor
  have parsers : (Matching.noted note).Parsers parser.cleared parser :=
    ⟨cursors, rfl, fun _ => rfl, fun _ => noted⟩
  obtain ⟨_, last, ranNoted, values, parsersLater⟩ :=
    (definitions_steady room).ok_of_ok parsers ran
  obtain rfl := Matching.eq_of_agree_noted values
  exact ⟨last, ranNoted, parsersLater.records clean⟩

/-- The definitions behind the gap are those that stand there. -/
theorem definitions_behind {options : Options} {pending behind : List Token} {unit : SourceUnit}
    {alone parser : Parser} {note : Diagnostic}
    (plain : (Parser.ofTokens behind [] options).cursor.peek.kind ∉ headWords)
    (ranAlone : sourceUnit options.maxDepth (.ofTokens behind [] options) = .ok unit alone)
    (clean : alone.Clean) (ahead : parser.cursor.ahead = (Slot.ofTokens pending behind).1)
    (final : parser.cursor.final = (Slot.ofTokens pending behind).2)
    (sameOptions : parser.options = options) (noted : parser.Noted note) (found : List Definition) :
    ∃ last, loop (nextDefinition options.maxDepth) found parser = .ok (found ++ unit.items) last ∧
      last.Noted note := by
  have near : (Parser.ofTokens behind [] options).Near parser.cleared :=
    Parser.near_of_clean parser.clean_cleared sameOptions rfl ahead final
  obtain ⟨items, later, last, ranFront, ranCleared, sameReport⟩ :=
    definitions_of_near options.maxDepth near
  have alike := (definitions_of_sourceUnit options.maxDepth plain ranAlone).symm.trans (ranFront [])
  rw [List.nil_append, EStateM.Result.ok.injEq] at alike
  obtain ⟨rfl, rfl⟩ := alike
  have cleanLast : last.Clean := by
    have kept := Parser.clean_of_entries_nil
      (Orderly.loop (nextDefinition_turn options.maxDepth) [] parser.cleared) parser.clean_cleared (by
        rw [after_of_ok (ranCleared []), sameReport]
        exact clean.nothingReported)
    rwa [after_of_ok (ranCleared [])] at kept
  obtain ⟨whole, ranNoted, notedWhole⟩ :=
    definitions_of_noted options.maxDepth noted (ranCleared []) cleanLast
  obtain ⟨others, other, onwards⟩ := definitions_of_found options.maxDepth parser
  have ran := ranNoted.symm.trans (onwards [])
  rw [List.nil_append, EStateM.Result.ok.injEq] at ran
  obtain ⟨rfl, rfl⟩ := ran
  exact ⟨whole, onwards found, notedWhole⟩

end Grammar

/-- Closing braces may be missing at the end of a definition, where a word announces the next
one. If nothing is wrong with some tokens that are one definition and end with braces, nor with
other ones that start with such a word, then without these braces in between exactly one
diagnostic is given, which says that a brace has been assumed before that word. The definition
stays the same, but for its places, the comments among its statements and the marks of assumed
braces; and the others are read just as they are alone. -/
theorem parseTokens_without_braces (front braces behind : List Token) (next : Token)
    (options : Options) (item : Definition) (noEnd : ∀ token ∈ front, token.kind ≠ .endOfFile)
    (someBraces : braces ≠ []) (areBraces : ∀ token ∈ braces, token.kind = .symbol .rightBrace)
    (room : options.maxErrors ≠ some 0)
    (clean : (parseTokens (front ++ braces) options).2.entries = [])
    (single : (parseTokens (front ++ braces) options).1.items = [item])
    (isNext : behind.find? Token.isRead = some next) (announces : next.kind.announcesDefinition)
    (cleanBehind : (parseTokens behind options).2.entries = []) :
    (parseTokens (front ++ behind) options).2.entries =
        [(Diagnostic.expectedToken next.span "'\x7d'" next.kind.description).withRecovery
          (.inserted "'\x7d'")] ∧
      ∃ first,
        (parseTokens (front ++ behind) options).1.items =
          first :: (parseTokens behind options).1.items ∧
        first.unplaced.sifted .coarse = item.unplaced.sifted .coarse := by
  obtain ⟨slots, pending, cut, -⟩ := Slot.ofTokens_front [] front noEnd
  obtain ⟨unit, later, ran⟩ :=
    Grammar.sourceUnit_succeeds options.maxDepth (.ofTokens (front ++ braces) [] options)
  obtain ⟨unitBehind, alone, ranAlone⟩ :=
    Grammar.sourceUnit_succeeds options.maxDepth (.ofTokens behind [] options)
  have cleanLater := clean_of_parseTokens ran clean
  have cleanAlone := clean_of_parseTokens ranAlone cleanBehind
  rw [parseTokens_of_ok ran] at single
  have isPeek : (Parser.ofTokens behind [] options).cursor.peek = next := by
    refine (Cursor.peek_ofTokens behind).trans ?_
    rw [isNext, Option.getD_some]
  have plain : (Parser.ofTokens behind [] options).cursor.peek.kind ∉ Grammar.headWords := by
    rw [isPeek]
    exact Kind.notMem_headWords_of_announces announces
  have ends : Grammar.endsMembers next.kind ((Cursor.ofTokens behind).peekNth 1).kind = true := by
    rw [← isPeek]
    exact Grammar.endsMembers_of_definitions options.maxDepth (isPeek ▸ announces)
      (Grammar.definitions_of_sourceUnit options.maxDepth plain ranAlone) cleanAlone
  have start := Gap.before_ofBraces pending someBraces areBraces isNext announces ends room cut
  have more : slots ≠ [] := by
    rintro rfl
    exact Grammar.not_clean_of_sourceUnit options.maxDepth start.peek_left ran cleanLater
  -- The sides are compared up to the end of the first definition only: what stands behind the gap
  -- is read on the right side alone.
  have ranFront := Grammar.upToFirst_of_sourceUnit single ran cleanLater
  obtain ⟨⟨package, found, first⟩, last, ranOther, agree, across⟩ :=
    (Grammar.upToFirst_bridges options.maxDepth).meets (.before start fun _ => more) ranFront cleanLater
  have through := across.through_of_end (Omission.isBraces_ofBraces pending isNext announces ends)
    (Grammar.isEnd_of_sourceUnit options.maxDepth ran)
  obtain ⟨whole, ranItems, noted⟩ := Grammar.definitions_behind plain ranAlone cleanAlone
    through.other through.final through.options through.noted [first]
  have ranWhole := Grammar.sourceUnit_of_upToFirst ranOther
  rw [Step.bind_of_ok ranItems, Step.look_bind (Step.peek_eq whole), Step.pure_eq] at ranWhole
  rw [parseTokens_of_ok ranWhole, parseTokens_of_ok ranAlone]
  refine ⟨noted.entries.trans (congrArg (fun entry => [entry]) ?_), first, rfl,
    agree.2.2.same.symm⟩
  refine Gap.note_eq.trans ?_
  rw [show (Gap.ofBraces pending someBraces areBraces isNext announces ends room).next = next from
    Omission.next_ofBraces pending isNext]
  rfl

/-- `function f() \x7b while (true) \x7b` -/
def openLoop : List Token :=
  [⟨.keyword .functionKw, "function", ⟨0, 8, 1, 1⟩⟩, ⟨.identifier, "f", ⟨9, 10, 1, 10⟩⟩,
    ⟨.symbol .leftParen, "(", ⟨10, 11, 1, 11⟩⟩, ⟨.symbol .rightParen, ")", ⟨11, 12, 1, 12⟩⟩,
    ⟨.symbol .leftBrace, "\x7b", ⟨13, 14, 1, 14⟩⟩, ⟨.keyword .whileKw, "while", ⟨15, 20, 1, 16⟩⟩,
    ⟨.symbol .leftParen, "(", ⟨21, 22, 1, 22⟩⟩, ⟨.boolean, "true", ⟨22, 26, 1, 23⟩⟩,
    ⟨.symbol .rightParen, ")", ⟨26, 27, 1, 27⟩⟩, ⟨.symbol .leftBrace, "\x7b", ⟨28, 29, 1, 29⟩⟩]

def loopBraces : List Token :=
  [⟨.symbol .rightBrace, "\x7d", ⟨30, 31, 1, 31⟩⟩, ⟨.symbol .rightBrace, "\x7d", ⟨32, 33, 1, 33⟩⟩]

def structWord : Token :=
  ⟨.keyword .structKw, "struct", ⟨34, 40, 2, 1⟩⟩

/-- `struct s \x7b \x7d` -/
def emptyStruct : List Token :=
  [structWord, ⟨.identifier, "s", ⟨41, 42, 2, 8⟩⟩, ⟨.symbol .leftBrace, "\x7b", ⟨43, 44, 2, 10⟩⟩,
    ⟨.symbol .rightBrace, "\x7d", ⟨45, 46, 2, 12⟩⟩, ⟨.endOfFile, "", ⟨46, 46, 2, 13⟩⟩]

theorem parseTokens_without_braces_openLoop :
    (parseTokens (openLoop ++ loopBraces) {}).2.entries = [] ∧
      (parseTokens emptyStruct {}).2.entries = [] ∧
      (parseTokens (openLoop ++ emptyStruct) {}).2.entries =
        [(Diagnostic.expectedToken structWord.span "'\x7d'"
          structWord.kind.description).withRecovery (.inserted "'\x7d'")] ∧
      ∃ item first,
        (parseTokens (openLoop ++ loopBraces) {}).1.items = [item] ∧
        (parseTokens (openLoop ++ emptyStruct) {}).1.items =
          first :: (parseTokens emptyStruct {}).1.items ∧
        first.unplaced.sifted .coarse = item.unplaced.sifted .coarse := by
  have clean : (parseTokens (openLoop ++ loopBraces) {}).2.entries = [] := by decide +kernel
  have cleanBehind : (parseTokens emptyStruct {}).2.entries = [] := by decide +kernel
  obtain ⟨item, single⟩ : ∃ item, (parseTokens (openLoop ++ loopBraces) {}).1.items = [item] :=
    List.length_eq_one_iff.mp (by decide +kernel)
  obtain ⟨entries, first, items, same⟩ := parseTokens_without_braces openLoop loopBraces emptyStruct
    structWord {} item (by decide) (by decide) (by decide) (by decide) clean single rfl
    (by simp [Kind.announcesDefinition, structWord]) cleanBehind
  exact ⟨clean, cleanBehind, entries, item, first, single, items, same⟩

end ServiceLang
