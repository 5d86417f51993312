import ServiceLang.Proofs.Enclosing
import ServiceLang.Proofs.Entering
import ServiceLang.Proofs.Finishing
import ServiceLang.Proofs.SpaciousStmt

set_option autoImplicit false

/-! A statement alone and as the body of a function: what stands in front, the one level of
nesting around it and the closing brace behind it do not matter to what is read. -/

namespace ServiceLang

open Step

/-- A step that moves over a token reads the same from near places. -/
theorem Step.Fresh.ok_iff {α : Type} {step : Step α} (fresh : Fresh True step)
    {left right : Parser} (near : left.Near right) {value : α} {later : Parser} :
    step right = .ok value later ↔ step left = .ok value later := by
  rcases fresh near with same | ⟨diagnostic, failed, failedRight⟩ | ⟨still, -⟩
  · rw [same]
  · rw [failed, failedRight]
    exact iff_of_false nofun nofun
  · exact absurd trivial still

/-- A statement is read from here, up to these slots, without any report. -/
def Grammar.ReadsUpTo (room : Nat) (parser : Parser) (statement : Stmt) (slots : List Slot) :
    Prop :=
  ∃ last, Grammar.statement room parser = .ok statement last ∧ last.Clean ∧
    last.cursor.ahead = slots

/-- A text may stop before these tokens: there is a closing brace, or nothing. -/
def Halting (after : List Token) : Prop :=
  ∀ slot ∈ (Slot.ofTokens [] after).1.head?, slot.token.kind = .symbol .rightBrace

theorem EndsFile.halting {rest : List Token} (ends : EndsFile rest) : Halting rest := by
  rw [Halting, Slot.ofTokens_of_endsFile ends]
  exact nofun

/-- A statement that ends with these tokens does so whatever it halts before. -/
theorem Grammar.ReadsUpTo.across {tokens behind after : List Token} {options : Options}
    {room : Nat} {statement : Stmt} (read : ∀ token ∈ tokens, token.isRead = true)
    (noEnd : ∀ token ∈ tokens, token.kind ≠ .endOfFile) (halts : Halting behind)
    (haltsToo : Halting after)
    (reads : Grammar.ReadsUpTo room (.ofTokens (tokens ++ behind) [] options) statement
      (Slot.ofTokens [] behind).1) :
    Grammar.ReadsUpTo room (.ofTokens (tokens ++ after) [] options) statement
      (Slot.ofTokens [] after).1 := by
  obtain ⟨later, ran, clean, ends⟩ := reads
  have cut := Slot.ofTokens_read read noEnd
  have finished :=
    Grammar.statementWith_finishes (Grammar.StmtParts.within_areStable room) ran clean
  obtain ⟨front, split, endsFront, -⟩ := finished.passed
  obtain rfl : tokens.map (fun token => ⟨token, []⟩) = front := by
    change (Slot.ofTokens [] (tokens ++ behind)).1 = _ at split
    rw [cut, ends] at split
    exact List.append_cancel_right split
  have seam : Seam.Halts ⟨(Slot.ofTokens [] behind).1, (Slot.ofTokens [] after).1,
      (Slot.ofTokens [] after).2⟩ := ⟨halts, haltsToo⟩
  obtain ⟨last, ranLast, joined⟩ := finished.again _ _ [] _ seam
    (Parser.joined_of_cut cut behind after (.inr endsFront) options) ends
  exact ⟨last, ranLast, joined.clean, joined.other⟩

/-- A list of tokens is one statement: it is read to its end. -/
theorem Grammar.readsUpTo_end {tokens behind : List Token} (ends : EndsFile behind)
    {options : Options} {statement : Stmt} :
    (∃ later, Grammar.statement options.maxDepth (.ofTokens (tokens ++ behind) [] options) =
        .ok statement later ∧ later.cursor.ahead = [] ∧ later.diagnostics.entries = []) ↔
      Grammar.ReadsUpTo options.maxDepth (.ofTokens (tokens ++ behind) [] options) statement
        (Slot.ofTokens [] behind).1 := by
  rw [Slot.ofTokens_of_endsFile ends]
  constructor
  · rintro ⟨later, ran, atEnd, noReport⟩
    have kept := Parser.clean_of_entries_nil
      ((Grammar.statement_eager options.maxDepth).orderly (.ofTokens (tokens ++ behind) [] options))
      (Parser.clean_ofTokens _ _) (by rw [after_of_ok ran]; exact noReport)
    rw [after_of_ok ran] at kept
    exact ⟨later, ran, kept, atEnd⟩
  · rintro ⟨later, ran, clean, atEnd⟩
    exact ⟨later, ran, atEnd, clean.nothingReported⟩

/-! ### Around the statement -/

def Options.deeper (options : Options) : Options :=
  { options with maxDepth := options.maxDepth + 1 }

/-- The tokens of a function without parameters: those up to the opening brace of its body, the
tokens of the body, the closing brace, and the end of the file. -/
structure FunctionText where
  opening : List Token
  tokens : List Token
  close : Token
  rest : List Token
  header : opening.map Token.kind = Grammar.functionKinds
  read : ∀ token ∈ tokens, token.isRead = true
  noEnd : ∀ token ∈ tokens, token.kind ≠ .endOfFile
  closes : close.kind = .symbol .rightBrace
  ends : EndsFile rest

namespace FunctionText

variable (text : FunctionText) (options : Options)

def inner : List Token :=
  text.tokens ++ text.close :: text.rest

def whole : List Token :=
  text.opening ++ text.inner

def start : Parser :=
  .ofTokens text.whole [] options

def inside : Parser :=
  (text.start options).advanceBy Grammar.functionKinds.length

theorem slots_close : (Slot.ofTokens [] (text.close :: text.rest)).1 = [⟨text.close, []⟩] := by
  have cut := @Slot.ofTokens_read [text.close] (by simp [Token.isRead, text.closes])
    (by simp [text.closes]) text.rest
  rw [List.singleton_append] at cut
  rw [cut, (Slot.ofTokens_end text.ends).1]
  rfl

theorem halting : Halting (text.close :: text.rest) := by
  rw [Halting, text.slots_close]
  intro slot isFirst
  cases isFirst
  exact text.closes

theorem opening_plain {token : Token} (member : token ∈ text.opening) :
    token.isRead = true ∧ token.kind ≠ .endOfFile := by
  have isKind : token.kind ∈ Grammar.functionKinds := by
    rw [← text.header]
    exact List.mem_map_of_mem member
  have plain : ∀ kind ∈ Grammar.functionKinds,
      kind ≠ .comment ∧ kind ≠ .invalid ∧ kind ≠ .endOfFile := by decide
  obtain ⟨notComment, notInvalid, notEnd⟩ := plain _ isKind
  exact ⟨by simp [Token.isRead, notComment, notInvalid], notEnd⟩

theorem cut_whole : Slot.ofTokens [] text.whole =
    (text.opening.map (fun token => ⟨token, []⟩) ++ (Slot.ofTokens [] text.inner).1,
      (Slot.ofTokens [] text.inner).2) :=
  Slot.ofTokens_read (fun _ member => (text.opening_plain member).1)
    (fun _ member => (text.opening_plain member).2) text.inner

theorem ahead_start : (text.start options).cursor.ahead =
    text.opening.map (fun token => ⟨token, []⟩) ++ (Slot.ofTokens [] text.inner).1 := by
  change (Slot.ofTokens [] text.whole).1 = _
  rw [text.cut_whole]

theorem kinds_start : ∃ behind,
    (text.start options).cursor.kinds = Grammar.functionKinds ++ behind := by
  apply Exists.intro
  rw [Cursor.kinds, text.ahead_start, List.map_append, ← text.header, List.map_map]
  rfl

theorem bare_start : (text.start options).Bare := by
  have all : text.whole = (text.opening ++ text.tokens ++ [text.close]) ++ text.rest := by
    simp [whole, inner]
  have plain : ∀ token ∈ text.opening ++ text.tokens ++ [text.close],
      token.isRead = true ∧ token.kind ≠ .endOfFile := by
    intro token member
    rcases List.mem_append.mp member with member | member
    · rcases List.mem_append.mp member with member | member
      · exact text.opening_plain member
      · exact ⟨text.read token member, text.noEnd token member⟩
    · rw [List.mem_singleton.mp member]
      simp [Token.isRead, text.closes]
  rw [start, all]
  exact Parser.bare_ofTokens options (fun token member => (plain token member).1)
    (fun token member => (plain token member).2) text.ends

theorem bare_inside : (text.inside options).Bare :=
  (text.bare_start options).advance.advance.advance.advance.advance

theorem ahead_inside :
    (text.inside options).cursor.ahead = (Slot.ofTokens [] text.inner).1 := by
  have lengths : (text.opening.map fun token => (⟨token, []⟩ : Slot)).length =
      Grammar.functionKinds.length := by
    rw [← text.header, List.length_map, List.length_map]
  change ((text.start options).cursor.advanceBy _).ahead = _
  rw [Cursor.ahead_advanceBy, text.ahead_start]
  exact List.drop_left' lengths

/-- What is read inside does not depend on the opening tokens. -/
theorem near_inside : (Parser.ofTokens text.inner [] options).Near (text.inside options) := by
  have clean : (text.inside options).Clean := (Parser.clean_ofTokens _ options).moved _
  refine Parser.near_of_clean clean rfl rfl (text.ahead_inside options) ?_
  change ((text.start options).cursor.advanceBy _).final = _
  rw [Cursor.final_advanceBy]
  change (Slot.ofTokens [] text.whole).2 = _
  rw [text.cut_whole]

variable {options : Options} {statement : Stmt} {slots : List Slot}

/-- With one more level allowed for, a statement is read the same inside. -/
theorem readsUpTo_inside :
    Grammar.ReadsUpTo options.maxDepth (text.inside options.deeper) statement slots ↔
      Grammar.ReadsUpTo options.maxDepth (.ofTokens text.inner [] options) statement slots := by
  have fresh := Grammar.statement_fresh options.maxDepth
  have spacious := Grammar.statement_spacious options.maxDepth
  have near := text.near_inside options.deeper
  constructor
  · rintro ⟨last, ran, clean, ends⟩
    have kept := spacious ((fresh.ok_iff near).mp ran) clean
    exact ⟨_, kept.again (Nat.le_succ _) options.maxDepth (Nat.le_refl _), clean.limited _, ends⟩
  · rintro ⟨last, ran, clean, ends⟩
    have again := (spacious ran clean).again (Nat.le_refl _) _ (Nat.le_succ _)
    exact ⟨_, (fresh.ok_iff near).mpr again, clean.limited _, ends⟩

/-- What a statement leaves of the text, if it is one token, is the closing brace. -/
theorem ahead_last {room : Nat} {last : Parser}
    (ran : Grammar.statement room (text.inside options) = .ok statement last) (clean : last.Clean)
    (closed : last.cursor.peek.kind = .symbol .rightBrace)
    (atEnd : last.advance.cursor.ahead = []) :
    last.cursor.ahead = [⟨text.close, []⟩] := by
  have finished :=
    Grammar.statementWith_finishes (Grammar.StmtParts.within_areStable room) ran clean
  obtain ⟨front, split, -⟩ := finished.passed
  rw [text.ahead_inside, inner, Slot.ofTokens_read text.read text.noEnd, text.slots_close] at split
  rw [Parser.advance, Cursor.ahead_advance] at atEnd
  cases ahead : last.cursor.ahead with
  | nil => cases closed.symm.trans (last.cursor.peek_isEnd_iff.mpr ahead)
  | cons slot others =>
      rw [ahead, List.tail_cons] at atEnd
      rw [ahead, atEnd] at split
      rw [atEnd]
      exact (List.append_inj' split rfl).2.symm

/-- A function holds one statement exactly if the statement is read inside up to the closing
brace. -/
theorem definition_iff {room : Nat} :
    (∃ function later, Grammar.definition (room + 1) (text.start options) =
        .ok (.function function) later ∧ function.IsJust statement ∧ later.Clean ∧
        later.cursor.ahead = []) ↔
      Grammar.ReadsUpTo room (text.inside options) statement [⟨text.close, []⟩] := by
  obtain ⟨behind, kinds⟩ := text.kinds_start options
  obtain ⟨signature, first, brace, isDefinition⟩ := Grammar.definition_of_functionKinds room kinds
  have bare := text.bare_inside options
  constructor
  · rintro ⟨function, later, ran, isJust, clean, atEnd⟩
    rw [isDefinition] at ran
    obtain ⟨_, _, ranFunction, same⟩ := bind_ok ran
    cases same
    obtain ⟨last, ranStatement, cleanLast, closed, rfl⟩ :=
      Grammar.statement_of_restOfFunction room bare clean ranFunction isJust
    exact ⟨last, ranStatement, cleanLast, text.ahead_last ranStatement cleanLast closed atEnd⟩
  · rintro ⟨last, ran, clean, ends⟩
    have closed : last.cursor.peek.kind = .symbol .rightBrace := by
      rw [Cursor.peek, ends]
      exact text.closes
    obtain ⟨function, ranFunction, isJust⟩ :=
      Grammar.restOfFunction_of_statement room bare ran closed signature first brace
    refine ⟨function, last.advance, ?_, isJust, clean.moved _, ?_⟩
    · rw [inside] at ranFunction
      rw [isDefinition, bind_of_ok ranFunction, pure_eq]
    · rw [Parser.advance, Cursor.ahead_advance, ends]
      rfl

theorem parseTokens_iff {room : Nat} (deep : options.maxDepth = room + 1) :
    ((parseTokens text.whole options).2.entries = [] ∧
        ∃ function, (parseTokens text.whole options).1.items = [.function function] ∧
          function.IsJust statement) ↔
      Grammar.ReadsUpTo room (text.inside options) statement [⟨text.close, []⟩] := by
  obtain ⟨behind, kinds⟩ := text.kinds_start options
  have isWord : (text.start options).cursor.peek.kind = .keyword .functionKw :=
    (peek_of_kinds kinds).1
  have plain : (text.start options).cursor.peek.kind ∉ Grammar.headWords := by
    rw [isWord]
    decide
  have more : (text.start options).cursor.peek.kind ≠ .endOfFile := by
    rw [isWord]
    exact nofun
  rw [← text.definition_iff, ← deep]
  constructor
  · rintro ⟨nothing, function, isOnly, isJust⟩
    obtain ⟨later, ran, clean, atEnd⟩ := (parseTokens_one_iff plain more).mp ⟨nothing, isOnly⟩
    exact ⟨function, later, ran, isJust, clean, atEnd⟩
  · rintro ⟨function, later, ran, isJust, clean, atEnd⟩
    obtain ⟨nothing, isOnly⟩ := (parseTokens_one_iff plain more).mpr ⟨later, ran, clean, atEnd⟩
    exact ⟨nothing, function, isOnly, isJust⟩

end FunctionText

/-- A statement is read alone exactly if it is all that is read of the body of a function, one
level of nesting more being allowed for. -/
theorem statement_iff_parseTokens (text : FunctionText) {behind : List Token}
    (ends : EndsFile behind) (options : Options) (statement : Stmt) :
    (∃ later, Grammar.statement options.maxDepth (.ofTokens (text.tokens ++ behind) [] options) =
        .ok statement later ∧ later.cursor.ahead = [] ∧ later.diagnostics.entries = []) ↔
      (parseTokens text.whole options.deeper).2.entries = [] ∧
        ∃ function, (parseTokens text.whole options.deeper).1.items = [.function function] ∧
          function.IsJust statement := by
  rw [text.parseTokens_iff rfl, text.readsUpTo_inside, Grammar.readsUpTo_end ends,
    ← text.slots_close]
  constructor
  · exact Grammar.ReadsUpTo.across text.read text.noEnd ends.halting text.halting
  · exact Grammar.ReadsUpTo.across text.read text.noEnd text.halting ends.halting

/-- `function f() { return; }` -/
def returnText : FunctionText where
  opening := [⟨.keyword .functionKw, "function", ⟨0, 8, 1, 1⟩⟩, ⟨.identifier, "f", ⟨9, 10, 1, 10⟩⟩,
    ⟨.symbol .leftParen, "(", ⟨10, 11, 1, 11⟩⟩, ⟨.symbol .rightParen, ")", ⟨11, 12, 1, 12⟩⟩,
    ⟨.symbol .leftBrace, "\x7b", ⟨13, 14, 1, 14⟩⟩]
  tokens := [⟨.keyword .returnKw, "return", ⟨15, 21, 1, 16⟩⟩,
    ⟨.symbol .semicolon, ";", ⟨21, 22, 1, 22⟩⟩]
  close := ⟨.symbol .rightBrace, "\x7d", ⟨23, 24, 1, 24⟩⟩
  rest := []
  header := rfl
  read := by decide
  noEnd := by decide
  closes := rfl
  ends := .inl rfl

theorem statement_iff_parseTokens_returnText :
    (parseTokens returnText.whole { maxDepth := 65 }).2.entries = [] ∧
      ∃ function, (parseTokens returnText.whole { maxDepth := 65 }).1.items =
        [.function function] ∧ function.IsJust (.returns [] ⟨15, 22, 1, 16⟩) :=
  (statement_iff_parseTokens returnText (.inl rfl : EndsFile []) {} _).mp ⟨_, rfl, rfl, rfl⟩

end ServiceLang
