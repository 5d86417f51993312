import ServiceLang.Proofs.RereadingStmt

set_option autoImplicit false

/-! Joins read again. The count of a join is written in decimal digits, and the word
in front of it as `some` even where it was `any`. -/

namespace ServiceLang.Grammar

open Step
open Word (listed inParens inBraces inBrackets inAngles behind)

variable {calm : Parser → Prop}

/-! ### Counts -/

theorem isDigit_of_mem_toString {count : Nat} {char : Char} (member : char ∈ (toString count).toList) :
    isDigit char = true := by
  have digits : (toString count).toList = Nat.toDigits 10 count := Nat.toList_repr
  rw [digits] at member
  exact Nat.isDigit_of_mem_toDigits (by decide) (by decide) member

/-- A count that fits is read as it is written. -/
theorem workerCount?_toString {count : Nat} (fits : count < UInt32.size) :
    workerCount? (toString count) = some count := by
  have digits : (toString count).toList = Nat.toDigits 10 count := Nat.toList_repr
  have allDigits : (Nat.toDigits 10 count).any (fun char => !isDigit char) = false := by
    rw [List.any_eq_false]
    intro char member
    rw [@isDigit_of_mem_toString count char (by rwa [digits])]
    simp
  have value : (Nat.toDigits 10 count).foldl
      (fun count char => 10 * count + (char.toNat - '0'.toNat)) 0 = count := by
    rw [← Nat.ofDigitChars_eq_foldl, Nat.ofDigitChars_toDigits (by decide) (by decide)]
  have nonempty : (Nat.toDigits 10 count).isEmpty = false := by
    simp [Nat.toDigits_ne_nil]
  rw [workerCount?, digits]
  split
  · rename_i rest signed
    have sign := @isDigit_of_mem_toString count '+'
      (by rw [digits, signed]; exact List.mem_cons_self)
    exact absurd sign (by decide)
  · simp only [allDigits, value, nonempty, Bool.or_false, Bool.false_eq_true, if_false, if_pos fits]

theorem lt_of_workerCount? {text : String} {count : Nat} (known : workerCount? text = some count) :
    count < UInt32.size := by
  simp only [workerCount?, Option.ite_none_left_eq_some, Option.ite_none_right_eq_some] at known
  obtain ⟨-, fits, is⟩ := known
  cases is
  exact fits

/-! ### Conditions -/

def namesWritten (names : List Identifier) : List Word :=
  listed (names.map fun worker => [.name worker])

theorem workerNames_reads [Calm calm] :
    Reads calm workerNames (List.map Identifier.erased) namesWritten :=
  .ofCheck (by simp) (.commaSeparated .expectIdentifier .identifier) (.pure rfl rfl)

theorem firstOf_ok {word : Token} {condition : JoinCondition} {parser later : Parser}
    (ran : firstOf word parser = .ok condition later) :
    ∃ count names span, parser.cursor.peek.kind = .integer ∧ count < UInt32.size ∧
      workerNames parser.advance = .ok names later ∧ condition = .first count names span := by
  obtain ⟨number, between, ranNumber, ran⟩ := bind_ok ran
  obtain ⟨here, rfl, rfl⟩ := expect_ok ranNumber
  cases known : workerCount? parser.cursor.peek.lexeme with
  | none =>
      simp only [known] at ran
      exact absurd ran fail_ne_ok
  | some count =>
      simp only [known] at ran
      obtain ⟨names, last, ranNames, ran⟩ := bind_ok ran
      cases ran
      exact ⟨count, names, _, here, lt_of_workerCount? known, ranNames, rfl⟩

theorem firstOf_of_words {word : Token} {count : Nat} (fits : count < UInt32.size)
    {parser later : Parser} {rest : List Word} {names : List Identifier}
    (ahead : parser.words = ⟨.integer, toString count⟩ :: rest)
    (ran : workerNames parser.advance = .ok names later) :
    firstOf word parser = .ok (.first count names (later.cursor.spanFrom word.span)) later := by
  have here : parser.cursor.peek.kind = .integer := Parser.kind_peek ahead
  have text : parser.cursor.peek.lexeme = toString count := by
    have same := Parser.word_peek ahead
    rw [Token.word, Word.normal, here] at same
    exact (Word.mk.inj same).2
  rw [firstOf, bind_of_ok (expect_of_kind here)]
  simp only [text, workerCount?_toString fits]
  rw [bind_of_ok ran, look_bind (spanFrom_eq _ _), pure_eq]

theorem joinCondition_eq : joinCondition = (do
    let word ← advance
    if word.kind = .keyword .someKw ∨ word.kind = .keyword .anyKw then firstOf word
    else if word.kind = .keyword .allKw then everyOf word
    else fail (wrongToken word "'some' or 'all'")) := by
  refine congrArg (fun next => advance >>= next) (funext fun word => ?_)
  split <;> simp_all

/-- A join condition starts with a word that tells its form. -/
theorem joinCondition_ok {condition : JoinCondition} {parser later : Parser}
    (ran : joinCondition parser = .ok condition later) :
    (∃ count names span,
      (parser.cursor.peek.kind = .keyword .someKw ∨ parser.cursor.peek.kind = .keyword .anyKw) ∧
      parser.advance.cursor.peek.kind = .integer ∧ count < UInt32.size ∧
      workerNames parser.advance.advance = .ok names later ∧
      condition = .first count names span) ∨
    ∃ names span, parser.cursor.peek.kind = .keyword .allKw ∧
      workerNames parser.advance = .ok names later ∧ condition = .every names span := by
  rw [joinCondition_eq, bind_of_ok (advance_eq parser)] at ran
  by_cases counted : parser.cursor.peek.kind = .keyword .someKw ∨
      parser.cursor.peek.kind = .keyword .anyKw
  · rw [if_pos counted] at ran
    obtain ⟨count, names, span, number, fits, ranNames, is⟩ := firstOf_ok ran
    exact .inl ⟨count, names, span, counted, number, fits, ranNames, is⟩
  · rw [if_neg counted] at ran
    by_cases every : parser.cursor.peek.kind = .keyword .allKw
    · rw [if_pos every] at ran
      obtain ⟨names, last, ranNames, ran⟩ := bind_ok ran
      cases ran
      exact .inr ⟨names, _, every, ranNames, rfl⟩
    · rw [if_neg every] at ran
      exact absurd ran fail_ne_ok

/-! ### The head of a join -/

def joinHead : Step (Token × Option JoinCondition) := do
  let word ← expectKeyword .joinKw
  return (word, ← bracketedCondition)

def SameThree (left right : List Kind) : Prop :=
  left.take 3 = right.take 3

theorem startsJoinCondition_take (kinds : List Kind) :
    startsJoinCondition kinds = startsJoinCondition (kinds.take 3) := by
  match kinds with
  | [] | [_] | [_, _] | [_, _, _] => rfl
  | first :: second :: third :: fourth :: rest =>
      simp only [List.take_succ_cons, List.take_zero]
      unfold startsJoinCondition
      split
      case h_4 => split <;> simp_all
      all_goals simp_all

theorem countedJoins_join {kinds : List Kind} (uncounted : ¬startsJoinCondition kinds = true) :
    countedJoins (.keyword .joinKw :: kinds) = .keyword .joinKw :: countedJoins kinds := by
  rw [countedJoins]
  rintro rest - rfl
  exact uncounted rfl

structure HeadReads (calm : Parser → Prop) (parser : Parser) (condition : JoinCondition)
    (later : Parser) : Prop where
  normal : ∀ word ∈ condition.written, word.normal = word
  tally : (countedJoins (.keyword .joinKw :: parser.cursor.kinds)).Perm
    (.keyword .joinKw :: (inParens condition.written).map Word.kind ++
      countedJoins later.cursor.kinds)
  again : ∀ other rest, calm other → other.words = inParens condition.written ++ rest →
    ∃ found last, bracketedCondition other = .ok (some found) last ∧ calm last ∧
      found.erased = condition.erased ∧ last.words = rest

theorem leftParen_of_startsJoinCondition {parser : Parser}
    (starts : startsJoinCondition parser.cursor.kinds = true) :
    parser.cursor.peek.kind = .symbol .leftParen := by
  rw [Cursor.kind_peek]
  unfold startsJoinCondition at starts
  split at starts
  case h_4 => cases starts
  all_goals
    rename_i kinds
    rw [kinds]
    rfl

theorem bracketedCondition_of_ok {parser last : Parser} {condition : JoinCondition}
    (starts : startsJoinCondition parser.cursor.kinds = true)
    (ran : joinCondition parser.advance = .ok condition last)
    (closes : last.cursor.peek.kind = .symbol .rightParen) :
    bracketedCondition parser = .ok (some condition) last.advance := by
  rw [bracketedCondition, look_bind (isJoinCondition_eq parser), if_pos starts, expectSymbol,
    bind_of_ok (expect_of_kind (leftParen_of_startsJoinCondition starts)), bind_of_ok ran,
    expectSymbol, bind_of_ok (expect_of_kind closes), pure_eq]

/-- The parser behind some words that are known. -/
theorem Parser.words_of_cons {parser : Parser} {word : Word} {rest : List Word}
    (ahead : parser.words = word :: rest) : parser.advance.words = rest := by
  rw [Parser.words_advance, ahead, List.tail_cons]

section Quiet

variable [Quiet calm]

theorem closedNames_reads : Rereads calm True Agree (fun _ => BothStart (.symbol .rightParen)) []
    workerNames workerNames (List.map Identifier.erased) namesWritten :=
  workerNames_reads.strengthenBehind fun _ _ _ => .of_bothStart rfl

theorem bothStart_of_closing {later : Parser} {rest : List Word}
    (closes : later.cursor.peek.kind = .symbol .rightParen) :
    BothStart (.symbol .rightParen) later.cursor.kinds
      ((Word.symbol .rightParen :: rest).map Word.kind) := by
  refine ⟨?_, rfl⟩
  rw [kinds_of_peek closes (by simp)]
  rfl

theorem headReads_of_first {parser later : Parser} {count : Nat} {names : List Identifier}
    {span : Span} (opens : parser.cursor.peek.kind = .symbol .leftParen)
    (word : parser.advance.cursor.peek.kind = .keyword .someKw ∨
      parser.advance.cursor.peek.kind = .keyword .anyKw)
    (number : parser.advance.advance.cursor.peek.kind = .integer) (fits : count < UInt32.size)
    (ran : workerNames parser.advance.advance.advance = .ok names later)
    (closes : later.cursor.peek.kind = .symbol .rightParen) (quiet : calm later) :
    HeadReads calm parser (.first count names span) later.advance := by
  obtain ⟨added, whole, reread⟩ := closedNames_reads ran quiet
  obtain rfl : namesWritten names = added := whole
  have written : (JoinCondition.first count names span).written =
      .keyword .someKw :: ⟨.integer, toString count⟩ :: namesWritten names := rfl
  refine ⟨?_, ?_, ?_⟩
  · rw [written]
    intro word member
    rcases List.mem_cons.mp member with rfl | member
    · rfl
    · rcases List.mem_cons.mp member with rfl | member
      · rfl
      · exact reread.normal word member
  · have names := reread.tally
    rw [kinds_of_peek closes (by simp), countedJoins_cons (by simp)] at names
    have kinds : parser.cursor.kinds = .symbol .leftParen ::
        parser.advance.cursor.peek.kind :: .integer ::
          parser.advance.advance.advance.cursor.kinds := by
      have inside : parser.advance.cursor.kinds = _ :: parser.advance.advance.cursor.kinds :=
        kinds_of_peek rfl (by rcases word with word | word <;> simp [word])
      rw [kinds_of_peek opens (by simp), inside, kinds_of_peek number (by simp)]
    rw [kinds, written]
    rcases word with word | word <;> rw [word] <;>
      simpa [countedJoins, inParens, Word.symbol, Word.keyword] using names
  · intro other rest calmOther ahead
    have words : other.words = .symbol .leftParen :: .keyword .someKw ::
        ⟨.integer, toString count⟩ :: (namesWritten names ++ .symbol .rightParen :: rest) := by
      rw [ahead, written]
      simp [inParens]
    have starts : startsJoinCondition other.cursor.kinds = true := by
      rw [other.kinds_eq, words]
      rfl
    have behindParen := Parser.words_of_cons words
    have behindWord := Parser.words_of_cons behindParen
    have calmNames : calm other.advance.advance.advance :=
      Calm.advance.mpr (Calm.advance.mpr (Calm.advance.mpr calmOther))
    obtain ⟨found, last, ranNames, calmLast, same, aheadLast⟩ :=
      reread.again _ _ calmNames (Parser.words_of_cons behindWord) (bothStart_of_closing closes)
    have ranCondition : joinCondition other.advance =
        .ok (.first count found (last.cursor.spanFrom other.advance.cursor.peek.span)) last := by
      rw [joinCondition_eq, bind_of_ok (advance_eq _), if_pos (.inl (Parser.kind_peek behindParen))]
      exact firstOf_of_words fits behindWord ranNames
    refine ⟨_, _, bracketedCondition_of_ok starts ranCondition (Parser.kind_peek aheadLast),
      Calm.advance.mpr calmLast, ?_, Parser.words_of_cons aheadLast⟩
    simp only [JoinCondition.erased, same]

theorem headReads_of_every {parser later : Parser} {names : List Identifier} {span : Span}
    (opens : parser.cursor.peek.kind = .symbol .leftParen)
    (word : parser.advance.cursor.peek.kind = .keyword .allKw)
    (ran : workerNames parser.advance.advance = .ok names later)
    (closes : later.cursor.peek.kind = .symbol .rightParen) (quiet : calm later) :
    HeadReads calm parser (.every names span) later.advance := by
  obtain ⟨added, whole, reread⟩ := closedNames_reads ran quiet
  obtain rfl : namesWritten names = added := whole
  have written : (JoinCondition.every names span).written =
      .keyword .allKw :: namesWritten names := rfl
  refine ⟨?_, ?_, ?_⟩
  · rw [written]
    intro word member
    rcases List.mem_cons.mp member with rfl | member
    · rfl
    · exact reread.normal word member
  · have names := reread.tally
    rw [kinds_of_peek closes (by simp), countedJoins_cons (by simp)] at names
    have kinds : parser.cursor.kinds = .symbol .leftParen :: .keyword .allKw ::
        parser.advance.advance.cursor.kinds := by
      rw [kinds_of_peek opens (by simp), kinds_of_peek word (by simp)]
    rw [kinds, written]
    simpa [countedJoins, inParens, Word.symbol, Word.keyword] using names
  · intro other rest calmOther ahead
    have words : other.words = .symbol .leftParen :: .keyword .allKw ::
        (namesWritten names ++ .symbol .rightParen :: rest) := by
      rw [ahead, written]
      simp [inParens]
    have starts : startsJoinCondition other.cursor.kinds = true := by
      rw [other.kinds_eq, words]
      rfl
    have behindParen := Parser.words_of_cons words
    have every : other.advance.cursor.peek.kind = .keyword .allKw := Parser.kind_peek behindParen
    have calmNames : calm other.advance.advance :=
      Calm.advance.mpr (Calm.advance.mpr calmOther)
    obtain ⟨found, last, ranNames, calmLast, same, aheadLast⟩ :=
      reread.again _ _ calmNames (Parser.words_of_cons behindParen) (bothStart_of_closing closes)
    have ranCondition : joinCondition other.advance =
        .ok (.every found (last.cursor.spanFrom other.advance.cursor.peek.span)) last := by
      rw [joinCondition_eq, bind_of_ok (advance_eq _), if_neg (by simp [every]), if_pos every,
        everyOf, bind_of_ok ranNames, look_bind (spanFrom_eq _ _), pure_eq]
    refine ⟨_, _, bracketedCondition_of_ok starts ranCondition (Parser.kind_peek aheadLast),
      Calm.advance.mpr calmLast, ?_, Parser.words_of_cons aheadLast⟩
    simp only [JoinCondition.erased, same]

theorem headReads_of_ok {parser later : Parser} {condition : JoinCondition}
    (ran : bracketedCondition parser = .ok (some condition) later) (quiet : calm later) :
    HeadReads calm parser condition later := by
  rw [bracketedCondition, look_bind (isJoinCondition_eq parser)] at ran
  split at ran
  · obtain ⟨_, _, ranOpen, ran⟩ := bind_ok ran
    obtain ⟨opens, rfl, rfl⟩ := expect_ok ranOpen
    obtain ⟨found, between, ranCondition, ran⟩ := bind_ok ran
    obtain ⟨_, _, ranClose, ran⟩ := bind_ok ran
    obtain ⟨closes, rfl, rfl⟩ := expect_ok ranClose
    cases ran
    have calmHere : calm between := Calm.advance.mp quiet
    rcases joinCondition_ok ranCondition with
      ⟨count, names, span, word, number, fits, ranNames, rfl⟩ | ⟨names, span, word, ranNames, rfl⟩
    · exact headReads_of_first opens word number fits ranNames closes calmHere
    · exact headReads_of_every opens word ranNames closes calmHere
  · cases ran

/-- What may stand behind the head of a join. Without a condition, what follows must
not look like one. -/
def behindHead (found : Token × Option JoinCondition) : List Kind → List Kind → Prop :=
  if found.2.isSome then Anything else SameThree

theorem joinHead_reads : Rereads calm False Agree behindHead [] joinHead joinHead
    (fun found => found.2.map JoinCondition.erased)
    (fun found => .keyword .joinKw ::
      behind [] (fun condition => inParens condition.written) found.2) := by
  intro parser value later ran quiet
  obtain ⟨word, between, ranWord, ran⟩ := bind_ok ran
  obtain ⟨here, rfl, rfl⟩ := expect_ok ranWord
  obtain ⟨condition, last, ranCondition, ran⟩ := bind_ok ran
  cases ran
  have kinds := kinds_of_peek here (by simp)
  have opening (other : Parser) (rest : List Word)
      (ahead : other.words = .keyword .joinKw :: rest) :
      expectKeyword .joinKw other = .ok other.cursor.peek other.advance :=
    expect_of_kind (Parser.kind_peek ahead)
  cases condition with
  | none =>
      rw [bracketedCondition, look_bind (isJoinCondition_eq parser.advance)] at ranCondition
      split at ranCondition
      · obtain ⟨_, _, -, ranCondition⟩ := bind_ok ranCondition
        obtain ⟨_, _, -, ranCondition⟩ := bind_ok ranCondition
        obtain ⟨_, _, -, ranCondition⟩ := bind_ok ranCondition
        cases ranCondition
      · rename_i uncounted
        cases ranCondition
        refine ⟨[.keyword .joinKw], rfl, Calm.advance.mp quiet, by simp; rfl, False.elim, ?_, ?_, ?_⟩
        · rw [kinds, countedJoins_join uncounted]
          exact .refl _
        · intro rest _
          exact .of_bothStart rfl ⟨by rw [kinds]; rfl, rfl⟩
        · intro other rest calmOther ahead follows
          have aheadRest : other.advance.words = rest := Parser.words_of_cons ahead
          have same : startsJoinCondition other.advance.cursor.kinds =
              startsJoinCondition parser.advance.cursor.kinds := by
            have three : SameThree parser.advance.cursor.kinds (rest.map Word.kind) := follows
            rw [SameThree, ← aheadRest, ← Parser.kinds_eq] at three
            rw [startsJoinCondition_take, startsJoinCondition_take parser.advance.cursor.kinds, three]
          refine ⟨(other.cursor.peek, none), other.advance, ?_, Calm.advance.mpr calmOther, rfl,
            aheadRest⟩
          rw [joinHead, bind_of_ok (opening other rest ahead), bracketedCondition, bind_assoc,
            look_bind (isJoinCondition_eq other.advance), if_neg (by rwa [same])]
          rfl
  | some condition =>
      have reads := headReads_of_ok ranCondition quiet
      refine ⟨_, rfl, ?_, ?_, False.elim, ?_, ?_, ?_⟩
      · exact Calm.advance.mp (calm_of_ok bracketedCondition_orderly ranCondition quiet)
      · intro word member
        simp only [behind, inParens, List.nil_append, List.cons_append, List.mem_cons,
          List.mem_append, List.not_mem_nil, or_false] at member
        rcases member with rfl | rfl | member | rfl
        · rfl
        · rfl
        · exact reads.normal word member
        · rfl
      · rw [kinds]
        exact reads.tally
      · intro rest _
        exact .of_bothStart rfl ⟨by rw [kinds]; rfl, rfl⟩
      · intro other rest calmOther ahead _
        obtain ⟨found, last, ranOther, calmLast, same, aheadLast⟩ :=
          reads.again other.advance rest (Calm.advance.mpr calmOther) (Parser.words_of_cons ahead)
        refine ⟨(other.cursor.peek, some found), last, ?_, calmLast, congrArg some same, aheadLast⟩
        rw [joinHead, bind_of_ok (opening other _ ahead), bind_of_ok ranOther, pure_eq]

section Parts

variable {parts : StmtParts} (reads : parts.AreReread calm)

include reads

/-! ### The clauses of a fork -/

theorem clauseBinding_reads : ReadsClosed calm True (clauseBinding parts)
    (fun found => (found.1.erased, found.2.erased))
    (fun found => bindingWritten found.1 found.2) := by
  refine .bind (.symbol _ rfl) fun _ _ _ => .bind reads.exprs.typeName fun type _ same =>
    .bind .identifier fun name _ sameName => .bind (.symbol _ rfl) fun _ _ _ => .pure ?_ ?_
  · simp [bindingWritten, inParens]
  · rw [same, sameName]

/-- The first three tokens of a binding are told by how it is written. -/
theorem clauseBinding_reads_behindHead (found : Token × Option JoinCondition) :
    Rereads calm False (behindHead found) (fun _ => Anything) [] (clauseBinding parts)
      (clauseBinding parts) (fun found => (found.1.erased, found.2.erased))
      (fun found => bindingWritten found.1 found.2) := by
  intro parser value later ran quiet
  obtain ⟨added, whole, reread⟩ := clauseBinding_reads reads ran quiet
  refine ⟨added, whole, reread.quiet, reread.normal, False.elim, reread.tally, ?_, reread.again⟩
  intro rest _
  rw [behindHead]
  split
  · trivial
  · have long : 3 ≤ (added.map Word.kind).length := by
      obtain ⟨type, name⟩ := value
      obtain rfl : bindingWritten type name = added := whole
      have nonempty := List.length_pos_iff.mpr type.written_ne_nil
      simp only [bindingWritten, inParens, List.length_map, List.length_append, List.length_cons]
      omega
    rw [SameThree, parser.kinds_eq, reread.passed trivial, List.map_append,
      List.take_append_of_le_length long, List.take_append_of_le_length long]

omit reads [Quiet calm] in
theorem joinClause_eq : joinClause parts = (do
    let (word, condition) ← joinHead
    let (type, name) ← clauseBinding parts
    let body ← parts.block
    return ⟨condition, type, name, body, word.span.merge body.span⟩) := by
  simp only [joinClause, joinHead, bind_assoc, pure_bind]

theorem joinClause_reads : ReadsClosed calm False (joinClause parts) Join.erased Join.written := by
  rw [joinClause_eq]
  refine .bind (@joinHead_reads calm _) fun found _ same => .bindAgree
    ((clauseBinding_reads_behindHead reads found).strengthenBehind fun _ _ _ _ => trivial)
    fun binding _ sameBinding => ?_
  refine .bind (block_reads_of_parts reads) fun body _ sameBody => .pure ?_ ?_
  · simp [Join.written]
  · simp only [Prod.mk.injEq] at sameBinding
    simp only [Join.erased, same, sameBinding, sameBody]

theorem timeoutClause_reads :
    ReadsClosed calm False (timeoutClause parts) Timeout.erased Timeout.written := by
  refine .bind (.keyword _ (by simp)) fun _ _ _ => .bind (condition_reads reads.exprs).inexact
    fun timeout _ same => .bindAgree
      ((clauseBinding_reads reads).inexact.strengthenBehind fun _ _ _ _ => trivial)
      fun binding _ sameBinding => ?_
  refine .bind (block_reads_of_parts reads) fun body _ sameBody => .pure ?_ ?_
  · simp [Timeout.written]
  · simp only [Prod.mk.injEq] at sameBinding
    simp only [Timeout.erased, same, sameBinding, sameBody]

theorem forkStatement_reads : ReadsStatement calm (forkStatement parts) := by
  have joins : Rereads calm False Continue (fun _ => Continue) []
      (ifAt (.keyword .joinKw) (joinClause parts)) (ifAt (.keyword .joinKw) (joinClause parts))
      (Option.map Join.erased) (behind [] Join.written) :=
    .ifAt (by simp) (fun _ _ => id)
      ((joinClause_reads reads).strengthenBehind fun _ _ _ _ => trivial)
  have timeouts : Rereads calm False Continue (fun _ => Continue) []
      (ifAt (.keyword .timeoutKw) (timeoutClause parts))
      (ifAt (.keyword .timeoutKw) (timeoutClause parts))
      (Option.map Timeout.erased) (behind [] Timeout.written) :=
    .ifAt (by simp) (fun _ _ => id)
      ((timeoutClause_reads reads).strengthenBehind fun _ _ _ _ => trivial)
  refine .bind (.keyword _ (by simp)) fun _ _ _ => .bind (.symbol _ rfl) fun _ _ _ =>
    .bind (forkWorkers_reads reads) fun workers _ same => .bind .closeBrace fun _ _ _ =>
      .bind joins fun join _ sameJoin => .bind timeouts fun timeout _ sameTimeout =>
        .spanned (fun _ => ?_) fun _ _ => ?_
  · simp [Worker.writtens_eq_flatMap, inBraces, Join.writtenIfAny_eq, Timeout.writtenIfAny_eq]
  · simp only [Stmt.erased, Worker.allErased_eq_map, Join.erasedIfAny_eq, Timeout.erasedIfAny_eq,
      same, sameJoin, sameTimeout]

end Parts

end Quiet

end ServiceLang.Grammar
