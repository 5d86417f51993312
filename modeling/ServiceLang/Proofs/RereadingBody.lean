import ServiceLang.Proofs.RereadingJoin

set_option autoImplicit false

/-! Statements and bodies read again. The parts of a body are written in one order,
statements before workers and without the comments, whatever their order was; so are
the handlers of a transaction. -/

namespace ServiceLang.Grammar

open Step
open Word (listed inParens inBraces inBrackets inAngles behind)

variable {calm : Parser → Prop} [Quiet calm]

section Parts

variable {parts : StmtParts} (reads : parts.AreReread calm)

include reads

/-! ### Try -/

theorem catchClause_reads :
    ReadsClosed calm False (catchClause parts) Catch.erased Catch.written := by
  refine .bind (.keyword _ (by simp)) fun _ _ _ => .bindAgree
    ((clauseBinding_reads reads).inexact.strengthenBehind fun _ _ _ _ => trivial)
    fun binding _ sameBinding => ?_
  refine .bind (block_reads_of_parts reads) fun body _ sameBody => .pure ?_ ?_
  · simp [Catch.written]
  · simp only [Prod.mk.injEq] at sameBinding
    simp only [Catch.erased, sameBinding, sameBody]

omit reads in
/-- A `try` with clauses passes the check again. -/
theorem checkClauses_reads {exact : Prop} {related : List Kind → List Kind → Prop}
    {catches others : List Catch} {finallyBlock otherFinally : Option Block} {span other : Span}
    (same : others.map Catch.erased = catches.map Catch.erased)
    (sameFinally : otherFinally.map Block.erased = finallyBlock.map Block.erased) :
    Rereads calm exact related (fun _ => related) [] (checkClauses catches finallyBlock span)
      (checkClauses others otherFinally other) id (fun _ => []) := by
  have sameChoice : (others.isEmpty && otherFinally.isNone) =
      (catches.isEmpty && finallyBlock.isNone) := by
    have found := congrArg Option.isNone sameFinally
    have noClause : others.isEmpty = catches.isEmpty := by
      cases others <;> cases catches <;> first | rfl | cases same
    rw [Option.isNone_map, Option.isNone_map] at found
    rw [noClause, found]
  intro parser value later ran quiet
  unfold checkClauses at ran
  split at ran
  · cases ran
    exact absurd quiet (Quiet.reported _ _ rfl)
  · rename_i enough
    cases ran
    refine ⟨[], rfl, quiet, by simp, fun _ => rfl, .refl _, fun _ follows => follows, ?_⟩
    intro again rest calmAgain ahead _
    refine ⟨(), again, ?_, calmAgain, rfl, ahead⟩
    rw [checkClauses, sameChoice, if_neg enough]
    rfl

theorem tryStatement_reads : ReadsStatement calm (tryStatement parts) := by
  have catches : Rereads calm False Continue (fun _ => Continue) []
      (whileAt (.keyword .catchKw) (catchClause parts))
      (whileAt (.keyword .catchKw) (catchClause parts)) (List.map Catch.erased)
      (fun catches => catches.flatMap Catch.written) :=
    .whileAt (by simp) (advancing_of_turn (.nextAt (catchClause_eager reads.eager)))
      ((catchClause_reads reads).strengthenBehind fun _ _ _ _ => trivial)
  have finally_ : Rereads calm False Continue (fun _ => Continue) []
      (ifBehind (.keyword .finallyKw) parts.block) (ifBehind (.keyword .finallyKw) parts.block)
      (Option.map Block.erased) (behind [.keyword .finallyKw] Block.written) :=
    .ifBehindKeyword .finallyKw (by simp) (fun _ _ => id)
      ((block_reads_of_parts reads).strengthenBehind fun _ _ _ _ => trivial)
  refine .bind (.keyword _ (by simp)) fun _ _ _ => .bindClosed (block_reads_of_parts reads)
    fun body _ sameBody => .bind catches fun found _ same => .bind finally_
      fun finallyBlock _ sameFinally => .bind (.spanFrom _ _) fun span _ _ =>
        .bind (checkClauses_reads same sameFinally) fun _ _ _ => .pure ?_ ?_
  · simp [Catch.writtens_eq_flatMap, Block.writtenBehind_eq]
  · simp only [Stmt.erased, sameBody, Catch.allErased_eq_map, same, Block.erasedIfAny_eq,
      sameFinally]

/-! ### Transactions -/

end Parts

def Handlers.written (found : Handlers) : List Word :=
  behind [.keyword .abortedKw] Block.written found.aborted ++
    behind [.keyword .committedKw] Block.written found.committed

def Handlers.erased (found : Handlers) : Option Block × Option Block :=
  (found.aborted.map Block.erased, found.committed.map Block.erased)

theorem Handlers.written_set {found : Handlers} {isAborted : Bool} (block : Block)
    (open_ : found.get isAborted = .none) :
    (found.set isAborted block).written.Perm
      (found.written ++ .keyword (handlerWord isAborted) :: block.written) := by
  cases isAborted with
  | true =>
      obtain ⟨aborted, committed⟩ := found
      obtain rfl : aborted = .none := open_
      simp only [Handlers.set, Handlers.written, if_true, behind, List.nil_append]
      exact List.perm_append_comm
  | false =>
      obtain ⟨aborted, committed⟩ := found
      obtain rfl : committed = .none := open_
      simp [Handlers.set, Handlers.written, behind, handlerWord]

structure BlockReads (calm : Parser → Prop) (block : Step Block) (value : Block) : Prop where
  normal : ∀ word ∈ value.written, word.normal = word
  again : ∀ parser rest, calm parser → parser.words = value.written ++ rest →
    ∃ other later, block parser = .ok other later ∧ calm later ∧
      other.erased = value.erased ∧ later.words = rest

theorem nextHandler_ok {parts : StmtParts} {found : Handlers} {parser later : Parser}
    {decision : ForInStep Handlers} (ran : nextHandler parts found parser = .ok decision later)
    (quiet : calm later) :
    decision = .done found ∧ later = parser ∧
        (∀ isAborted, parser.cursor.peek.kind ≠ .keyword (handlerWord isAborted)) ∨
      ∃ isAborted block, decision = .yield (found.set isAborted block) ∧
        parser.cursor.peek.kind = .keyword (handlerWord isAborted) ∧
        found.get isAborted = .none ∧ parts.block parser.advance = .ok block later := by
  have handled {isAborted : Bool}
      (ran : (do return ForInStep.yield (← handler parts isAborted found)) parser =
        EStateM.Result.ok decision later) :
      ∃ block, decision = .yield (found.set isAborted block) ∧
        parser.cursor.peek.kind = .keyword (handlerWord isAborted) ∧
        found.get isAborted = .none ∧ parts.block parser.advance = .ok block later := by
    obtain ⟨next, last, ran, finished⟩ := bind_ok ran
    cases finished
    obtain ⟨word, between, ranWord, ran⟩ := bind_ok ran
    obtain ⟨here, rfl, rfl⟩ := expect_ok ranWord
    obtain ⟨block, last, ranBlock, ran⟩ := bind_ok ran
    split at ran
    · rw [bind_of_ok (report_eq _ _)] at ran
      cases ran
      exact absurd quiet (Quiet.reported _ _ rfl)
    · rename_i first
      cases ran
      exact ⟨block, rfl, here, by simpa using first, ranBlock⟩
  rw [nextHandler, look_bind (check_eq parser _)] at ran
  split at ran
  · obtain ⟨block, found⟩ := handled ran
    exact .inr ⟨true, block, found⟩
  · rename_i notAborted
    rw [look_bind (check_eq parser _)] at ran
    split at ran
    · obtain ⟨block, found⟩ := handled ran
      exact .inr ⟨false, block, found⟩
    · rename_i notCommitted
      cases ran
      refine .inl ⟨rfl, rfl, fun isAborted => ?_⟩
      cases isAborted
      · simpa [handlerWord] using notCommitted
      · simpa [handlerWord] using notAborted

theorem nextHandler_of_block {parts : StmtParts} {found : Handlers} {isAborted : Bool}
    {parser later : Parser} {block : Block}
    (here : parser.cursor.peek.kind = .keyword (handlerWord isAborted))
    (open_ : found.get isAborted = .none) (ran : parts.block parser.advance = .ok block later) :
    nextHandler parts found parser = .ok (.yield (found.set isAborted block)) later := by
  have handled : handler parts isAborted found parser = .ok (found.set isAborted block) later := by
    rw [handler, expectKeyword, bind_of_ok (expect_of_kind here), bind_of_ok ran,
      if_neg (by simp [open_]), pure_eq]
  rw [nextHandler, look_bind (check_eq parser _)]
  cases isAborted with
  | true =>
      rw [if_pos (by simp [here, handlerWord]), bind_of_ok handled, pure_eq]
  | false =>
      rw [if_neg (by simp [here, handlerWord]), look_bind (check_eq parser _),
        if_pos (by simp [here, handlerWord]), bind_of_ok handled, pure_eq]

/-- One handler, or none, is read again in its place. -/
theorem loop_of_handler {parts : StmtParts} (advancing : Advancing (nextHandler parts))
    (isAborted : Bool) (found : Handlers) {block? : Option Block}
    (reads : ∀ block, block? = some block → BlockReads calm parts.block block)
    (open_ : found.get isAborted = .none) {parser : Parser} {rest : List Word}
    (quiet : calm parser)
    (ahead : parser.words =
      behind [.keyword (handlerWord isAborted)] Block.written block? ++ rest) :
    ∃ next later, loop (nextHandler parts) found parser = loop (nextHandler parts) next later ∧
      calm later ∧ later.words = rest ∧ (next.get isAborted).map Block.erased =
        block?.map Block.erased ∧ next.get (!isAborted) = found.get (!isAborted) := by
  cases block? with
  | none => exact ⟨found, parser, rfl, quiet, ahead, by rw [open_], rfl⟩
  | some block =>
      obtain ⟨other, later, ran, calmLater, same, aheadLater⟩ :=
        (reads block rfl).again parser.advance rest (Calm.advance.mpr quiet)
          (Parser.words_of_cons ahead)
      have turned := nextHandler_of_block (Parser.kind_peek ahead) open_ ran
      refine ⟨_, later, loop_of_yield turned (advancing _ _ _ _ turned), calmLater, aheadLater, ?_⟩
      cases isAborted <;> exact ⟨congrArg some same, rfl⟩

structure HandlersRead (calm : Parser → Prop) (parts : StmtParts) (start : Parser)
    (found : Handlers) (parser : Parser) : Prop where
  tally : (countedJoins start.cursor.kinds).Perm
    (found.written.map Word.kind ++ countedJoins parser.cursor.kinds)
  blocks : ∀ isAborted block, found.get isAborted = some block →
    BlockReads calm parts.block block

theorem Handlers.get_set {found : Handlers} {isAborted other : Bool} {block : Block} :
    (found.set isAborted block).get other =
      if other = isAborted then some block else found.get other := by
  cases isAborted <;> cases other <;> rfl

theorem Handlers.normal_of_blocks (found : Handlers)
    (normal : ∀ isAborted block, found.get isAborted = some block →
      ∀ word ∈ block.written, word.normal = word) :
    ∀ word ∈ found.written, word.normal = word := by
  have one (isAborted : Bool) : ∀ word ∈ behind [.keyword (handlerWord isAborted)] Block.written
      (found.get isAborted), word.normal = word := by
    intro word member
    cases block? : found.get isAborted with
    | none =>
        rw [block?] at member
        cases member
    | some block =>
        rw [block?] at member
        rcases List.mem_cons.mp member with rfl | member
        · rfl
        · exact normal isAborted block block? word member
  intro word member
  rcases List.mem_append.mp member with member | member
  · exact one true word member
  · exact one false word member

section Parts

variable {parts : StmtParts} (reads : parts.AreReread calm)

include reads

omit [Quiet calm] in
theorem blockReads_of_ok {parser later : Parser} {block : Block}
    (ran : parts.block parser = .ok block later) (quiet : calm later) :
    BlockReads calm parts.block block ∧
      (countedJoins parser.cursor.kinds).Perm
        (block.written.map Word.kind ++ countedJoins later.cursor.kinds) := by
  obtain ⟨added, whole, reread⟩ := block_reads_of_parts reads ran quiet
  obtain rfl : block.written = added := whole
  refine ⟨⟨reread.normal, fun other rest calmOther ahead => ?_⟩, reread.tally⟩
  exact reread.again other rest calmOther ahead trivial

omit [Quiet calm] in
theorem handlersRead_set {start parser later : Parser} {found : Handlers} {isAborted : Bool}
    {block : Block} (before : HandlersRead calm parts start found parser)
    (here : parser.cursor.peek.kind = .keyword (handlerWord isAborted))
    (open_ : found.get isAborted = .none) (ran : parts.block parser.advance = .ok block later)
    (quiet : calm later) : HandlersRead calm parts start (found.set isAborted block) later := by
  obtain ⟨blockReads, tally⟩ := blockReads_of_ok reads ran quiet
  have notJoin : Kind.keyword (handlerWord isAborted) ≠ .keyword .joinKw := by
    cases isAborted <;> simp [handlerWord]
  refine ⟨?_, ?_⟩
  · have set := (Handlers.written_set block open_).map Word.kind
    have sofar := before.tally
    rw [kinds_of_peek here (by simp), countedJoins_cons notJoin] at sofar
    rw [List.map_append] at set
    refine sofar.trans (.trans ?_ (set.append_right _).symm)
    rw [List.append_assoc]
    exact ((tally.cons _).append_left _)
  · intro other value found
    rw [Handlers.get_set] at found
    split at found
    · cases found
      exact blockReads
    · exact before.blocks other value found

/-- Handlers in any order are read again with that of `aborted` first. -/
theorem handlers_reads : Rereads calm False Anything (fun _ => Continue) [] (handlers parts)
    (handlers parts) Handlers.erased Handlers.written := by
  intro parser final later ran quiet
  have turns (found : Handlers) : Turn (fun _ => True) (nextHandler parts found) :=
    nextHandler_turn reads.eager found
  have start : HandlersRead calm parts parser .none parser :=
    ⟨.refl _, fun isAborted _ found => by cases isAborted <;> cases found⟩
  have kept {state next : Handlers} {here behind : Parser}
      (before : HandlersRead calm parts parser state here)
      (ran : nextHandler parts state here = .ok (.yield next) behind) (quiet : calm behind) :
      HandlersRead calm parts parser next behind := by
    rcases nextHandler_ok ran quiet with ⟨done, -⟩ | ⟨isAborted, block, is, word, open_, ranBlock⟩
    · cases done
    · cases is
      exact handlersRead_set reads before word open_ ranBlock quiet
  obtain ⟨last, before, ⟨tally, blocks⟩, ended⟩ := before_lastTurn turns kept start ran quiet
  rcases nextHandler_ok ended quiet with ⟨is, rfl, ends⟩ | ⟨isAborted, block, is, -⟩
  · cases is
    refine ⟨final.written, rfl, ?_, ?_, False.elim, tally, fun _ _ => trivial, ?_⟩
    · exact calm_of_ok (handlers_orderly reads.eager) ran quiet
    · exact final.normal_of_blocks fun isAborted block found => (blocks isAborted block found).normal
    · intro other rest calmOther ahead follows
      rw [Handlers.written, List.append_assoc] at ahead
      obtain ⟨first, between, toFirst, calmFirst, aheadFirst, aborted, kept⟩ :=
        loop_of_handler (advancing_of_turn turns) true .none (blocks true) rfl calmOther ahead
      obtain ⟨second, last, toSecond, calmSecond, aheadSecond, committed, keptAgain⟩ :=
        loop_of_handler (advancing_of_turn turns) false first (blocks false) kept calmFirst
          aheadFirst
      have lastTurn : nextHandler parts second last = .ok (.done second) last := by
        have notHere (isAborted : Bool) :
            last.cursor.peek.kind ≠ .keyword (handlerWord isAborted) := by
          intro found
          have continues : (Kind.keyword (handlerWord isAborted)).continues = true := by
            cases isAborted <;> rfl
          refine ends isAborted ((kind_peek_iff (by simp)).mpr (follows _ continues ?_))
          rw [← aheadSecond, ← Parser.kinds_eq]
          exact (kind_peek_iff (by simp)).mp found
        rw [nextHandler, look_bind (check_eq last _), if_neg (by simpa [handlerWord] using notHere true),
          look_bind (check_eq last _), if_neg (by simpa [handlerWord] using notHere false), pure_eq]
      refine ⟨second, last, ?_, calmSecond, ?_, aheadSecond⟩
      · exact (toFirst.trans toSecond).trans (loop_of_done lastTurn)
      · have sameAborted : second.aborted = first.aborted := keptAgain
        rw [Handlers.erased, sameAborted]
        exact Prod.ext aborted committed
  · cases is

theorem transactionStatement_reads : ReadsStatement calm (transactionStatement parts) := by
  refine .bind (.keyword _ (by simp)) fun _ _ _ => .bind (block_reads_of_parts reads)
    fun body _ sameBody => .bind (handlers_reads reads) fun found _ same => .spanned (fun _ => ?_)
      fun _ _ => ?_
  · simp [Handlers.written, Block.writtenBehind_eq]
  · simp only [Handlers.erased, Prod.mk.injEq] at same
    simp only [Stmt.erased, sameBody, Block.erasedIfAny_eq, same]

/-! ### Transformations -/

theorem transformStatement_reads :
    ReadsClosed calm False (transformStatement parts) Stmt.erased Stmt.written := by
  have bodies : ReadsClosed calm False (parts.body .transform) CallableBody.erased
      (fun body => body.toBlock.written) :=
    (reads.body .transform).writtenAs fun ran =>
      written_toBlock (reads.noWorkers (by simp) ran)
  refine .bind (.keyword _ (by simp)) fun _ _ _ => .bind bodies fun body _ same => .pure (by simp) ?_
  simp only [Stmt.erased, erased_toBlock same]

theorem transformVarDef_reads :
    ReadsClosed calm True (transformVarDef parts) Stmt.erased Stmt.written := by
  refine .bind reads.exprs.typeName fun type _ same => .bind .identifier fun name _ sameName =>
    .bind (.symbol _ rfl) fun _ _ _ => .bind (anyExpr_reads reads.exprs) fun init _ sameInit =>
      ended_reads (fun _ => ?_) fun _ _ => ?_
  · simp [VarDef.written, behind]
  · simp only [Stmt.erased, VarDef.erased, same, sameName, Option.map, sameInit]

theorem transformAssignment_reads :
    ReadsClosed calm True (transformAssignment parts) Stmt.erased Stmt.written := by
  refine .bind .peek fun _ _ _ => .bind (references_reads reads.exprs) fun targets _ same =>
    .bind (.symbol _ rfl) fun _ _ _ => .bind (anyExpr_reads reads.exprs) fun value _ sameValue =>
      ended_reads (fun _ => ?_) fun _ _ => ?_
  · simp
  · simp only [Stmt.erased, same, sameValue]

theorem plainTransformItem_reads : ReadsClosed calm True
    (do
      if ← isVarDef then transformVarDef parts
      else if ← check .identifier then transformAssignment parts
      else notAStatement) Stmt.erased Stmt.written := by
  refine .choose (fun parser => startsVarDef (parser.options.maxDepth + 1) parser.cursor.kinds)
    (fun parser => look_bind (isVarDef_eq parser)) (fun parser => look_bind (isVarDef_eq parser))
    ?_ (transformVarDef_reads reads)
    (.ofCheck (by simp) (transformAssignment_reads reads) (.failAt _))
  intro parser value later added other rest ran whole passed ahead quiet calmOther _ _
  have closed : Gives (do
      if ← isVarDef then transformVarDef parts
      else if ← check .identifier then transformAssignment parts
      else notAStatement) fun statement => .symbol .semicolon ∈ statement.written :=
    .bind fun _ => .ite
      (.bind fun _ => .bind fun _ => .bind fun _ => .bind fun _ => .bind fun _ => .bind fun _ =>
        .pure (by simp [VarDef.written]))
      (.bind fun _ => .ite
        (.bind fun _ => .bind fun _ => .bind fun _ => .bind fun _ => .bind fun _ => .bind fun _ =>
          .pure (by simp))
        (.failAt _))
  have member := List.mem_map_of_mem (f := Word.kind) (closed ran)
  rw [whole, List.nil_append] at member
  have here : parser.cursor.kinds = added.map Word.kind ++ later.words.map Word.kind := by
    rw [parser.kinds_eq, passed trivial, List.map_append]
  have there : other.cursor.kinds = added.map Word.kind ++ rest.map Word.kind := by
    rw [other.kinds_eq, ahead, List.map_append]
  exact startsVarDef_again (.inr rfl) member here there quiet calmOther

theorem transformItem_reads :
    ReadsClosed calm False (transformItem parts) Stmt.erased Stmt.written :=
  .ofCheck (by simp) (transformStatement_reads reads) (plainTransformItem_reads reads).inexact

/-! ### Statements -/

theorem statementWith_reads : ReadsStatement calm (statementWith parts) := by
  have open_ {rule : Step Stmt} (closed : ReadsClosed calm False rule Stmt.erased Stmt.written) :
      ReadsStatement calm rule :=
    closed.strengthenBehind fun _ _ _ _ => trivial
  refine .bind .current fun kind _ same => ?_
  cases same
  split
  · exact open_ (varAssignment_reads reads).inexact
  · exact ifStatement_reads reads
  · exact open_ (iterateStatement_reads reads)
  · exact open_ (whileStatement_reads reads)
  · exact open_ (wordStatement_reads (by simp) (fun _ => rfl) fun _ _ => rfl).inexact
  · exact open_ (wordStatement_reads (by simp) (fun _ => rfl) fun _ _ => rfl).inexact
  · exact open_ (wordStatement_reads (by simp) (fun _ => rfl) fun _ _ => rfl).inexact
  · exact forkStatement_reads reads
  · exact tryStatement_reads reads
  · refine open_ (valueStatement_reads reads (by simp) (fun _ _ => ?_) fun _ _ _ _ same => ?_).inexact
    · rw [Stmt.written]
    · simp only [Stmt.erased, same]
  · exact open_ (returnStatement_reads reads).inexact
  · refine open_ (valueStatement_reads reads (by simp) (fun _ _ => ?_) fun _ _ _ _ same => ?_).inexact
    · rw [Stmt.written]
    · simp only [Stmt.erased, same]
  · exact open_ (transformStatement_reads reads)
  · exact transactionStatement_reads reads
  · refine open_ (namespaceDecl_reads.inexact.mapped (fun _ => ?_) fun _ _ same => ?_)
    · rw [Stmt.written]
    · simp only [Stmt.erased, same]
  · exact open_ (plainStatement_reads reads).inexact

end Parts

end ServiceLang.Grammar
