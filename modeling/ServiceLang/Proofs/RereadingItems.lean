import ServiceLang.Proofs.RereadingBody

set_option autoImplicit false

/-! Bodies read again: first their statements, then their workers, without the comments
in between. -/

namespace ServiceLang

structure Kind.StartsNothing (kind : Kind) : Prop where
  statement : kind.startsStatement = false
  type : kind.startsType = false
  operand : kind.startsOperand = false

theorem Kind.startsNothing_of_continues {kind : Kind} (continues : kind.continues = true) :
    kind.StartsNothing := by
  unfold Kind.continues at continues
  split at continues <;> first | exact ⟨rfl, rfl, rfl⟩ | cases continues

namespace Grammar

open Step
open Word (listed inParens inBraces inBrackets inAngles behind)

variable {calm : Parser → Prop} [Quiet calm]

/-! ### No statement starts with a word that goes on -/

section Parts

variable {parts : StmtParts}

def itemRule (parts : StmtParts) (kind : BodyKind) : Step Stmt :=
  if kind = .transform then transformItem parts else statementWith parts

section NoStatement

variable {parser : Parser} (nothing : parser.cursor.peek.kind.StartsNothing)

include nothing

theorem startsVarDef_false (room : Nat) : startsVarDef room parser.cursor.kinds = false := by
  apply startsVarDef_of_head
  intro kind head
  have isFirst : parser.cursor.peek.kind = kind := by
    rw [Cursor.kind_peek, head, Option.getD_some]
  rw [← isFirst]
  exact nothing.type

theorem ne_of_startsStatement {kind : Kind} (starts : kind.startsStatement = true) :
    parser.cursor.peek.kind ≠ kind := by
  rintro rfl
  rw [nothing.statement] at starts
  cases starts

theorem ne_identifier : parser.cursor.peek.kind ≠ .identifier := by
  intro isName
  have notType := nothing.type
  rw [isName] at notType
  cases notType

theorem plainStatement_ne_ok {statement : Stmt} {later : Parser} :
    plainStatement parts parser ≠ .ok statement later := by
  intro ran
  rw [plainStatement, look_bind (isVarDef_eq parser), startsVarDef_false nothing,
    if_neg (by simp), look_bind (isInvocation_eq parser)] at ran
  split at ran
  · obtain ⟨found, between, ranInvocation, -⟩ := bind_ok ran
    obtain ⟨name, last, ranName, -⟩ := bind_ok ranInvocation
    obtain ⟨first, middle, ranFirst, -⟩ := bind_ok ranName
    exact ne_identifier nothing (expectIdentifier_ok ranFirst).1
  · rw [exprStatement, look_bind (current_eq parser), nothing.operand, if_neg (by simp)] at ran
    exact failAt_ne_ok ran

theorem statementWith_ne_ok {statement : Stmt} {later : Parser} :
    statementWith parts parser ≠ .ok statement later := by
  have plain : statementWith parts parser = plainStatement parts parser := by
    rw [statementWith, look_bind (current_eq parser)]
    refine congrFun ?_ parser
    split
    case h_16 => rfl
    all_goals
      rename_i here
      exact absurd here (ne_of_startsStatement nothing rfl)
  rw [plain]
  exact plainStatement_ne_ok nothing

theorem transformItem_ne_ok {statement : Stmt} {later : Parser} :
    transformItem parts parser ≠ .ok statement later := by
  intro ran
  have notTransform := @ne_of_startsStatement _ nothing (.keyword .transformKw) rfl
  rw [transformItem, look_bind (check_eq parser _), if_neg (by simpa using notTransform),
    look_bind (isVarDef_eq parser), startsVarDef_false nothing, if_neg (by simp),
    look_bind (check_eq parser _), if_neg (by simpa using ne_identifier nothing)] at ran
  exact failAt_ne_ok ran

end NoStatement

/-- No statement starts with a word that goes on with the one before. -/
theorem continues_of_itemRule {kind : BodyKind} {parser later : Parser} {statement : Stmt}
    (ran : itemRule parts kind parser = .ok statement later) :
    parser.cursor.peek.kind.continues = false := by
  cases continues : parser.cursor.peek.kind.continues with
  | false => rfl
  | true =>
    have nothing := Kind.startsNothing_of_continues continues
    rw [itemRule] at ran
    split at ran
    · exact absurd ran (transformItem_ne_ok nothing)
    · exact absurd ran (statementWith_ne_ok nothing)

end Parts

/-! ### Pieces of a body -/

namespace BodyItems

def written (items : BodyItems) : List Word :=
  items.statements.flatMap Stmt.written ++ items.workers.flatMap Worker.written

def erased (items : BodyItems) : List Stmt × List Worker :=
  (Stmt.allErased items.statements, items.workers.map Worker.erased)

end BodyItems

def statementPiece (statement : Stmt) :
    List Word × (List Stmt × List Worker → List Stmt × List Worker) :=
  (statement.written, fun kept => (kept.1 ++ Stmt.allErased [statement], kept.2))

def workerPiece (worker : Worker) :
    List Word × (List Stmt × List Worker → List Stmt × List Worker) :=
  (worker.written, fun kept => (kept.1, kept.2 ++ [worker.erased]))

namespace BodyItems

def pieces (items : BodyItems) :
    List (List Word × (List Stmt × List Worker → List Stmt × List Worker)) :=
  items.statements.map statementPiece ++ items.workers.map workerPiece

theorem words_pieces (items : BodyItems) : items.pieces.flatMap Prod.fst = items.written := by
  rw [pieces, List.flatMap_append, List.flatMap_map, List.flatMap_map]
  rfl

theorem foldl_pieces (items : BodyItems) :
    items.pieces.foldl (fun kept piece => piece.2 kept) ([], []) = items.erased := by
  have statements (list : List Stmt) (kept : List Stmt × List Worker) :
      (list.map statementPiece).foldl (fun kept piece => piece.2 kept) kept =
        (kept.1 ++ Stmt.allErased list, kept.2) := by
    induction list generalizing kept with
    | nil => simp
    | cons statement rest ih =>
        rw [List.map_cons, List.foldl_cons, ih, Stmt.allErased_cons]
        simp [statementPiece]
  have workers (list : List Worker) (kept : List Stmt × List Worker) :
      (list.map workerPiece).foldl (fun kept piece => piece.2 kept) kept =
        (kept.1, kept.2 ++ list.map Worker.erased) := by
    induction list generalizing kept with
    | nil => simp
    | cons worker rest ih =>
        rw [List.map_cons, List.foldl_cons, ih]
        simp [workerPiece]
  rw [pieces, List.foldl_append, statements, workers]
  simp [erased]

theorem written_addStatement (items : BodyItems) (statement : Stmt) :
    (items.addStatement statement).written.Perm (items.written ++ statement.written) := by
  simp only [addStatement, written, List.flatMap_append, List.flatMap_singleton,
    List.append_assoc]
  exact List.perm_append_comm.append_left _

theorem written_addWorker (items : BodyItems) (worker : Worker) :
    (items.addWorker worker).written = items.written ++ worker.written := by
  simp [addWorker, written]

theorem comments_silent (comments : List Token) :
    (comments.map fun token => Stmt.comment token.lexeme token.span).flatMap Stmt.written = [] ∧
      Stmt.allErased (comments.map fun token => Stmt.comment token.lexeme token.span) = [] := by
  induction comments with
  | nil => exact ⟨rfl, rfl⟩
  | cons comment rest ih =>
      rw [List.map_cons, List.flatMap_cons, ih.1, Stmt.allErased_cons, ih.2]
      exact ⟨rfl, rfl⟩

theorem written_addComments (items : BodyItems) (comments : List Token) :
    (items.addComments comments).written = items.written := by
  simp [addComments, written, (comments_silent comments).1]

theorem erased_addComments (items : BodyItems) (comments : List Token) :
    (items.addComments comments).erased = items.erased := by
  rw [addComments, erased, Stmt.allErased_append, (comments_silent comments).2, List.append_nil]
  rfl

end BodyItems

/-! ### Turns -/

/-- Taking comments changes nothing else. -/
theorem takeComments_ok {parser later : Parser} {comments : List Token}
    (ran : takeComments parser = .ok comments later) :
    later.words = parser.words ∧ later.cursor.kinds = parser.cursor.kinds ∧
      later.cursor.peek = parser.cursor.peek ∧
        ∃ cursor, later = { parser with cursor := cursor } := by
  rw [takeComments_eq] at ran
  split at ran
  · cases ran
    exact ⟨rfl, rfl, rfl, _, rfl⟩
  · cases ran
    exact ⟨rfl, rfl, rfl, _, rfl⟩

theorem takeComments_succeeds : Succeeds takeComments := by
  intro parser
  rw [takeComments_eq]
  split
  · exact ⟨_, _, rfl⟩
  · exact ⟨_, _, rfl⟩

section Parts

variable {parts : StmtParts}

theorem bodyItem_ok {kind : BodyKind} {items next : BodyItems} {parser later : Parser}
    (ran : bodyItem parts kind items parser = .ok next later) :
    (∃ found, parser.cursor.peek.kind = .keyword .workerKw ∧ kind = .callable ∧
        worker parts parser = .ok found later ∧ next = items.addWorker found) ∨
      ∃ statement, parser.cursor.peek.kind ≠ .keyword .workerKw ∧
        itemRule parts kind parser = .ok statement later ∧ next = items.addStatement statement := by
  rw [bodyItem, look_bind (check_eq parser _)] at ran
  split at ran
  · rename_i here
    split at ran
    · rename_i callable
      obtain ⟨found, last, ranWorker, ran⟩ := bind_ok ran
      cases ran
      exact .inl ⟨found, by simpa using here, callable, ranWorker, rfl⟩
    · rw [look_bind (peek_eq parser)] at ran
      exact absurd ran fail_ne_ok
  · rename_i other
    rw [itemRule]
    split at ran
    · rename_i isTransform
      obtain ⟨statement, last, ranItem, ran⟩ := bind_ok ran
      cases ran
      exact .inr ⟨statement, by simpa using other, by rwa [if_pos isTransform], rfl⟩
    · rename_i notTransform
      obtain ⟨statement, last, ranItem, ran⟩ := bind_ok ran
      cases ran
      exact .inr ⟨statement, by simpa using other, by rwa [if_neg notTransform], rfl⟩

theorem bodyItem_of_worker {items : BodyItems} {parser later : Parser} {found : Worker}
    (here : parser.cursor.peek.kind = .keyword .workerKw)
    (ran : worker parts parser = .ok found later) :
    bodyItem parts .callable items parser = .ok (items.addWorker found) later := by
  rw [bodyItem, look_bind (check_eq parser _), if_pos (by simpa using here), if_pos rfl,
    bind_of_ok ran, pure_eq]

theorem bodyItem_of_statement {kind : BodyKind} {items : BodyItems} {parser later : Parser}
    {statement : Stmt} (other : parser.cursor.peek.kind ≠ .keyword .workerKw)
    (ran : itemRule parts kind parser = .ok statement later) :
    bodyItem parts kind items parser = .ok (items.addStatement statement) later := by
  rw [bodyItem, look_bind (check_eq parser _), if_neg (by simpa using other)]
  rw [itemRule] at ran
  split
  · rename_i isTransform
    rw [if_pos isTransform] at ran
    rw [bind_of_ok ran, pure_eq]
  · rename_i notTransform
    rw [if_neg notTransform] at ran
    rw [bind_of_ok ran, pure_eq]

theorem nextBodyItem_ok (eager : parts.AreEager fun _ => True) {kind : BodyKind} {items : BodyItems}
    {parser later : Parser} {decision : ForInStep BodyItems}
    (ran : nextBodyItem parts kind items parser = .ok decision later) (quiet : calm later) :
    ∃ comments between, takeComments parser = .ok comments between ∧
      (decision = .done (items.addComments comments) ∧ later = between ∧
          endsBody parser.cursor.peek.kind = true ∨
        ∃ next, decision = .yield next ∧ endsBody parser.cursor.peek.kind = false ∧
          bodyItem parts kind (items.addComments comments) between = .ok next later) := by
  obtain ⟨comments, between, ranComments, ran⟩ := bind_ok ran
  have samePeek := (takeComments_ok ranComments).2.2.1
  refine ⟨comments, between, ranComments, ?_⟩
  rw [look_bind (current_eq between), samePeek] at ran
  split at ran
  · rename_i ends
    cases ran
    exact .inl ⟨rfl, rfl, ends⟩
  · rename_i inside
    obtain ⟨next, last, ranItem, ran⟩ := bind_ok ran
    cases ran
    exact .inr ⟨next, rfl, by simpa using inside,
      ok_of_orRecover (bodyItem_eager eager kind _).orderly ranItem quiet⟩

theorem nextBodyItem_of_item {kind : BodyKind} {items next : BodyItems} {comments : List Token}
    {parser between later : Parser} (taken : takeComments parser = .ok comments between)
    (inside : endsBody parser.cursor.peek.kind = false)
    (ran : bodyItem parts kind (items.addComments comments) between = .ok next later) :
    nextBodyItem parts kind items parser = .ok (.yield next) later := by
  have samePeek := (takeComments_ok taken).2.2.1
  rw [nextBodyItem, bind_of_ok taken, look_bind (current_eq between), samePeek,
    if_neg (by simp [inside]), bind_of_ok (orRecover_of_ok ran), pure_eq]

variable (reads : parts.AreReread calm)

include reads

theorem itemRule_reads (kind : BodyKind) : ReadsStatement calm (itemRule parts kind) := by
  rw [itemRule]
  split
  · exact (transformItem_reads reads).strengthenBehind fun _ _ _ _ => trivial
  · exact statementWith_reads reads

abbrev IsBodyPiece (calm : Parser → Prop) (parts : StmtParts) (kind : BodyKind) :
    List Word × (List Stmt × List Worker → List Stmt × List Worker) → Prop :=
  IsPiece calm GoesOn (nextBodyItem parts kind) BodyItems.erased

omit reads in
theorem endsBody_endOfFile {kind : Kind} (inside : endsBody kind = false) : kind ≠ .endOfFile := by
  rintro rfl
  cases inside

/-- A statement that has been read is a piece of its body. -/
theorem isBodyPiece_of_statement {kind : BodyKind} {parser later : Parser} {statement : Stmt}
    (inside : endsBody parser.cursor.peek.kind = false)
    (other : parser.cursor.peek.kind ≠ .keyword .workerKw)
    (ran : itemRule parts kind parser = .ok statement later) (quiet : calm later) :
    IsBodyPiece calm parts kind (statementPiece statement) := by
  obtain ⟨added, whole, reread⟩ := itemRule_reads reads kind ran quiet
  obtain rfl : statement.written = added := whole
  have head : parser.cursor.kinds.head? = some parser.cursor.peek.kind :=
    (kind_peek_iff (endsBody_endOfFile inside)).mp rfl
  have front {rest : List Kind} (open_ : GoesOn rest) :
      (statement.written.map Word.kind ++ rest).head? = some parser.cursor.peek.kind := by
    rw [← head]
    exact (reread.front rest (.of_goesOn _ open_)).1.symm
  refine .inl ⟨reread.normal, ?_, ?_⟩
  · intro rest open_ first is
    change (statement.written.map Word.kind ++ rest).head? = some first at is
    rw [front open_] at is
    cases is
    exact continues_of_itemRule ran
  · intro state again rest calmAgain ahead open_
    obtain ⟨comments, between, taken⟩ := takeComments_succeeds again
    obtain ⟨sameWords, -, samePeek, cursor, moved⟩ := takeComments_ok taken
    have samehead : again.cursor.peek.kind = parser.cursor.peek.kind := by
      refine (kind_peek_iff (endsBody_endOfFile inside)).mpr ?_
      rw [again.kinds_eq, ahead, List.map_append]
      exact front open_
    have calmBetween : calm between := by
      rw [moved]
      exact (Calm.moved _ _).mpr calmAgain
    obtain ⟨found, last, ranAgain, calmLast, same, aheadLast⟩ :=
      reread.again between rest calmBetween (sameWords.trans ahead) (.of_goesOn _ open_)
    have ranItem : bodyItem parts kind (state.addComments comments) between =
        .ok ((state.addComments comments).addStatement found) last :=
      bodyItem_of_statement (by rwa [samePeek, samehead]) ranAgain
    refine ⟨_, last, nextBodyItem_of_item taken (by rwa [samehead]) ranItem, calmLast, ?_,
      aheadLast⟩
    have kept := state.erased_addComments comments
    rw [BodyItems.erased, BodyItems.erased, Prod.mk.injEq] at kept
    simp only [BodyItems.addStatement, BodyItems.erased, Stmt.allErased_append, kept.1,
      Stmt.allErased_singleton same, statementPiece]
    exact congrArg _ kept.2

theorem isBodyPiece_of_worker {parser later : Parser} {found : Worker}
    (ran : worker parts parser = .ok found later) (quiet : calm later) :
    IsBodyPiece calm parts .callable (workerPiece found) := by
  obtain ⟨added, whole, reread⟩ := worker_reads reads ran quiet
  obtain rfl : found.written = added := whole
  have starts : ∃ rest, found.written = .keyword .workerKw :: rest := by
    cases found
    exact ⟨_, rfl⟩
  obtain ⟨rest, starts⟩ := starts
  refine .inl ⟨reread.normal, ?_, ?_⟩
  · intro rest _ first is
    change (found.written.map Word.kind ++ rest).head? = some first at is
    rw [starts] at is
    cases is
    rfl
  · intro state again rest calmAgain ahead _
    obtain ⟨comments, between, taken⟩ := takeComments_succeeds again
    obtain ⟨sameWords, -, samePeek, cursor, moved⟩ := takeComments_ok taken
    have here : again.cursor.peek.kind = .keyword .workerKw := by
      change again.words = found.written ++ rest at ahead
      rw [starts] at ahead
      exact Parser.kind_peek ahead
    have calmBetween : calm between := by
      rw [moved]
      exact (Calm.moved _ _).mpr calmAgain
    obtain ⟨value, last, ranAgain, calmLast, same, aheadLast⟩ :=
      reread.again between rest calmBetween (sameWords.trans ahead) trivial
    have ranItem : bodyItem parts .callable (state.addComments comments) between =
        .ok ((state.addComments comments).addWorker value) last :=
      bodyItem_of_worker (by rwa [samePeek]) ranAgain
    refine ⟨_, last, nextBodyItem_of_item taken (by rw [here]; rfl) ranItem, calmLast, ?_,
      aheadLast⟩
    have kept := state.erased_addComments comments
    rw [BodyItems.erased, BodyItems.erased, Prod.mk.injEq] at kept
    simp only [BodyItems.addWorker, BodyItems.erased, List.map_append, kept.2, List.map_singleton,
      same, workerPiece]
    exact congrArg (fun statements => (statements, _)) kept.1

/-! ### Bodies -/

omit reads in
/-- The items found so far are the tokens passed since the start, and can be read
again. -/
structure ItemsRead (calm : Parser → Prop) (parts : StmtParts) (kind : BodyKind) (start : Parser)
    (items : BodyItems) (parser : Parser) : Prop where
  tally : (countedJoins start.cursor.kinds).Perm
    (items.written.map Word.kind ++ countedJoins parser.cursor.kinds)
  pieces : ∀ piece ∈ items.pieces, IsBodyPiece calm parts kind piece

omit [Quiet calm] reads in
theorem ItemsRead.addComments {kind : BodyKind} {start parser between : Parser}
    {items : BodyItems} {comments : List Token}
    (before : ItemsRead calm parts kind start items parser)
    (taken : takeComments parser = .ok comments between) :
    ItemsRead calm parts kind start (items.addComments comments) between := by
  refine ⟨?_, ?_⟩
  · rw [items.written_addComments, (takeComments_ok taken).2.1]
    exact before.tally
  · intro piece member
    simp only [BodyItems.pieces, BodyItems.addComments, List.map_append, List.mem_append] at member
    rcases member with (member | member) | member
    · exact before.pieces piece (List.mem_append_left _ member)
    · obtain ⟨statement, inside, rfl⟩ := List.mem_map.mp member
      obtain ⟨comment, -, rfl⟩ := List.mem_map.mp inside
      exact .inr ⟨rfl, fun kept => by simp [statementPiece]⟩
    · exact before.pieces piece (List.mem_append_right _ member)

theorem itemsRead_of_bodyItem {kind : BodyKind} {start parser later : Parser}
    {items next : BodyItems} (before : ItemsRead calm parts kind start items parser)
    (inside : endsBody parser.cursor.peek.kind = false)
    (ran : bodyItem parts kind items parser = .ok next later) (quiet : calm later) :
    ItemsRead calm parts kind start next later := by
  rcases bodyItem_ok ran with ⟨found, here, rfl, ranWorker, rfl⟩ | ⟨statement, other, ranItem, rfl⟩
  · have piece := isBodyPiece_of_worker reads ranWorker quiet
    obtain ⟨added, whole, reread⟩ := worker_reads reads ranWorker quiet
    obtain rfl : found.written = added := whole
    refine ⟨?_, ?_⟩
    · rw [items.written_addWorker, List.map_append, List.append_assoc]
      exact before.tally.trans (reread.tally.append_left _)
    · intro other member
      simp only [BodyItems.pieces, BodyItems.addWorker, List.map_append, List.mem_append,
        List.map_singleton, List.mem_singleton] at member
      rcases member with member | member | rfl
      · exact before.pieces other (List.mem_append_left _ member)
      · exact before.pieces other (List.mem_append_right _ member)
      · exact piece
  · have piece := isBodyPiece_of_statement reads inside other ranItem quiet
    obtain ⟨added, whole, reread⟩ := itemRule_reads reads kind ranItem quiet
    obtain rfl : statement.written = added := whole
    refine ⟨?_, ?_⟩
    · have set := ((items.written_addStatement statement).map Word.kind).symm
      rw [List.map_append] at set
      refine (before.tally.trans (reread.tally.append_left _)).trans ?_
      rw [← List.append_assoc]
      exact set.append_right _
    · intro other member
      simp only [BodyItems.pieces, BodyItems.addStatement, List.map_append, List.mem_append,
        List.map_singleton, List.mem_singleton] at member
      rcases member with (member | rfl) | member
      · exact before.pieces other (List.mem_append_left _ member)
      · exact piece
      · exact before.pieces other (List.mem_append_right _ member)

omit reads in
theorem nextBodyItem_of_rightBrace {kind : BodyKind} {items : BodyItems} {parser : Parser}
    (closes : parser.cursor.peek.kind = .symbol .rightBrace) :
    ∃ comments between, takeComments parser = .ok comments between ∧
      nextBodyItem parts kind items parser = .ok (.done (items.addComments comments)) between := by
  obtain ⟨comments, between, taken⟩ := takeComments_succeeds parser
  refine ⟨comments, between, taken, ?_⟩
  rw [nextBodyItem, bind_of_ok taken, look_bind (current_eq between),
    (takeComments_ok taken).2.2.1, closes]
  rfl

/-- What stands in a body is read again with the workers at the end. -/
theorem bodyItems_reads (kind : BodyKind) : Rereads calm False Anything
    (fun _ => BothStart (.symbol .rightBrace)) [] (bodyItems parts kind) (bodyItems parts kind)
    BodyItems.erased BodyItems.written := by
  intro parser final later ran quiet
  have turns (items : BodyItems) : Turn (fun _ => True) (nextBodyItem parts kind items) :=
    nextBodyItem_turn reads.eager kind items
  have start : ItemsRead calm parts kind parser ⟨[], []⟩ parser :=
    ⟨.refl _, fun _ member => by cases member⟩
  have kept {items next : BodyItems} {here behind : Parser}
      (before : ItemsRead calm parts kind parser items here)
      (ran : nextBodyItem parts kind items here = .ok (.yield next) behind)
      (quiet : calm behind) : ItemsRead calm parts kind parser next behind := by
    obtain ⟨comments, between, taken, ⟨is, -⟩ | ⟨next, is, inside, ranItem⟩⟩ :=
      nextBodyItem_ok reads.eager ran quiet
    · cases is
    · cases is
      rw [← (takeComments_ok taken).2.2.1] at inside
      exact itemsRead_of_bodyItem reads (before.addComments taken) inside ranItem quiet
  obtain ⟨last, before, sofar, ended⟩ := before_lastTurn turns kept start ran quiet
  obtain ⟨comments, between, taken, ⟨is, rfl, -⟩ | ⟨next, is, -⟩⟩ :=
    nextBodyItem_ok reads.eager ended quiet
  · cases is
    have all := sofar.addComments taken
    refine ⟨(last.addComments comments).written, rfl,
      calm_of_ok (bodyItems_orderly reads.eager kind) ran quiet, ?_, False.elim,
      all.tally, fun _ _ => trivial, ?_⟩
    · intro word member
      rw [← BodyItems.words_pieces] at member
      exact normal_of_pieces all.pieces member
    · intro other rest calmOther ahead follows
      rw [← BodyItems.words_pieces] at ahead
      have open_ : GoesOn (rest.map Word.kind) := by
        intro kind head
        rw [follows.2] at head
        cases head
        rfl
      obtain ⟨next, behind, toEnd, calmBehind, same, aheadBehind⟩ :
          ∃ next behind,
            bodyItems parts kind other = loop (nextBodyItem parts kind) next behind ∧ _ :=
        loop_of_pieces all.pieces (advancing_of_turn turns) calmOther ahead open_
      have closes : behind.cursor.peek.kind = .symbol .rightBrace := by
        refine (kind_peek_iff (by simp)).mpr ?_
        rw [behind.kinds_eq, aheadBehind]
        exact follows.2
      obtain ⟨others, last, takenAgain, lastTurn⟩ :
          ∃ others last, takeComments behind = .ok others last ∧
            nextBodyItem parts kind next behind = .ok (.done (next.addComments others)) last :=
        nextBodyItem_of_rightBrace closes
      obtain ⟨sameWords, -, -, cursor, moved⟩ := takeComments_ok takenAgain
      refine ⟨_, last, toEnd.trans (loop_of_done lastTurn), ?_, ?_, sameWords.trans aheadBehind⟩
      · rw [moved]
        exact (Calm.moved _ _).mpr calmBehind
      · rw [next.erased_addComments, same]
        exact BodyItems.foldl_pieces _
  · cases is

theorem bodyWith_reads (kind : BodyKind) : ReadsClosed calm False (bodyWith parts kind)
    CallableBody.erased CallableBody.written := by
  refine .bindClosed (.symbol _ rfl) fun _ _ _ => .bind (bodyItems_reads reads kind)
    fun items _ same => .bind .closeMarker fun close _ sameClose => .spanned (fun _ => ?_)
      fun _ _ => ?_
  · simp [BodyItems.written, Stmt.writtens_eq_flatMap, Worker.writtens_eq_flatMap]
  · simp only [BodyItems.erased, Prod.mk.injEq] at same
    simp only [CallableBody.erased, Worker.allErased_eq_map, same, sameClose]

end Parts

/-- Only a callable has workers. -/
theorem workers_of_bodyWith {parts : StmtParts} {kind : BodyKind} (other : kind ≠ .callable) :
    Gives (bodyWith parts kind) fun body => body.workers = [] := by
  have items : Gives (bodyItems parts kind) fun items => items.workers = [] := by
    refine .loop (fun items none => .bind fun comments => .bind fun next =>
      .ite (.pure none) ?_) rfl
    intro parser later decision ran
    obtain ⟨next, last, ranItem, ran⟩ := bind_ok ran
    cases ran
    rcases orRecover_cases .statement (bodyItem parts kind (items.addComments comments)) _ parser
      with ⟨value, behind, part, same⟩ | ⟨_, _, span, behind, _, same, _⟩
    · cases same.symm.trans ranItem
      rcases bodyItem_ok part with ⟨_, _, callable, _⟩ | ⟨statement, _, _, rfl⟩
      · exact absurd callable other
      · exact none
    · cases same.symm.trans ranItem
      exact none
  exact .bind fun _ => items.bindOf fun items none => .bind fun _ => .bind fun _ => .pure none

theorem StmtParts.within_areReread (room : Nat) : (StmtParts.within room).AreReread calm := by
  induction room with
  | zero =>
      exact ⟨StmtParts.within_areEager 0, Grammar.within_areReread 0, fun _ => .tooDeep,
        fun _ ran => absurd ran tooDeep_ne_ok⟩
  | succ room ih =>
      exact ⟨StmtParts.within_areEager _, Grammar.within_areReread _, bodyWith_reads ih,
        fun other ran => workers_of_bodyWith other ran⟩

theorem block_reads (room : Nat) :
    ReadsClosed calm False (block room) Block.erased Block.written :=
  block_reads_of_parts (StmtParts.within_areReread room)

theorem body_reads (room : Nat) (kind : BodyKind) :
    ReadsClosed calm False (body room kind) CallableBody.erased CallableBody.written :=
  (StmtParts.within_areReread room).body kind

end Grammar

end ServiceLang
