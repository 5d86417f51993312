import ServiceLang.Proofs.RoundTrip

set_option autoImplicit false

/-! Where comments can still be taken. Taking the comments before a token uses them up, and
passing over a token brings up those before the next one. A statement or a worker that is read
without an error ends with a token that it has passed over, so that the comments behind it have
not been taken yet. -/

namespace ServiceLang

def Cursor.IsFresh (cursor : Cursor) : Prop :=
  cursor.comments = (cursor.ahead.head?.getD cursor.final).comments

theorem Cursor.isFresh_advance {cursor : Cursor} (more : 0 < cursor.remaining) :
    cursor.advance.IsFresh := by
  rw [IsFresh, comments_advance cursor (List.length_pos_iff.mp more), ahead_advance, final_advance]

open Step

/-- Where a step has given a value and nothing has been reported, no comment before the current
token has been taken. `start` tells whether that is only so if it was so before. -/
def Step.Settles {α : Type} (start : Prop) (step : Step α) : Prop :=
  ∀ ⦃parser later value⦄, (start → parser.cursor.IsFresh) → step parser = .ok value later →
    later.Clean → later.cursor.IsFresh

namespace Step.Settles

variable {α β σ : Type} {start : Prop}

/-! ### Steps one after another -/

theorem anyway {step : Step α} (settles : Settles False step) : Settles start step :=
  fun _ _ _ _ ran clean => settles False.elim ran clean

theorem never {step : Step α} (never : ∀ {parser value later}, step parser ≠ .ok value later) :
    Settles start step :=
  fun _ _ _ _ ran => absurd ran never

theorem behind {first : Step α} {next : α → Step β}
    (onwards : ∀ value, Settles False (next value)) : Settles start (first >>= next) := by
  intro parser later result _ ran clean
  obtain ⟨value, between, -, ranNext⟩ := bind_ok ran
  exact onwards value False.elim ranNext clean

theorem bind {first : Step α} {next : α → Step β} (here : Settles start first)
    (orderly : ∀ value, Orderly (fun _ => True) (next value))
    (onwards : ∀ value, Settles True (next value)) : Settles start (first >>= next) := by
  intro parser later result fresh ran clean
  obtain ⟨value, between, ranFirst, ranNext⟩ := bind_ok ran
  have cleanBetween := (orderly value).clean_of_ok ranNext clean
  exact onwards value (fun _ => here fresh ranFirst cleanBetween) ranNext clean

theorem still {step : Step α}
    (stays : ∀ {parser value later}, step parser = .ok value later → later.cursor = parser.cursor) :
    Settles True step :=
  fun _ _ _ fresh ran _ => stays ran ▸ fresh trivial

theorem pure (value : α) : Settles True (Pure.pure value : Step α) :=
  still fun ran => by cases ran; rfl

theorem ite {condition : Prop} [Decidable condition] {left right : Step α}
    (onTrue : Settles start left) (onFalse : Settles start right) :
    Settles start (if condition then left else right) := by
  split
  · exact onTrue
  · exact onFalse

theorem look {look : Step α} {next : α → Step β} (seen : Parser → α)
    (looks : ∀ parser, look parser = .ok (seen parser) parser)
    (onwards : ∀ value, Settles start (next value)) : Settles start (look >>= next) := by
  intro parser later value fresh ran clean
  rw [look_bind (looks parser)] at ran
  exact onwards _ fresh ran clean

theorem check {kind : Kind} {next : Bool → Step β} (onwards : ∀ here, Settles start (next here)) :
    Settles start (Step.check kind >>= next) :=
  look _ (fun parser => check_eq parser kind) onwards

theorem current {next : Kind → Step β} (onwards : ∀ kind, Settles start (next kind)) :
    Settles start (Step.current >>= next) :=
  look _ current_eq onwards

theorem isVarDef {next : Bool → Step β} (onwards : ∀ here, Settles start (next here)) :
    Settles start (Step.isVarDef >>= next) :=
  look _ isVarDef_eq onwards

theorem mapped {step : Step α} {make : α → β} (settles : Settles start step) :
    Settles start (step >>= fun value => Pure.pure (make value)) :=
  settles.bind (fun _ => .pure _) fun _ => .pure _

theorem spanned {step : Step α} {place : Span} {make : α → Span → β}
    (settles : Settles start step) :
    Settles start (step >>= fun value =>
      Step.spanFrom place >>= fun span => Pure.pure (make value span)) :=
  settles.bind (fun _ => .bind (.spanFrom _) fun _ => .pure _) fun _ =>
    look _ (fun parser => spanFrom_eq parser place) fun _ => .pure _

/-! ### Passing over tokens -/

theorem eat? {kind : Kind} (notEnd : kind ≠ .endOfFile) : Settles True (Step.eat? kind) := by
  intro parser later found fresh ran _
  by_cases here : parser.cursor.peek.kind = kind
  · rw [eat?_of_kind here] at ran
    cases ran
    exact Cursor.isFresh_advance (Cursor.remaining_pos _ (here ▸ notEnd))
  · rw [eat?_of_other here] at ran
    cases ran
    exact fresh trivial

theorem eat {kind : Kind} (notEnd : kind ≠ .endOfFile) : Settles True (Step.eat kind) :=
  (eat? notEnd).mapped

/-- Where nothing has been reported, the semicolon has not been assumed. -/
theorem endStatement : Settles start Step.endStatement := by
  intro parser later marker _ ran clean
  have quiet : later.CleanWith later.options := ⟨clean, rfl⟩
  obtain ⟨here, -, rfl⟩ := endStatement_ok ran quiet
  exact Cursor.isFresh_advance (Cursor.remaining_pos _ (here ▸ nofun))

/-- Where nothing has been reported, the closing brace has not been assumed. -/
theorem closeBrace : Settles start Step.closeBrace := by
  intro parser later marker _ ran clean
  have quiet : later.CleanWith later.options := ⟨clean, rfl⟩
  obtain ⟨here, -, rfl⟩ := closeBrace_ok ran quiet
  exact Cursor.isFresh_advance (Cursor.remaining_pos _ (here ▸ nofun))

/-! ### Repeating and optional parts -/

theorem loop {turn : σ → Step (ForInStep σ)} (turns : ∀ state, Turn (fun _ => True) (turn state))
    (settles : ∀ state, Settles True (turn state)) (state : σ) :
    Settles True (Step.loop turn state) := by
  intro parser later final fresh ran clean
  rcases loop_ok ran with ran | ⟨next, between, ran, ⟨shorter, rest⟩ | ⟨-, rfl, rfl⟩⟩
  · exact settles state fresh ran clean
  · have orderly : Orderly (fun _ => True) (Step.loop turn next) := .loop turns next
    have cleanBetween := orderly.clean_of_ok rest clean
    exact loop turns settles next (fun _ => settles state fresh ran cleanBetween) rest clean
  · exact settles state fresh ran clean
termination_by parser => parser.cursor.remaining

theorem ifAt {kind : Kind} {part : Step α} (settles : Settles False part) :
    Settles True (Step.ifAt kind part) :=
  check fun _ => ite settles.mapped.anyway (pure _)

theorem ifBehind {kind : Kind} {part : Step α} (notEnd : kind ≠ .endOfFile)
    (orderly : Orderly (fun _ => True) part) (settles : Settles False part) :
    Settles True (Step.ifBehind kind part) :=
  (eat notEnd).bind (fun _ => .ite (orderly.bind fun _ => .pure _) (.pure _)) fun _ =>
    ite settles.mapped.anyway (pure _)

theorem whileAt {kind : Kind} {item : Step α} (eager : Eager (fun _ => True) item)
    (settles : Settles False item) : Settles True (Step.whileAt kind item) :=
  loop (.nextAt eager) (fun _ => check fun _ => ite settles.mapped.anyway (pure _)) []

/-- Where nothing has been reported, nothing has been recovered from. -/
theorem orRecover {point : SyncPoint} {part : Step α} {instead : Span → α}
    (orderly : Orderly (fun _ => True) part) (settles : Settles start part) :
    Settles start (Step.orRecover point part instead) := by
  intro parser later value fresh ran clean
  have quiet : later.CleanWith later.options := ⟨clean, rfl⟩
  exact settles fresh (ok_of_orRecover orderly ran quiet) clean

end Step.Settles

namespace Grammar

/-! ### Bodies -/

theorem bodyWith_settles (parts : StmtParts) (kind : BodyKind) :
    Settles False (bodyWith parts kind) :=
  .behind fun _ => .behind fun _ => .spanned .closeBrace

theorem body_settles (room : Nat) (kind : BodyKind) : Settles False (body room kind) := by
  cases room with
  | zero => exact .never tooDeep_ne_ok
  | succ room => exact bodyWith_settles _ kind

section Parts

variable {parts : StmtParts} (eager : parts.AreEager fun _ => True)
  (settles : ∀ kind, Settles False (parts.body kind))

/-! ### Statements that end with a semicolon -/

theorem varDef_settles : Settles False (varDef parts) :=
  .behind fun _ => .behind fun _ => .behind fun _ => .spanned .endStatement

theorem varAssignment_settles : Settles False (varAssignment parts) :=
  .behind fun _ => .behind fun _ => .behind fun _ => .behind fun _ => .spanned .endStatement

theorem exprStatementEnd_settles (first : Expr) (others : List Expr) :
    Settles False (exprStatementEnd parts first others) := by
  refine .current fun kind => ?_
  split
  · exact .behind fun _ => .behind fun _ => .behind fun _ => .spanned .endStatement
  · exact .behind fun _ => .behind fun _ => .spanned .endStatement
  · exact .behind fun _ => .behind fun _ => .behind fun _ => .spanned .endStatement
  · unfold callEnd
    split
    · exact .mapped .endStatement
    · exact .never fail_ne_ok

theorem wordStatement_settles (word : Keyword) (make : Span → Stmt) :
    Settles False (wordStatement word make) :=
  .behind fun _ => .spanned .endStatement

theorem valueStatement_settles (word : Keyword) (make : Expr → Span → Stmt) :
    Settles False (valueStatement parts word make) :=
  .behind fun _ => .behind fun _ => .spanned .endStatement

theorem returnStatement_settles : Settles False (returnStatement parts) :=
  .behind fun _ => .behind fun _ => .spanned .endStatement

theorem namespaceDecl_settles : Settles False namespaceDecl :=
  .behind fun _ => .behind fun _ => .behind fun _ => .spanned .endStatement

theorem plainStatement_settles : Settles False (plainStatement parts) := by
  refine .isVarDef fun _ => .ite varDef_settles.mapped (.look _ isInvocation_eq fun _ => .ite ?_ ?_)
  · exact .behind fun _ => .mapped .endStatement
  · exact .current fun _ => .ite
      (.behind fun _ => .behind fun _ => exprStatementEnd_settles _ _) (.never failAt_ne_ok)

include settles

/-! ### Statements with bodies -/

theorem block_settles_of_parts : Settles False parts.block :=
  (settles .block).mapped

theorem worker_settles : Settles False (worker parts) :=
  .behind fun _ => .behind fun _ => (settles .callable).mapped

theorem iterateStatement_settles : Settles False (iterateStatement parts) :=
  .behind fun _ => .behind fun _ => .behind fun _ => .behind fun _ => .behind fun _ =>
    .behind fun _ => .behind fun _ => (block_settles_of_parts settles).mapped

theorem whileStatement_settles : Settles False (whileStatement parts) :=
  .behind fun _ => .behind fun _ => (block_settles_of_parts settles).mapped

theorem transformItem_settles : Settles False (transformItem parts) := by
  refine .check fun _ => .ite (.behind fun _ => (settles .transform).mapped) ?_
  refine .isVarDef fun _ => .ite ?_ (.check fun _ => .ite ?_ (.never failAt_ne_ok))
  · exact .behind fun _ => .behind fun _ => .behind fun _ => .behind fun _ =>
      .spanned .endStatement
  · exact .behind fun _ => .behind fun _ => .behind fun _ => .behind fun _ =>
      .spanned .endStatement

include eager

theorem ifStatement_settles : Settles False (ifStatement parts) := by
  have branches : Settles True (elseBranches parts) := by
    refine .loop (nextBranch_turn eager) (fun found => .bind (.eat? nofun) (fun word => ?_)
      fun word => ?_) _
    · cases word with
      | none => exact .pure _
      | some word =>
          exact .bind (.eat rfl) fun _ => .ite (.bind (elseIf_orderly eager _) fun _ => .pure _)
            (.bind (block_eager_of_parts eager).orderly fun _ => .pure _)
    · cases word with
      | none => exact .pure _
      | some word =>
          refine .behind fun _ => .ite ?_ (block_settles_of_parts settles).mapped
          exact .mapped (.behind fun _ => (block_settles_of_parts settles).mapped)
  refine .behind fun _ => .behind fun _ => .bind (block_settles_of_parts settles) (fun _ => ?_)
    fun _ => branches.spanned
  exact .bind (elseBranches_orderly eager) fun _ => .bind (.spanFrom _) fun _ => .pure _

theorem forkStatement_settles : Settles False (forkStatement parts) := by
  have join : Settles False (joinClause parts) :=
    .behind fun _ => .behind fun _ => .behind fun _ => (block_settles_of_parts settles).mapped
  have timeout : Settles False (timeoutClause parts) :=
    .behind fun _ => .behind fun _ => .behind fun _ => (block_settles_of_parts settles).mapped
  have ends (workers : List Worker) (join : Option Join) (word : Token) :
      Orderly (fun _ => True) (do
        let timeout ← Step.ifAt (.keyword .timeoutKw) (timeoutClause parts)
        return Stmt.forkJoin workers join timeout (← Step.spanFrom word.span)) :=
    .bind (.ifAt (timeoutClause_orderly eager)) fun _ => .bind (.spanFrom _) fun _ => .pure _
  refine .behind fun _ => .behind fun _ => .behind fun _ => .bind .closeBrace (fun _ => ?_)
    fun _ => .bind (.ifAt join) (fun _ => ends _ _ _) fun _ => .spanned (.ifAt timeout)
  exact .bind (.ifAt (joinClause_orderly eager)) fun _ => ends _ _ _

theorem tryStatement_settles : Settles False (tryStatement parts) := by
  have clause : Settles False (catchClause parts) :=
    .behind fun _ => .behind fun _ => (block_settles_of_parts settles).mapped
  have ends (body : Block) (catches : List Catch) (finallyBlock : Option Block) (word : Token) :
      Orderly (fun _ => True) (do
        let span ← Step.spanFrom word.span
        let _ ← checkClauses catches finallyBlock span
        return Stmt.tryCatch body catches finallyBlock span) :=
    .bind (.spanFrom _) fun _ => .bind (checkClauses_orderly _ _ _) fun _ => .pure _
  have finallyPart : Orderly (fun _ => True) (Step.ifBehind (.keyword .finallyKw) parts.block) :=
    .ifBehind rfl (block_eager_of_parts eager).orderly
  have checked (catches : List Catch) (finallyBlock : Option Block) (span : Span) :
      Settles True (checkClauses catches finallyBlock span) := by
    refine .ite (.still fun ran => ?_) (.pure _)
    cases ran
    exact Parser.cursor_report _ _
  refine .behind fun _ => .bind (block_settles_of_parts settles) (fun _ => ?_) fun _ =>
    .bind (.whileAt (catchClause_eager eager) clause) (fun _ => ?_) fun _ =>
    .bind (.ifBehind nofun (block_eager_of_parts eager).orderly (block_settles_of_parts settles))
      (fun _ => ends _ _ _ _) fun _ =>
      .look _ (fun parser => spanFrom_eq parser _) fun _ => (checked _ _ _).mapped
  · exact .bind (.whileAt (catchClause_eager eager)) fun _ => finallyPart.bind fun _ =>
      ends _ _ _ _
  · exact finallyPart.bind fun _ => ends _ _ _ _

theorem transactionStatement_settles : Settles False (transactionStatement parts) := by
  have one (isAborted : Bool) (found : Handlers) :
      Settles False (handler parts isAborted found) := by
    refine .behind fun _ => .bind (block_settles_of_parts settles) (fun _ => ?_) fun _ => ?_
    · exact .ite (.bind (.report ⟨rfl, nofun⟩) fun _ => .pure _) (.pure _)
    · refine .ite (.mapped (.still fun ran => ?_)) (.pure _)
      cases ran
      exact Parser.cursor_report _ _
  have all : Settles True (handlers parts) :=
    .loop (nextHandler_turn eager) (fun found => .check fun _ => .ite (one true found).mapped.anyway
      (.check fun _ => .ite (one false found).mapped.anyway (.pure _))) _
  refine .behind fun _ => .bind (block_settles_of_parts settles) (fun _ => ?_)
    fun _ => all.spanned
  exact .bind (handlers_orderly eager) fun _ => .bind (.spanFrom _) fun _ => .pure _

/-! ### Items of a body -/

theorem statementWith_settles : Settles False (statementWith parts) := by
  refine .current fun kind => ?_
  split
  · exact varAssignment_settles
  · exact ifStatement_settles eager settles
  · exact iterateStatement_settles settles
  · exact whileStatement_settles settles
  · exact wordStatement_settles _ _
  · exact wordStatement_settles _ _
  · exact wordStatement_settles _ _
  · exact forkStatement_settles eager settles
  · exact tryStatement_settles eager settles
  · exact valueStatement_settles _ _
  · exact returnStatement_settles
  · exact valueStatement_settles _ _
  · exact .behind fun _ => (settles .transform).mapped
  · exact transactionStatement_settles eager settles
  · exact namespaceDecl_settles.mapped
  · exact plainStatement_settles

theorem bodyItem_settles (kind : BodyKind) (items : BodyItems) :
    Settles False (bodyItem parts kind items) := by
  refine .check fun _ => .ite (.ite (worker_settles settles).mapped ?_) (.ite ?_ ?_)
  · exact .look _ peek_eq fun _ => .never fail_ne_ok
  · exact (transformItem_settles settles).mapped
  · exact (statementWith_settles eager settles).mapped

end Parts

end Grammar

end ServiceLang
