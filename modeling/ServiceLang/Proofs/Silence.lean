import ServiceLang.Proofs.AbreastDefinition
import ServiceLang.Proofs.Giving
import ServiceLang.Proofs.Reporting
import ServiceLang.Proofs.RoundTrip

set_option autoImplicit false

/-! Reading without keeping comments. No rule looks at them, so that the tree is the one that
keeps them with the comments taken out, and the same is reported. -/

namespace ServiceLang

/-! ### Trees without comments -/

def IsSilent {α : Type} (sifted : Sieve → α → α) (value : α) : Prop :=
  sifted .silent value = value

def Stmt.Silent (statement : Stmt) : Prop :=
  Stmt.allSifted .silent [statement] = [statement]

section Silent

theorem Stmt.allSifted_of_silent {statements : List Stmt}
    (silent : ∀ statement ∈ statements, statement.Silent) :
    Stmt.allSifted .silent statements = statements := by
  induction statements with
  | nil => rfl
  | cons statement rest ih =>
      have here : Stmt.allSifted .silent [statement] = [statement] :=
        silent statement List.mem_cons_self
      rw [Stmt.allSifted_cons, here, ih fun other member =>
        silent other (List.mem_cons_of_mem _ member), List.singleton_append]

theorem map_of_isSilent {α : Type} {sifted : Sieve → α → α} {values : List α}
    (silent : ∀ value ∈ values, IsSilent sifted value) : values.map (sifted .silent) = values :=
  (List.map_congr_left silent).trans (List.map_id' values)

theorem optionMap_of_isSilent {α : Type} {sifted : Sieve → α → α} {value : Option α}
    (silent : ∀ found ∈ value, IsSilent sifted found) : value.map (sifted .silent) = value := by
  cases value with
  | none => rfl
  | some found => exact congrArg some (silent found rfl)

theorem TokenMarker.sifted_silent (marker : TokenMarker) : marker.sifted .silent = marker :=
  congrArg (TokenMarker.mk marker.span) (Bool.true_and _)

theorem CallableBody.isSilent {body : CallableBody}
    (statements : ∀ statement ∈ body.statements, statement.Silent)
    (workers : ∀ worker ∈ body.workers, IsSilent Worker.sifted worker) :
    IsSilent CallableBody.sifted body := by
  obtain ⟨found, declared, close, span⟩ := body
  rw [IsSilent, CallableBody.sifted, Stmt.allSifted_of_silent statements,
    Worker.allSifted_eq_map, map_of_isSilent workers, TokenMarker.sifted_silent]

theorem CallableBody.isSilent_toBlock {body : CallableBody}
    (silent : IsSilent CallableBody.sifted body) : IsSilent Block.sifted body.toBlock := by
  obtain ⟨found, declared, close, span⟩ := body
  rw [IsSilent, CallableBody.sifted] at silent
  injection silent with statements
  rw [IsSilent, CallableBody.toBlock, Block.sifted, statements, TokenMarker.sifted_silent]

end Silent

/-! ### Steps that keep no comments -/

open Step

/-- Where comments are not kept, what the step gives is like this. -/
def Step.Mutes {α : Type} (step : Step α) (holds : α → Prop) : Prop :=
  ∀ ⦃parser later value⦄, parser.options.keepComments = false →
    step parser = .ok value later → later.options.keepComments = false ∧ holds value

namespace Step.Mutes

variable {α β σ : Type} {holds : α → Prop} {result : β → Prop}

theorem of_gives {step : Step α} (orderly : Orderly (fun _ => True) step)
    (gives : Gives step holds) : Mutes step holds := by
  intro parser later value unkept ran
  rw [(orderly parser).options_of_ok ran]
  exact ⟨unkept, gives ran⟩

theorem pure {value : α} (here : holds value) : Mutes (Pure.pure value) holds := by
  intro parser later result unkept ran
  cases ran
  exact ⟨unkept, here⟩

theorem bindOf {first : Step α} {next : α → Step β} (here : Mutes first holds)
    (onwards : ∀ value, holds value → Mutes (next value) result) :
    Mutes (first >>= next) result := by
  intro parser later value unkept ran
  obtain ⟨found, between, ranFirst, ranNext⟩ := bind_ok ran
  obtain ⟨unkeptBetween, isFound⟩ := here unkept ranFirst
  exact onwards found isFound unkeptBetween ranNext

theorem bind {first : Step α} {next : α → Step β} (orderly : Orderly (fun _ => True) first)
    (onwards : ∀ value, Mutes (next value) result) : Mutes (first >>= next) result := by
  have anything : Mutes first fun _ => True := of_gives orderly fun _ _ _ _ => trivial
  exact anything.bindOf fun value _ => onwards value

theorem never {step : Step α} (never : ∀ {parser value later}, step parser ≠ .ok value later) :
    Mutes step holds :=
  fun _ _ _ _ ran => absurd ran never

theorem ite {condition : Prop} [Decidable condition] {left right : Step α}
    (onTrue : Mutes left holds) (onFalse : Mutes right holds) :
    Mutes (if condition then left else right) holds := by
  split
  · exact onTrue
  · exact onFalse

theorem loop {turn : σ → Step (ForInStep σ)} {holds : σ → Prop}
    (turns : ∀ state, holds state → Mutes (turn state) fun decision => holds decision.value)
    {state : σ} (start : holds state) : Mutes (Step.loop turn state) holds := by
  intro parser later final unkept ran
  rcases loop_ok ran with ran | ⟨next, between, ran, ⟨shorter, rest⟩ | ⟨-, rfl, rfl⟩⟩
  · exact turns state start unkept ran
  · obtain ⟨unkeptBetween, here⟩ := turns state start unkept ran
    exact loop turns here unkeptBetween rest
  · exact turns state start unkept ran
termination_by parser => parser.cursor.remaining

theorem ifAt {kind : Kind} {part : Step α} (parts : Mutes part holds) :
    Mutes (Step.ifAt kind part) fun found => ∀ value ∈ found, holds value :=
  .bind (.check _) fun _ => .ite (parts.bindOf fun _ here => .pure (by simpa using here))
    (.pure (by simp))

theorem ifBehind {kind : Kind} {part : Step α} (parts : Mutes part holds) :
    Mutes (Step.ifBehind kind part) fun found => ∀ value ∈ found, holds value :=
  .bind (fun parser => Run.eat fun _ => trivial) fun _ =>
    .ite (parts.bindOf fun _ here => .pure (by simpa using here)) (.pure (by simp))

theorem whileAt {kind : Kind} {item : Step α} (items : Mutes item holds) :
    Mutes (Step.whileAt kind item) fun found => ∀ value ∈ found, holds value := by
  refine loop (fun found start => .bind (.check _) fun _ => .ite ?_ (.pure start)) (by simp)
  exact items.bindOf fun _ here => .pure (Gives.append start here)

/-- A part that may be recovered gives what it gives, or what stands for the tokens that are
skipped. -/
theorem tryCatch {part : Step α} {handle : Diagnostic → Step α}
    (orderly : Orderly (fun _ => True) part) (parts : Mutes part holds)
    (handled : ∀ diagnostic, Mutes (handle diagnostic) holds) :
    Mutes (MonadExcept.tryCatch part handle) holds := by
  intro parser later value unkept ran
  have options := (orderly parser).options_eq
  rw [tryCatch_eq] at ran
  split at ran
  · rename_i found between here
    cases ran
    exact parts unkept here
  · rename_i diagnostic between failed
    rw [after_of_error failed] at options
    exact handled _ (options ▸ unkept) ran

theorem recover {point : SyncPoint} {start : Cursor} {diagnostic : Diagnostic} :
    Mutes (Step.recover point start diagnostic) fun _ => True := by
  intro parser later span unkept ran
  cases ran
  rw [Parser.options_report]
  exact ⟨unkept, trivial⟩

theorem recoverDefinition {start : Cursor} {diagnostic : Diagnostic} :
    Mutes (Step.recoverDefinition start diagnostic) fun _ => True := by
  intro parser later span unkept ran
  cases ran
  rw [Parser.options_report]
  exact ⟨unkept, trivial⟩

theorem orRecover {point : SyncPoint} {part : Step α} {instead : Span → α}
    (orderly : Orderly (fun _ => True) part) (parts : Mutes part holds)
    (skipped : ∀ span, holds (instead span)) : Mutes (Step.orRecover point part instead) holds :=
  .bind .cursor fun _ => .tryCatch orderly parts fun _ => recover.bindOf fun span _ =>
    .pure (skipped span)

theorem orSkip {part : Step α} {instead : Span → α} (orderly : Orderly (fun _ => True) part)
    (parts : Mutes part holds) (skipped : ∀ span, holds (instead span)) :
    Mutes (Step.orSkip part instead) holds :=
  .bind .cursor fun _ => .tryCatch orderly parts fun _ => recoverDefinition.bindOf fun span _ =>
    .pure (skipped span)

theorem takeComments : Mutes Step.takeComments fun comments => comments = [] := by
  intro parser later comments unkept ran
  rw [takeComments_eq, if_neg (by rw [unkept]; exact Bool.false_ne_true)] at ran
  cases ran
  exact ⟨unkept, rfl⟩

end Step.Mutes

namespace Grammar

structure StmtParts.AreMute (parts : StmtParts) : Prop where
  eager : parts.AreEager fun _ => True
  body : ∀ kind, Mutes (parts.body kind) (IsSilent CallableBody.sifted)

section Parts

variable {parts : StmtParts} (mute : parts.AreMute)

/-! ### Statements without bodies -/

theorem varAssignment_silent : Gives (varAssignment parts) Stmt.Silent :=
  .bind fun _ => .bind fun _ => .bind fun _ => .bind fun _ => .bind fun _ => .bind fun _ =>
    .pure rfl

theorem wordStatement_silent (word : Keyword) {make : Span → Stmt}
    (made : ∀ span, (make span).Silent) : Gives (wordStatement word make) Stmt.Silent :=
  .bind fun _ => .bind fun _ => .bind fun _ => .pure (made _)

theorem valueStatement_silent (word : Keyword) {make : Expr → Span → Stmt}
    (made : ∀ value span, (make value span).Silent) :
    Gives (valueStatement parts word make) Stmt.Silent :=
  .bind fun _ => .bind fun _ => .bind fun _ => .bind fun _ => .pure (made _ _)

theorem returnStatement_silent : Gives (returnStatement parts) Stmt.Silent :=
  .bind fun _ => .bind fun _ => .bind fun _ => .bind fun _ => .pure rfl

theorem exprStatementEnd_silent (first : Expr) (others : List Expr) :
    Gives (exprStatementEnd parts first others) Stmt.Silent := by
  refine .bind fun kind => ?_
  split
  · exact .bind fun _ => .bind fun _ => .bind fun _ => .bind fun _ => .bind fun _ => .pure rfl
  · exact .bind fun _ => .bind fun _ => .bind fun _ => .bind fun _ => .pure rfl
  · exact .bind fun _ => .bind fun _ => .bind fun _ => .bind fun _ => .bind fun _ => .pure rfl
  · unfold callEnd
    split
    · exact .bind fun _ => .pure rfl
    · exact .fail _

theorem plainStatement_silent : Gives (plainStatement parts) Stmt.Silent := by
  refine .bind fun _ => .ite (.bind fun _ => .pure rfl) (.bind fun _ => .ite ?_ ?_)
  · exact .bind fun _ => .bind fun _ => .pure rfl
  · refine .bind fun _ => .ite ?_ (.failAt _)
    exact .bind fun first => .bind fun others => exprStatementEnd_silent first others

theorem transformVarDef_silent : Gives (transformVarDef parts) Stmt.Silent :=
  .bind fun _ => .bind fun _ => .bind fun _ => .bind fun _ => .bind fun _ => .bind fun _ =>
    .pure rfl

theorem transformAssignment_silent : Gives (transformAssignment parts) Stmt.Silent :=
  .bind fun _ => .bind fun _ => .bind fun _ => .bind fun _ => .bind fun _ => .bind fun _ =>
    .pure rfl

/-! ### Parts with bodies -/

include mute

theorem block_mutes : Mutes parts.block (IsSilent Block.sifted) :=
  (mute.body .block).bindOf fun _ body => .pure (CallableBody.isSilent_toBlock body)

theorem worker_mutes : Mutes (worker parts) (IsSilent Worker.sifted) :=
  .bind (fun _ => Run.expect fun _ => trivial) fun _ => .bind .expectIdentifier fun _ =>
    (mute.body _).bindOf fun _ body => .pure (by rw [IsSilent, Worker.sifted, body])

theorem elseIf_mutes (word : Token) : Mutes (elseIf parts word) (IsSilent ElseIf.sifted) :=
  .bind (condition_eager mute.eager.exprParts).orderly fun _ =>
    (block_mutes mute).bindOf fun _ block => .pure (by rw [IsSilent, ElseIf.sifted, block])

theorem elseBranches_mutes :
    Mutes (elseBranches parts) fun found =>
      (∀ branch ∈ found.1, IsSilent ElseIf.sifted branch) ∧
        ∀ block ∈ found.2, IsSilent Block.sifted block := by
  refine .loop (fun found start => .bind (.eat? rfl) fun word => ?_) ⟨by simp, by simp⟩
  split
  · exact .pure start
  · refine .bind (.eat rfl) fun _ => .ite ?_ ?_
    · exact (elseIf_mutes mute _).bindOf fun _ here => .pure ⟨Gives.append start.1 here, start.2⟩
    · exact (block_mutes mute).bindOf fun _ block => .pure ⟨start.1, by simpa using block⟩

theorem forkWorkers_mutes :
    Mutes (forkWorkers parts) fun workers => ∀ worker ∈ workers, IsSilent Worker.sifted worker := by
  have one : Mutes (forkWorker parts) (IsSilent Worker.sifted) :=
    .bind (.check _) fun _ => .ite (worker_mutes mute) (.bind .peek fun _ => .never fail_ne_ok)
  refine .loop (fun workers start => .bind .current fun _ => .ite (.pure start) ?_) (by simp)
  refine .bindOf (.orRecover (.bind (forkWorker_eager mute.eager).orderly fun _ => .pure _)
    (one.bindOf fun _ here => .pure ?_) fun _ => start) fun _ all => .pure all
  exact Gives.append start here

theorem joinClause_mutes : Mutes (joinClause parts) (IsSilent Join.sifted) :=
  .bind (fun _ => Run.expect fun _ => trivial) fun _ => .bind bracketedCondition_orderly fun _ =>
    .bind (clauseBinding_orderly mute.eager) fun _ => (block_mutes mute).bindOf fun _ body =>
      .pure (by rw [IsSilent, Join.sifted, body])

theorem timeoutClause_mutes : Mutes (timeoutClause parts) (IsSilent Timeout.sifted) :=
  .bind (fun _ => Run.expect fun _ => trivial) fun _ =>
    .bind (condition_eager mute.eager.exprParts).orderly fun _ =>
      .bind (clauseBinding_orderly mute.eager) fun _ => (block_mutes mute).bindOf fun _ body =>
        .pure (by rw [IsSilent, Timeout.sifted, body])

theorem catchClause_mutes : Mutes (catchClause parts) (IsSilent Catch.sifted) :=
  .bind (fun _ => Run.expect fun _ => trivial) fun _ =>
    .bind (clauseBinding_orderly mute.eager) fun _ => (block_mutes mute).bindOf fun _ body =>
      .pure (by rw [IsSilent, Catch.sifted, body])

def Handlers.AreSilent (found : Handlers) : Prop :=
  ∀ isAborted, ∀ block ∈ found.get isAborted, IsSilent Block.sifted block

omit mute in
theorem Handlers.AreSilent.set {found : Handlers} (start : found.AreSilent) (isAborted : Bool)
    {block : Block} (here : IsSilent Block.sifted block) :
    (found.set isAborted block).AreSilent := by
  intro other
  cases isAborted <;> cases other
  · exact fun _ same => Option.some.inj same ▸ here
  · exact start true
  · exact start false
  · exact fun _ same => Option.some.inj same ▸ here

theorem handlers_mutes : Mutes (handlers parts) Handlers.AreSilent := by
  have one (isAborted : Bool) {found : Handlers} (start : found.AreSilent) :
      Mutes (handler parts isAborted found) Handlers.AreSilent :=
    .bind (fun _ => Run.expect fun _ => trivial) fun _ => (block_mutes mute).bindOf fun _ block =>
      .ite (.bind (.report ⟨rfl, nofun⟩) fun _ => .pure start) (.pure (start.set isAborted block))
  refine .loop (fun found start => .bind (.check _) fun _ => .ite ?_
    (.bind (.check _) fun _ => .ite ?_ (.pure start))) ?_
  · exact (one true start).bindOf fun _ here => .pure here
  · exact (one false start).bindOf fun _ here => .pure here
  · intro isAborted
    cases isAborted <;> simp [Handlers.get, Handlers.none]

/-! ### Statements with bodies -/

theorem ifStatement_mutes : Mutes (ifStatement parts) Stmt.Silent := by
  refine .bind (fun _ => Run.expect fun _ => trivial) fun _ =>
    .bind (condition_eager mute.eager.exprParts).orderly fun _ =>
      (block_mutes mute).bindOf fun _ thenBlock => (elseBranches_mutes mute).bindOf
        fun _ branches => .bind (.spanFrom _) fun _ => .pure ?_
  simp only [Stmt.Silent, Stmt.allSifted, Stmt.sifted, ElseIf.allSifted_eq_map,
    Block.siftedIfAny_eq_map]
  rw [thenBlock, map_of_isSilent branches.1, optionMap_of_isSilent branches.2]

theorem iterateStatement_mutes : Mutes (iterateStatement parts) Stmt.Silent := by
  refine .bind (fun _ => Run.expect fun _ => trivial) fun _ => .bind (.symbol _) fun _ =>
    .bind mute.eager.exprParts.typeName.orderly fun _ => .bind .expectIdentifier fun _ =>
      .bind (.symbol _) fun _ => .bind (anyExpr_eager mute.eager.exprParts).orderly fun _ =>
        .bind (.symbol _) fun _ => (block_mutes mute).bindOf fun _ body => .pure ?_
  simp only [Stmt.Silent, Stmt.allSifted, Stmt.sifted]
  rw [body]

theorem whileStatement_mutes : Mutes (whileStatement parts) Stmt.Silent := by
  refine .bind (fun _ => Run.expect fun _ => trivial) fun _ =>
    .bind (condition_eager mute.eager.exprParts).orderly fun _ =>
      (block_mutes mute).bindOf fun _ body => .pure ?_
  simp only [Stmt.Silent, Stmt.allSifted, Stmt.sifted]
  rw [body]

theorem forkStatement_mutes : Mutes (forkStatement parts) Stmt.Silent := by
  refine .bind (fun _ => Run.expect fun _ => trivial) fun _ => .bind (.symbol _) fun _ =>
    (forkWorkers_mutes mute).bindOf fun _ workers => .bind .closeBrace fun _ =>
      .bindOf (.ifAt (joinClause_mutes mute)) fun _ join =>
        .bindOf (.ifAt (timeoutClause_mutes mute)) fun _ timeout => .bind (.spanFrom _) fun _ =>
          .pure ?_
  simp only [Stmt.Silent, Stmt.allSifted, Stmt.sifted, Worker.allSifted_eq_map,
    Join.siftedIfAny_eq_map, Timeout.siftedIfAny_eq_map]
  rw [map_of_isSilent workers, optionMap_of_isSilent join, optionMap_of_isSilent timeout]

theorem tryStatement_mutes : Mutes (tryStatement parts) Stmt.Silent := by
  refine .bind (fun _ => Run.expect fun _ => trivial) fun _ => (block_mutes mute).bindOf
    fun _ body => .bindOf (.whileAt (catchClause_mutes mute)) fun _ catches =>
      .bindOf (.ifBehind (block_mutes mute)) fun _ finallyBlock => .bind (.spanFrom _) fun _ =>
        .bind (checkClauses_orderly _ _ _) fun _ => .pure ?_
  simp only [Stmt.Silent, Stmt.allSifted, Stmt.sifted, Catch.allSifted_eq_map,
    Block.siftedIfAny_eq_map]
  rw [body, map_of_isSilent catches, optionMap_of_isSilent finallyBlock]

theorem transactionStatement_mutes : Mutes (transactionStatement parts) Stmt.Silent := by
  refine .bind (fun _ => Run.expect fun _ => trivial) fun _ => (block_mutes mute).bindOf
    fun _ body => (handlers_mutes mute).bindOf fun handlers found => .bind (.spanFrom _) fun _ =>
      .pure ?_
  have aborted : handlers.aborted.map (Block.sifted .silent) = handlers.aborted :=
    optionMap_of_isSilent (found true)
  have committed : handlers.committed.map (Block.sifted .silent) = handlers.committed :=
    optionMap_of_isSilent (found false)
  simp only [Stmt.Silent, Stmt.allSifted, Stmt.sifted, Block.siftedIfAny_eq_map]
  rw [body, aborted, committed]

theorem transformStatement_mutes : Mutes (transformStatement parts) Stmt.Silent := by
  refine .bind (fun _ => Run.expect fun _ => trivial) fun _ => (mute.body _).bindOf
    fun _ body => .pure ?_
  simp only [Stmt.Silent, Stmt.allSifted, Stmt.sifted]
  rw [CallableBody.isSilent_toBlock body]

theorem statementWith_mutes : Mutes (statementWith parts) Stmt.Silent := by
  refine .bind .current fun kind => ?_
  split
  · exact .of_gives (varAssignment_eager mute.eager).orderly varAssignment_silent
  · exact ifStatement_mutes mute
  · exact iterateStatement_mutes mute
  · exact whileStatement_mutes mute
  · exact .of_gives (wordStatement_eager rfl _).orderly (wordStatement_silent _ fun _ => rfl)
  · exact .of_gives (wordStatement_eager rfl _).orderly (wordStatement_silent _ fun _ => rfl)
  · exact .of_gives (wordStatement_eager rfl _).orderly (wordStatement_silent _ fun _ => rfl)
  · exact forkStatement_mutes mute
  · exact tryStatement_mutes mute
  · exact .of_gives (valueStatement_eager mute.eager rfl _).orderly
      (valueStatement_silent _ fun _ _ => rfl)
  · exact .of_gives (returnStatement_eager mute.eager).orderly returnStatement_silent
  · exact .of_gives (valueStatement_eager mute.eager rfl _).orderly
      (valueStatement_silent _ fun _ _ => rfl)
  · exact transformStatement_mutes mute
  · exact transactionStatement_mutes mute
  · exact .bind namespaceDecl_eager.orderly fun _ => .pure rfl
  · exact .of_gives (plainStatement_eager mute.eager).orderly plainStatement_silent

theorem transformItem_mutes : Mutes (transformItem parts) Stmt.Silent := by
  refine .bind (.check _) fun _ => .ite (transformStatement_mutes mute) (.bind .isVarDef fun _ =>
    .ite ?_ (.bind (.check _) fun _ => .ite ?_ (.never failAt_ne_ok)))
  · exact .of_gives (transformVarDef_eager mute.eager).orderly transformVarDef_silent
  · exact .of_gives (transformAssignment_eager mute.eager).orderly transformAssignment_silent

/-! ### Bodies -/

structure BodyItems.AreSilent (items : BodyItems) : Prop where
  statements : ∀ statement ∈ items.statements, statement.Silent
  workers : ∀ worker ∈ items.workers, IsSilent Worker.sifted worker

omit mute in
theorem BodyItems.AreSilent.addStatement {items : BodyItems} (start : items.AreSilent)
    {statement : Stmt} (here : statement.Silent) : (items.addStatement statement).AreSilent :=
  ⟨Gives.append start.statements here, start.workers⟩

omit mute in
theorem BodyItems.AreSilent.addWorker {items : BodyItems} (start : items.AreSilent)
    {worker : Worker} (here : IsSilent Worker.sifted worker) : (items.addWorker worker).AreSilent :=
  ⟨start.statements, Gives.append start.workers here⟩

theorem bodyItem_mutes {kind : BodyKind} {items : BodyItems} (start : items.AreSilent) :
    Mutes (bodyItem parts kind items) BodyItems.AreSilent := by
  refine .bind (.check _) fun _ => .ite (.ite ?_ (.bind .peek fun _ => .never fail_ne_ok))
    (.ite ?_ ?_)
  · exact (worker_mutes mute).bindOf fun _ here => .pure (start.addWorker here)
  · exact (transformItem_mutes mute).bindOf fun _ here => .pure (start.addStatement here)
  · exact (statementWith_mutes mute).bindOf fun _ here => .pure (start.addStatement here)

theorem bodyItems_mutes (kind : BodyKind) :
    Mutes (bodyItems parts kind) BodyItems.AreSilent := by
  refine .loop (fun items start => Mutes.takeComments.bindOf fun comments none => ?_)
    ⟨by simp, by simp⟩
  have before : (items.addComments comments).AreSilent := by
    rw [none, BodyItems.addComments, List.map_nil, List.append_nil]
    exact start
  refine .bind .current fun _ => .ite (.pure before) (.bindOf (.orRecover
    (bodyItem_eager mute.eager kind _).orderly (bodyItem_mutes mute before) ?_) fun _ here =>
      .pure here)
  exact fun span => before.addStatement rfl

theorem bodyWith_mutes (kind : BodyKind) :
    Mutes (bodyWith parts kind) (IsSilent CallableBody.sifted) :=
  .bind (.symbol _) fun _ => (bodyItems_mutes mute kind).bindOf fun _ items =>
    .bind .closeBrace fun _ => .bind (.spanFrom _) fun _ =>
      .pure (CallableBody.isSilent items.statements items.workers)

end Parts

theorem body_mutes (room : Nat) (kind : BodyKind) :
    Mutes (body room kind) (IsSilent CallableBody.sifted) := by
  induction room generalizing kind with
  | zero => exact .never tooDeep_ne_ok
  | succ room ih => exact bodyWith_mutes ⟨StmtParts.within_areEager room, ih⟩ kind

/-! ### Definitions -/

section Room

variable {room : Nat}

theorem callableEnd_mutes {α : Type} {native : Bool} {part : Step α} {holds : α → Prop}
    (parts : Mutes part holds) :
    Mutes (callableEnd native part) fun body => ∀ found ∈ body, holds found := by
  cases native with
  | true => exact .bind .endStatement fun _ => .pure (by simp)
  | false => exact parts.bindOf fun _ here => .pure (by simpa using here)

theorem members_mute {α : Type} {member : Step α} {holds : α → Prop}
    (eager : Eager (fun _ => True) member) (each : Mutes member holds) :
    Mutes (members member) fun found => ∀ value ∈ found, holds value := by
  refine .bindOf (.loop (fun found start => .bind .current fun _ => .bind (.kindNth _) fun _ =>
    .ite (.pure start) ?_) (by simp)) fun _ all => .bind .closeBrace fun _ => .pure all
  refine .bindOf (.orRecover (.bind eager.orderly fun _ => .pure _)
    (each.bindOf fun _ here => .pure ?_) fun _ => start) fun _ all => .pure all
  exact Gives.append start here

def SilentMember {α : Type} (sifted : Sieve → α → α) : VarDef ⊕ α → Prop
  | .inl _ => True
  | .inr definition => IsSilent sifted definition

theorem silent_of_members {α : Type} {sifted : Sieve → α → α} {found : List (VarDef ⊕ α)}
    (all : ∀ member ∈ found, SilentMember sifted member) :
    ∀ other ∈ found.filterMap Sum.getRight?, IsSilent sifted other := by
  intro other inside
  obtain ⟨member, isIn, isRight⟩ := List.mem_filterMap.mp inside
  have here := all member isIn
  rw [Sum.getRight?_eq_some_iff.mp isRight] at here
  exact here

theorem resource_mutes : Mutes (resource room) (IsSilent ResourceDef.sifted) :=
  .bind .peek fun _ => .bind (attachments_orderly room) fun _ =>
    .bind (fun _ => Run.expect fun _ => trivial) fun _ => .bind .expectIdentifier fun _ =>
      .bind (params_orderly room) fun _ => (body_mutes room _).bindOf fun _ body =>
        .pure (by rw [IsSilent, ResourceDef.sifted, body])

theorem serviceMember_mutes :
    Mutes (serviceMember room) (SilentMember ResourceDef.sifted) := by
  refine .bind .current fun _ => .ite ?_ (.bind .isVarDef fun _ => .ite ?_ (.never failAt_ne_ok))
  · exact resource_mutes.bindOf fun _ here => .pure here
  · exact .bind (varDef_eager (StmtParts.within_areEager room)).orderly fun _ => .pure trivial

theorem action_mutes : Mutes (action room) (IsSilent CallableDef.sifted) :=
  .bind .peek fun _ => .bind (attachments_orderly room) fun _ =>
    .bind (fun _ => Run.eat fun _ => trivial) fun _ =>
      .bind (fun _ => Run.expect fun _ => trivial) fun _ => .bind (signature_orderly room) fun _ =>
        (callableEnd_mutes (body_mutes room _)).bindOf fun _ body => .bind (.spanFrom _) fun _ =>
          .pure (by rw [IsSilent, CallableDef.sifted, optionMap_of_isSilent body])

theorem connectorMember_mutes :
    Mutes (connectorMember room) (SilentMember CallableDef.sifted) := by
  refine .bind .current fun _ => .ite ?_ (.bind .isVarDef fun _ => .ite ?_ (.never failAt_ne_ok))
  · exact action_mutes.bindOf fun _ here => .pure here
  · exact .bind (varDef_eager (StmtParts.within_areEager room)).orderly fun _ => .pure trivial

variable {header : Header}

theorem service_mutes : Mutes (service room header) (IsSilent ServiceDef.sifted) :=
  .bind (fun _ => Run.expect fun _ => trivial) fun _ => .bind (.symbol _) fun _ =>
    .bind .expectIdentifier fun _ => .bind (.symbol _) fun _ => .bind .expectIdentifier fun _ =>
      .bind (.symbol _) fun _ =>
        (members_mute (serviceMember_eager room) serviceMember_mutes).bindOf fun _ all =>
          .bind (.spanFrom _) fun _ => .pure (by
            rw [IsSilent, ServiceDef.sifted, map_of_isSilent (silent_of_members all)])

theorem function_mutes : Mutes (function room header) (IsSilent CallableDef.sifted) :=
  .bind (fun _ => Run.eat fun _ => trivial) fun _ =>
    .bind (fun _ => Run.expect fun _ => trivial) fun _ => .bind (signature_orderly room) fun _ =>
      (callableEnd_mutes (body_mutes room _)).bindOf fun _ body => .bind (.spanFrom _) fun _ =>
        .pure (by rw [IsSilent, CallableDef.sifted, optionMap_of_isSilent body])

theorem connector_mutes : Mutes (connector room header) (IsSilent ConnectorDef.sifted) :=
  .bind (fun _ => Run.expect fun _ => trivial) fun _ => .bind .expectIdentifier fun _ =>
    .bind (params_orderly room) fun _ => .bind (.symbol _) fun _ =>
      (members_mute (connectorMember_eager room) connectorMember_mutes).bindOf fun _ all =>
        .bind (.spanFrom _) fun _ => .pure (by
          rw [IsSilent, ConnectorDef.sifted, map_of_isSilent (silent_of_members all)])

theorem typeMapper_mutes : Mutes (typeMapper room header) (IsSilent TypeMapperDef.sifted) := by
  have block : Mutes (block room) (IsSilent Block.sifted) :=
    (body_mutes room .block).bindOf fun _ body => .pure (CallableBody.isSilent_toBlock body)
  refine .bind (fun _ => Run.eat fun _ => trivial) fun _ =>
    .bind (fun _ => Run.expect fun _ => trivial) fun _ => .bind .expectIdentifier fun _ =>
      .bind (.symbol _) fun _ => .bind (param_orderly room) fun _ => .bind (.symbol _) fun _ =>
        .bind (.symbol _) fun _ => .bind (typeName_eager room).orderly fun _ =>
          .bind (.symbol _) fun _ => (callableEnd_mutes block).bindOf fun _ body =>
            .bind (.spanFrom _) fun _ => .pure ?_
  rw [IsSilent, TypeMapperDef.sifted, optionMap_of_isSilent body]

theorem headedDefinition_mutes :
    Mutes (headedDefinition room header) (IsSilent Definition.sifted) := by
  have functions : Mutes (do return Definition.function (← function room header))
      (IsSilent Definition.sifted) :=
    function_mutes.bindOf fun _ here => .pure (congrArg Definition.function here)
  have typeMappers : Mutes (do return Definition.typeMapper (← typeMapper room header))
      (IsSilent Definition.sifted) :=
    typeMapper_mutes.bindOf fun _ here => .pure (congrArg Definition.typeMapper here)
  have natives : Mutes (nativeDefinition room header) (IsSilent Definition.sifted) := by
    refine .bind (.kindNth _) fun kind => ?_
    split
    · exact functions
    · exact typeMappers
    · exact .bind .cursor fun _ => .never fail_ne_ok
  have misplaced : Mutes misplacedDirective (IsSilent Definition.sifted) :=
    .bind .peek fun _ => .never fail_ne_ok
  refine .bind .current fun kind => ?_
  split
  · exact service_mutes.bindOf fun _ here => .pure (congrArg Definition.service here)
  · exact functions
  · exact natives
  · exact connector_mutes.bindOf fun _ here => .pure (congrArg Definition.connector here)
  · exact .bind (fun _ => (struct_eagerAt room header trivial).run) fun _ => .pure rfl
  · exact typeMappers
  · exact .bind (fun _ => (constant_eagerAt room header trivial).run) fun _ => .pure rfl
  · exact .bind (fun _ => (annotationDef_eagerAt room header trivial).run) fun _ => .pure rfl
  · exact misplaced
  · exact misplaced
  · exact misplaced
  · exact .bind .isVarDef fun _ => .ite
      (.bind (globalVar_eager room header).orderly fun _ => .pure rfl) (.never failAt_ne_ok)

theorem definition_mutes : Mutes (definition room) (IsSilent Definition.sifted) :=
  .bind .peek fun _ => .bind (attachments_orderly room) fun _ => headedDefinition_mutes

end Room

theorem sourceUnit_mutes (room : Nat) : Mutes (sourceUnit room) (IsSilent SourceUnit.sifted) := by
  have all : Mutes (definitions room) fun found =>
      ∀ item ∈ found, IsSilent Definition.sifted item := by
    refine .loop (fun found start => .bind (.check _) fun _ => .ite (.pure start) ?_) (by simp)
    refine .bindOf (.orSkip (definition_eager room).orderly definition_mutes fun _ => rfl)
      fun item here => .pure ?_
    exact Gives.append start here
  refine .bind .peek fun _ => .bind packageHeader_orderly fun _ => .bind directives_orderly
    fun _ => all.bindOf fun items here => .bind .peek fun _ => .pure ?_
  rw [IsSilent, SourceUnit.sifted, map_of_isSilent here]

end Grammar

/-! ### Keeping comments or not -/

def Options.withComments (options : Options) (keep : Bool) : Options :=
  { options with keepComments := keep }

/-- A tree without its comments. Everything else stays, the places included. -/
def SourceUnit.withoutComments (unit : SourceUnit) : SourceUnit :=
  unit.sifted .silent

namespace Matching

structure SameRecords (left right : Parser) : Prop where
  diagnostics : left.diagnostics = right.diagnostics
  reportedAt : left.reportedAt = right.reportedAt
  limitHit : left.limitHit = right.limitHit
  maxErrors : left.options.maxErrors = right.options.maxErrors

theorem SameRecords.report {left right : Parser} (same : SameRecords left right)
    (diagnostic : Diagnostic) : SameRecords (left.report diagnostic) (right.report diagnostic) := by
  by_cases hit : left.limitHit = true
  · rw [Parser.report_of_limitHit hit, Parser.report_of_limitHit (same.limitHit ▸ hit)]
    exact same
  by_cases repeated : left.Repeats diagnostic
  · have otherRepeated : right.Repeats diagnostic := ⟨repeated.1, same.reportedAt ▸ repeated.2⟩
    rw [Parser.report_of_repeats repeated, Parser.report_of_repeats otherRepeated]
    exact same
  have below : left.limitHit = false := Bool.eq_false_iff.mpr hit
  have isNew : ¬right.Repeats diagnostic := fun again =>
    repeated ⟨again.1, same.reportedAt ▸ again.2⟩
  have offsets : left.offsetsWith diagnostic = right.offsetsWith diagnostic := by
    rw [Parser.offsetsWith, Parser.offsetsWith, same.reportedAt]
  rw [Parser.report_of_new below repeated, Parser.report_of_new (same.limitHit ▸ below) isNew,
    ← same.maxErrors, ← same.diagnostics, ← offsets]
  cases bound : left.options.maxErrors with
  | none => exact ⟨rfl, rfl, same.limitHit, same.maxErrors⟩
  | some limit =>
      dsimp only
      split
      · exact ⟨rfl, rfl, rfl, same.maxErrors⟩
      · exact ⟨rfl, rfl, same.limitHit, same.maxErrors⟩

def silence : Matching where
  toView := { View.exact with sieve := .silent }
  Records := SameRecords
  moved _ _ records := ⟨records.diagnostics, records.reportedAt, records.limitHit, records.maxErrors⟩
  reported records same spans := Diagnostic.eq_of_unplaced same spans ▸ records.report _

end Matching

theorem sameRecords_ofTokens (tokens : List Token) (errors : List LexicalError)
    (options : Options) (keep other : Bool) :
    Matching.SameRecords (.ofTokens tokens errors (options.withComments keep))
      (.ofTokens tokens errors (options.withComments other)) :=
  List.foldl_rel ⟨rfl, rfl, rfl, rfl⟩ fun problem _ _ _ same => same.report problem.toDiagnostic

/-- A tree that is read without keeping comments holds none. -/
theorem withoutComments_of_unkept (source : String) {options : Options}
    (unkept : options.keepComments = false) :
    (parseWith source options).1.withoutComments = (parseWith source options).1 := by
  obtain ⟨unit, later, ran⟩ :=
    Grammar.sourceUnit_succeeds options.maxDepth (.ofSource source options)
  have start : (Parser.ofSource source options).options.keepComments = false :=
    (congrArg Options.keepComments (Parser.options_ofSource source options)).trans unkept
  rw [parseWith_of_ok ran]
  exact (Grammar.sourceUnit_mutes options.maxDepth start ran).2

/-- Dropping comments changes nothing else: for every source and all other options, the tree
that is read without keeping comments is the one that keeps them with its comments taken out,
places included, and the same is reported. -/
theorem parseWith_withoutComments (source : String) (options : Options) :
    parseWith source (options.withComments false) =
      ((parseWith source (options.withComments true)).1.withoutComments,
        (parseWith source (options.withComments true)).2) := by
  have parsers : Matching.silence.Parsers
      (.ofSource source (options.withComments false))
      (.ofSource source (options.withComments true)) :=
    Matching.parsers_ofTokens (List.forall₂_same.mpr fun _ _ => ⟨rfl, fun _ => ⟨rfl, rfl, rfl⟩⟩)
      (.inr ⟨rfl, rfl, rfl⟩) rfl nofun (sameRecords_ofTokens _ _ options false true)
  obtain ⟨trees, later, other, behind, reported, otherReported⟩ := Matching.readUnit_agree parsers
    (Parser.depth_ofSource _ _) (Parser.depth_ofSource _ _)
  -- The trees agree once the comments are taken out of both; the left one has none.
  have same : SourceUnit.sifted .silent (SourceUnit.placedBy id _) =
    SourceUnit.sifted .silent (SourceUnit.placedBy id _) := trees.same
  rw [SourceUnit.placedBy_id, SourceUnit.placedBy_id] at same
  apply Prod.ext
  · exact (withoutComments_of_unkept source rfl).symm.trans same
  · exact reported.trans (behind.records.diagnostics.trans otherReported.symm)

end ServiceLang
