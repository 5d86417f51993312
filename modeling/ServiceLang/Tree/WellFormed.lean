import ServiceLang.Tree.Definition
import ServiceLang.Tree.Writable

set_option autoImplicit false

/-! The shapes that readers of a tree may rely on without checking: which lists are
never empty, which expressions stand where, and what goes together in one node. -/

namespace ServiceLang

/-! ### Expressions -/

/-- Only a number has a minus sign of its own. -/
def Literal.WellFormed (literal : Literal) : Prop :=
  literal.negative = true → literal.value.isNumber = true

def TypeName.isValue : TypeName → Bool
  | .value _ _ => true
  | _ => false

mutual

/-- An expression in which no connector is created and no action invoked. -/
def Expr.IsPlain : Expr → Prop
  | .literal value => value.WellFormed
  | .template _ _ => True
  | .array elements _ => Expr.AllPlain elements
  | .mapping entries _ => MapEntry.AllPlain entries
  | .reference target => target.IsPlain
  | .call _ arguments _ => Expr.AllPlain arguments
  | .invoke .. | .create .. => False
  | .typeMember type _ _ => type.isBuiltIn = true
  | .cast _ operand _ | .convert _ operand _ | .unary _ operand _ => operand.IsPlain
  | .binary _ left right _ => left.IsPlain ∧ right.IsPlain
  | .paren inner _ => inner.IsPlain

def Expr.AllPlain : List Expr → Prop
  | [] => True
  | expr :: rest => expr.IsPlain ∧ Expr.AllPlain rest

def MapEntry.AllPlain : List MapEntry → Prop
  | [] => True
  | ⟨key, value, _⟩ :: rest => key.IsPlain ∧ value.IsPlain ∧ MapEntry.AllPlain rest

def Reference.IsPlain : Reference → Prop
  | .name _ => True
  | .index base position _ => base.IsPlain ∧ position.IsPlain
  | .field base _ _ | .attributes base _ | .attributeNamed base _ _ => base.IsPlain
  | .attributeAt base selector _ => base.IsPlain ∧ selector.IsPlain

end

namespace Expr

theorem allPlain_iff (exprs : List Expr) : AllPlain exprs ↔ ∀ expr ∈ exprs, expr.IsPlain := by
  induction exprs with
  | nil => simp [AllPlain]
  | cons expr rest ih => simp [AllPlain, ih]

/-- What may be put into a variable: a connector that is created, the result of an
action, or a plain expression. -/
def IsInitializer : Expr → Prop
  | create _ arguments _ | invoke _ _ arguments _ => AllPlain arguments
  | expr => expr.IsPlain

theorem IsPlain.isInitializer {expr : Expr} (plain : expr.IsPlain) : expr.IsInitializer := by
  cases expr with
  | create connector arguments span => exact plain.elim
  | invoke connector action arguments span => exact plain.elim
  | _ => exact plain

end Expr

theorem MapEntry.allPlain_iff (entries : List MapEntry) :
    MapEntry.AllPlain entries ↔ ∀ entry ∈ entries, entry.key.IsPlain ∧ entry.value.IsPlain := by
  induction entries with
  | nil => simp [AllPlain]
  | cons entry rest ih =>
      obtain ⟨key, value, span⟩ := entry
      simp [AllPlain, ih, and_assoc]

/-! ### Statements -/

def VarDef.WellFormed (definition : VarDef) : Prop :=
  ∀ value ∈ definition.init, value.IsInitializer

def VarDef.IsPlain (definition : VarDef) : Prop :=
  ∃ value, definition.init = some value ∧ value.IsPlain

def Reference.AreTargets (targets : List Reference) : Prop :=
  targets ≠ [] ∧ ∀ target ∈ targets, target.IsPlain

def Expr.AreValues (values : List Expr) : Prop :=
  values ≠ [] ∧ ∀ value ∈ values, value.IsPlain

mutual

/-- What a transformation consists of: variables with plain values, assignments of
plain values, further transformations, comments, and what stands for skipped tokens. -/
def Stmt.Transforms : Stmt → Prop
  | .varDef definition => definition.IsPlain
  | .assign declares targets value _ =>
      declares = false ∧ Reference.AreTargets targets ∧ value.IsPlain
  | .transform body _ => body.Transforms
  | .comment _ _ | .broken _ => True
  | _ => False

def Stmt.AllTransform : List Stmt → Prop
  | [] => True
  | statement :: rest => statement.Transforms ∧ Stmt.AllTransform rest

def Block.Transforms : Block → Prop
  | ⟨statements, _, _⟩ => Stmt.AllTransform statements

end

mutual

def Stmt.WellFormed : Stmt → Prop
  | .varDef definition => definition.WellFormed
  | .assign _ targets value _ => Reference.AreTargets targets ∧ value.IsInitializer
  | .ifElse condition thenBlock elseIfs elseBlock _ =>
      condition.IsPlain ∧ thenBlock.WellFormed ∧ ElseIf.AllWellFormed elseIfs ∧
        Block.WellFormedIfAny elseBlock
  | .iterate _ _ collection body _ => collection.IsPlain ∧ body.WellFormed
  | .whileLoop condition body _ => condition.IsPlain ∧ body.WellFormed
  | .forkJoin workers join timeout _ =>
      Worker.AllWellFormed workers ∧ Join.WellFormedIfAny join ∧ Timeout.WellFormedIfAny timeout
  | .tryCatch body catches finallyBlock _ =>
      body.WellFormed ∧ Catch.AllWellFormed catches ∧ Block.WellFormedIfAny finallyBlock
  | .throw value _ | .reply value _ => value.IsPlain
  | .returns values _ => ∀ value ∈ values, value.IsPlain
  | .send values _ _ => Expr.AreValues values
  | .receive targets _ _ =>
      Expr.AreValues targets ∧ ∀ target ∈ targets, target.reference?.isSome = true
  | .invoke _ _ arguments _ | .call _ arguments _ => ∀ value ∈ arguments, value.IsPlain
  | .transform body _ => body.Transforms
  | .transaction body aborted committed _ =>
      body.WellFormed ∧ Block.WellFormedIfAny aborted ∧ Block.WellFormedIfAny committed
  | .continueLoop _ | .breakLoop _ | .abort _ | .comment _ _ | .namespaceDecl _ | .broken _ => True

def Stmt.AllWellFormed : List Stmt → Prop
  | [] => True
  | statement :: rest => statement.WellFormed ∧ Stmt.AllWellFormed rest

def Block.WellFormed : Block → Prop
  | ⟨statements, _, _⟩ => Stmt.AllWellFormed statements

def Block.WellFormedIfAny : Option Block → Prop
  | some block => block.WellFormed
  | none => True

def CallableBody.WellFormed : CallableBody → Prop
  | ⟨statements, workers, _, _⟩ => Stmt.AllWellFormed statements ∧ Worker.AllWellFormed workers

def Worker.AllWellFormed : List Worker → Prop
  | [] => True
  | ⟨_, body, _⟩ :: rest => body.WellFormed ∧ Worker.AllWellFormed rest

def ElseIf.AllWellFormed : List ElseIf → Prop
  | [] => True
  | ⟨condition, block, _⟩ :: rest =>
      condition.IsPlain ∧ block.WellFormed ∧ ElseIf.AllWellFormed rest

def Join.WellFormedIfAny : Option Join → Prop
  | some ⟨_, _, _, body, _⟩ => body.WellFormed
  | none => True

def Timeout.WellFormedIfAny : Option Timeout → Prop
  | some ⟨timeout, _, _, body, _⟩ => timeout.IsPlain ∧ body.WellFormed
  | none => True

def Catch.AllWellFormed : List Catch → Prop
  | [] => True
  | ⟨_, _, body, _⟩ :: rest => body.WellFormed ∧ Catch.AllWellFormed rest

end

theorem Stmt.allTransform_iff (statements : List Stmt) :
    Stmt.AllTransform statements ↔ ∀ statement ∈ statements, statement.Transforms := by
  induction statements with
  | nil => simp [AllTransform]
  | cons statement rest ih => simp [AllTransform, ih]

theorem Stmt.allWellFormed_iff (statements : List Stmt) :
    Stmt.AllWellFormed statements ↔ ∀ statement ∈ statements, statement.WellFormed := by
  induction statements with
  | nil => simp [AllWellFormed]
  | cons statement rest ih => simp [AllWellFormed, ih]

theorem Worker.allWellFormed_iff (workers : List Worker) :
    Worker.AllWellFormed workers ↔ ∀ worker ∈ workers, worker.body.WellFormed := by
  induction workers with
  | nil => simp [AllWellFormed]
  | cons worker rest ih =>
      obtain ⟨name, body, span⟩ := worker
      simp [AllWellFormed, ih]

theorem CallableBody.wellFormed_iff (body : CallableBody) :
    body.WellFormed ↔
      (∀ statement ∈ body.statements, statement.WellFormed) ∧
        ∀ worker ∈ body.workers, worker.body.WellFormed := by
  obtain ⟨statements, workers, close, span⟩ := body
  rw [WellFormed, Stmt.allWellFormed_iff, Worker.allWellFormed_iff]

theorem ElseIf.allWellFormed_iff (branches : List ElseIf) :
    ElseIf.AllWellFormed branches ↔
      ∀ branch ∈ branches, branch.condition.IsPlain ∧ branch.block.WellFormed := by
  induction branches with
  | nil => simp [AllWellFormed]
  | cons branch rest ih =>
      obtain ⟨condition, block, span⟩ := branch
      simp [AllWellFormed, ih, and_assoc]

theorem Catch.allWellFormed_iff (clauses : List Catch) :
    Catch.AllWellFormed clauses ↔ ∀ clause ∈ clauses, clause.body.WellFormed := by
  induction clauses with
  | nil => simp [AllWellFormed]
  | cons clause rest ih =>
      obtain ⟨type, name, body, span⟩ := clause
      simp [AllWellFormed, ih]

theorem Block.wellFormedIfAny_iff (block : Option Block) :
    Block.WellFormedIfAny block ↔ ∀ found ∈ block, found.WellFormed := by
  cases block <;> simp [WellFormedIfAny]

theorem Join.wellFormedIfAny_iff (clause : Option Join) :
    Join.WellFormedIfAny clause ↔ ∀ found ∈ clause, found.body.WellFormed := by
  rcases clause with _ | ⟨condition, type, name, body, span⟩ <;> simp [WellFormedIfAny]

theorem Timeout.wellFormedIfAny_iff (clause : Option Timeout) :
    Timeout.WellFormedIfAny clause ↔
      ∀ found ∈ clause, found.timeout.IsPlain ∧ found.body.WellFormed := by
  rcases clause with _ | ⟨timeout, type, name, body, span⟩ <;> simp [WellFormedIfAny]

/-! ### Definitions -/

mutual

def Attachment.WellFormed : Attachment → Prop
  | ⟨_, attributes, _⟩ => Attribute.AllWellFormed attributes

def Attribute.AllWellFormed : List Attribute → Prop
  | [] => True
  | ⟨_, value, _⟩ :: rest => value.WellFormed ∧ Attribute.AllWellFormed rest

def AnnotationValue.WellFormed : AnnotationValue → Prop
  | .literal value => value.WellFormed
  | .attachment nested => nested.WellFormed
  | .array elements _ => AnnotationValue.AllWellFormed elements

def AnnotationValue.AllWellFormed : List AnnotationValue → Prop
  | [] => True
  | value :: rest => value.WellFormed ∧ AnnotationValue.AllWellFormed rest

end

theorem Attribute.allWellFormed_iff (attributes : List Attribute) :
    Attribute.AllWellFormed attributes ↔
      ∀ entry ∈ attributes, entry.value.WellFormed := by
  induction attributes with
  | nil => simp [AllWellFormed]
  | cons entry rest ih =>
      obtain ⟨key, value, span⟩ := entry
      simp [AllWellFormed, ih]

theorem AnnotationValue.allWellFormed_iff (values : List AnnotationValue) :
    AnnotationValue.AllWellFormed values ↔ ∀ value ∈ values, value.WellFormed := by
  induction values with
  | nil => simp [AllWellFormed]
  | cons value rest ih => simp [AllWellFormed, ih]

def Attachment.AreWellFormed (attachments : List Attachment) : Prop :=
  ∀ attachment ∈ attachments, attachment.WellFormed

def Param.WellFormed (param : Param) : Prop :=
  Attachment.AreWellFormed param.attachments

def Returns.WellFormed : Returns → Prop
  | .named results => results ≠ [] ∧ ∀ result ∈ results, result.WellFormed
  | .types results => results ≠ []

structure Signature.WellFormed (signature : Signature) : Prop where
  params : ∀ param ∈ signature.params, param.WellFormed
  returns : ∀ returns ∈ signature.returns, returns.WellFormed

structure ResourceDef.WellFormed (definition : ResourceDef) : Prop where
  attachments : Attachment.AreWellFormed definition.attachments
  params : ∀ param ∈ definition.params, param.WellFormed
  body : definition.body.WellFormed

structure ServiceDef.WellFormed (definition : ServiceDef) : Prop where
  attachments : Attachment.AreWellFormed definition.attachments
  varDefs : ∀ varDef ∈ definition.varDefs, varDef.WellFormed
  resources : ∀ resource ∈ definition.resources, resource.WellFormed

structure CallableDef.WellFormed (definition : CallableDef) : Prop where
  attachments : Attachment.AreWellFormed definition.attachments
  signature : definition.signature.WellFormed
  /-- Exactly the native ones have no body. -/
  native : definition.body = none ↔ definition.native = true
  body : ∀ body ∈ definition.body, body.WellFormed

structure ConnectorDef.WellFormed (definition : ConnectorDef) : Prop where
  attachments : Attachment.AreWellFormed definition.attachments
  params : ∀ param ∈ definition.params, param.WellFormed
  varDefs : ∀ varDef ∈ definition.varDefs, varDef.WellFormed
  actions : ∀ action ∈ definition.actions, action.WellFormed

def FieldDef.WellFormed (definition : FieldDef) : Prop :=
  ∀ literal ∈ definition.default, literal.WellFormed

structure StructDef.WellFormed (definition : StructDef) : Prop where
  attachments : Attachment.AreWellFormed definition.attachments
  fields : ∀ field ∈ definition.fields, field.WellFormed

structure AnnotationDef.WellFormed (definition : AnnotationDef) : Prop where
  attachments : Attachment.AreWellFormed definition.attachments
  fields : ∀ field ∈ definition.fields, field.WellFormed

structure TypeMapperDef.WellFormed (definition : TypeMapperDef) : Prop where
  attachments : Attachment.AreWellFormed definition.attachments
  param : definition.param.WellFormed
  /-- Exactly the native ones have no body. -/
  native : definition.body = none ↔ definition.native = true
  body : ∀ body ∈ definition.body, body.WellFormed

structure ConstantDef.WellFormed (definition : ConstantDef) : Prop where
  attachments : Attachment.AreWellFormed definition.attachments
  type : definition.type.isValue = true
  value : definition.value.IsPlain

structure GlobalVarDef.WellFormed (definition : GlobalVarDef) : Prop where
  attachments : Attachment.AreWellFormed definition.attachments
  init : ∀ value ∈ definition.init, value.IsPlain

def Definition.WellFormed : Definition → Prop
  | service definition => definition.WellFormed
  | function definition => definition.WellFormed
  | connector definition => definition.WellFormed
  | struct definition => definition.WellFormed
  | typeMapper definition => definition.WellFormed
  | constant definition => definition.WellFormed
  | annotationDef definition => definition.WellFormed
  | globalVar definition => definition.WellFormed
  | broken _ => True

def PackageName.WellFormed (package : PackageName) : Prop :=
  package.segments ≠ []

def Directive.WellFormed : Directive → Prop
  | importDecl declaration => declaration.package.WellFormed
  | namespaceDecl _ => True

structure SourceUnit.WellFormed (unit : SourceUnit) : Prop where
  package : ∀ declaration ∈ unit.package, declaration.name.WellFormed
  directives : ∀ directive ∈ unit.directives, directive.WellFormed
  items : ∀ item ∈ unit.items, item.WellFormed

end ServiceLang
