import ServiceLang.Tree.Definition

set_option autoImplicit false

/-! How deep trees nest. A step counts where one goes into a body, an annotation or an array of
annotation values, a constraint of a map type, a part in parentheses, brackets or braces of an
expression, or the part behind an operator. The depth of a tree is the largest number of such
steps on a way from its root to a leaf. -/

namespace ServiceLang

def deepest {α : Type} (depth : α → Nat) : List α → Nat
  | [] => 0
  | part :: rest => max (depth part) (deepest depth rest)

def depthIfAny {α : Type} (depth : α → Nat) : Option α → Nat
  | some part => depth part
  | none => 0

section Lists

variable {α : Type} {depth : α → Nat} {limit : Nat}

@[simp]
theorem deepest_le_iff {parts : List α} :
    deepest depth parts ≤ limit ↔ ∀ part ∈ parts, depth part ≤ limit := by
  induction parts with
  | nil => simp [deepest]
  | cons part rest ih => rw [deepest, Nat.max_le, ih, List.forall_mem_cons]

@[simp]
theorem depthIfAny_le_iff {part : Option α} :
    depthIfAny depth part ≤ limit ↔ ∀ found ∈ part, depth found ≤ limit := by
  cases part <;> simp [depthIfAny]

end Lists

/-! ### Types and expressions -/

def TypeName.depth : TypeName → Nat
  | .mapOf constraint _ => constraint.depth + 1
  | .array element _ => element.depth
  | _ => 0

mutual

def Expr.depth : Expr → Nat
  | .literal _ | .template _ _ => 0
  | .array elements _ => Expr.innerDepth elements
  | .mapping entries _ => MapEntry.deepest entries
  | .reference target => target.depth
  | .call _ arguments _ | .invoke _ _ arguments _ | .create _ arguments _ =>
      Expr.innerDepth arguments
  | .typeMember type _ _ => type.depth
  | .cast target operand _ | .convert target operand _ =>
      max (target.depth + 1) (operand.depth + 1)
  | .unary _ operand _ => operand.depth + 1
  | .binary _ left right _ => max left.depth (right.depth + 1)
  | .paren inner _ => inner.depth + 1

/-- The depth of what holds these expressions, one step into each. -/
def Expr.innerDepth : List Expr → Nat
  | [] => 0
  | expr :: rest => max (expr.depth + 1) (Expr.innerDepth rest)

def MapEntry.depth : MapEntry → Nat
  | ⟨key, value, _⟩ => max key.depth (value.depth + 1)

def MapEntry.deepest : List MapEntry → Nat
  | [] => 0
  | entry :: rest => max entry.depth (MapEntry.deepest rest)

def Reference.depth : Reference → Nat
  | .name _ => 0
  | .index base position _ => max base.depth (position.depth + 1)
  | .field base _ _ | .attributes base _ | .attributeNamed base _ _ => base.depth
  | .attributeAt base selector _ => max base.depth (selector.depth + 1)

end

@[simp]
theorem Expr.innerDepth_le_iff {exprs : List Expr} {limit : Nat} :
    Expr.innerDepth exprs ≤ limit ↔ ∀ expr ∈ exprs, expr.depth + 1 ≤ limit := by
  induction exprs with
  | nil => simp [innerDepth]
  | cons expr rest ih => rw [innerDepth, Nat.max_le, ih, List.forall_mem_cons]

@[simp]
theorem MapEntry.deepest_le_iff {entries : List MapEntry} {limit : Nat} :
    MapEntry.deepest entries ≤ limit ↔ ∀ entry ∈ entries, entry.depth ≤ limit := by
  induction entries with
  | nil => simp [deepest]
  | cons entry rest ih => rw [deepest, Nat.max_le, ih, List.forall_mem_cons]

/-! ### Statements -/

def VarDef.depth (definition : VarDef) : Nat :=
  max definition.type.depth (depthIfAny Expr.depth definition.init)

mutual

def Stmt.depth : Stmt → Nat
  | .varDef definition => definition.depth
  | .assign _ targets value _ => max (deepest Reference.depth targets) value.depth
  | .ifElse condition thenBlock elseIfs elseBlock _ =>
      max (max condition.depth thenBlock.depth)
        (max (ElseIf.deepest elseIfs) (Block.depthIfAny elseBlock))
  | .iterate type _ collection body _ => max (max type.depth collection.depth) body.depth
  | .whileLoop condition body _ => max condition.depth body.depth
  | .continueLoop _ | .breakLoop _ | .abort _ | .comment _ _ | .namespaceDecl _ | .broken _ => 0
  | .forkJoin workers join timeout _ =>
      max (Worker.deepest workers) (max (Join.depthIfAny join) (Timeout.depthIfAny timeout))
  | .tryCatch body catches finallyBlock _ =>
      max body.depth (max (Catch.deepest catches) (Block.depthIfAny finallyBlock))
  | .throw value _ | .reply value _ => value.depth
  | .returns values _ | .send values _ _ | .receive values _ _ => deepest Expr.depth values
  | .invoke _ _ arguments _ | .call _ arguments _ => Expr.innerDepth arguments
  | .transform body _ => body.depth
  | .transaction body aborted committed _ =>
      max body.depth (max (Block.depthIfAny aborted) (Block.depthIfAny committed))

def Stmt.deepest : List Stmt → Nat
  | [] => 0
  | statement :: rest => max statement.depth (Stmt.deepest rest)

def Block.depth : Block → Nat
  | ⟨statements, _, _⟩ => Stmt.deepest statements + 1

def Block.depthIfAny : Option Block → Nat
  | some block => block.depth
  | none => 0

def CallableBody.depth : CallableBody → Nat
  | ⟨statements, workers, _, _⟩ => max (Stmt.deepest statements) (Worker.deepest workers) + 1

def Worker.depth : Worker → Nat
  | ⟨_, body, _⟩ => body.depth

def Worker.deepest : List Worker → Nat
  | [] => 0
  | worker :: rest => max worker.depth (Worker.deepest rest)

def ElseIf.depth : ElseIf → Nat
  | ⟨condition, block, _⟩ => max condition.depth block.depth

def ElseIf.deepest : List ElseIf → Nat
  | [] => 0
  | branch :: rest => max branch.depth (ElseIf.deepest rest)

def Join.depth : Join → Nat
  | ⟨_, type, _, body, _⟩ => max type.depth body.depth

def Join.depthIfAny : Option Join → Nat
  | some join => join.depth
  | none => 0

def Timeout.depth : Timeout → Nat
  | ⟨timeout, type, _, body, _⟩ => max timeout.depth (max type.depth body.depth)

def Timeout.depthIfAny : Option Timeout → Nat
  | some timeout => timeout.depth
  | none => 0

def Catch.depth : Catch → Nat
  | ⟨type, _, body, _⟩ => max type.depth body.depth

def Catch.deepest : List Catch → Nat
  | [] => 0
  | clause :: rest => max clause.depth (Catch.deepest rest)

end

theorem Stmt.deepest_eq (statements : List Stmt) :
    Stmt.deepest statements = ServiceLang.deepest depth statements := by
  induction statements with
  | nil => rfl
  | cons statement rest ih => rw [deepest, ih, ServiceLang.deepest]

theorem Worker.deepest_eq (workers : List Worker) :
    Worker.deepest workers = ServiceLang.deepest depth workers := by
  induction workers with
  | nil => rfl
  | cons worker rest ih => rw [deepest, ih, ServiceLang.deepest]

theorem ElseIf.deepest_eq (branches : List ElseIf) :
    ElseIf.deepest branches = ServiceLang.deepest depth branches := by
  induction branches with
  | nil => rfl
  | cons branch rest ih => rw [deepest, ih, ServiceLang.deepest]

theorem Catch.deepest_eq (clauses : List Catch) :
    Catch.deepest clauses = ServiceLang.deepest depth clauses := by
  induction clauses with
  | nil => rfl
  | cons clause rest ih => rw [deepest, ih, ServiceLang.deepest]

theorem Block.depthIfAny_eq (block : Option Block) :
    Block.depthIfAny block = ServiceLang.depthIfAny depth block := by
  cases block <;> rfl

theorem Join.depthIfAny_eq (join : Option Join) :
    Join.depthIfAny join = ServiceLang.depthIfAny depth join := by
  cases join <;> rfl

theorem Timeout.depthIfAny_eq (timeout : Option Timeout) :
    Timeout.depthIfAny timeout = ServiceLang.depthIfAny depth timeout := by
  cases timeout <;> rfl

/-! ### Annotations -/

mutual

def Attachment.depth : Attachment → Nat
  | ⟨_, attributes, _⟩ => Attribute.deepest attributes + 1

def Attribute.depth : Attribute → Nat
  | ⟨_, value, _⟩ => value.depth

def Attribute.deepest : List Attribute → Nat
  | [] => 0
  | entry :: rest => max entry.depth (Attribute.deepest rest)

def AnnotationValue.depth : AnnotationValue → Nat
  | .literal _ => 0
  | .attachment nested => nested.depth
  | .array elements _ => AnnotationValue.deepest elements + 1

def AnnotationValue.deepest : List AnnotationValue → Nat
  | [] => 0
  | value :: rest => max value.depth (AnnotationValue.deepest rest)

end

theorem Attribute.deepest_eq (entries : List Attribute) :
    Attribute.deepest entries = ServiceLang.deepest depth entries := by
  induction entries with
  | nil => rfl
  | cons entry rest ih => rw [deepest, ih, ServiceLang.deepest]

theorem AnnotationValue.deepest_eq (values : List AnnotationValue) :
    AnnotationValue.deepest values = ServiceLang.deepest depth values := by
  induction values with
  | nil => rfl
  | cons value rest ih => rw [deepest, ih, ServiceLang.deepest]

/-! ### Definitions -/

def Param.depth (param : Param) : Nat :=
  max (deepest Attachment.depth param.attachments) param.type.depth

def Returns.depth : Returns → Nat
  | .named results => deepest Param.depth results
  | .types results => deepest TypeName.depth results

def Signature.depth (signature : Signature) : Nat :=
  max (deepest Param.depth signature.params) (depthIfAny Returns.depth signature.returns)

def ResourceDef.depth (definition : ResourceDef) : Nat :=
  max (deepest Attachment.depth definition.attachments)
    (max (deepest Param.depth definition.params) definition.body.depth)

def CallableDef.depth (definition : CallableDef) : Nat :=
  max (deepest Attachment.depth definition.attachments)
    (max definition.signature.depth (depthIfAny CallableBody.depth definition.body))

def FieldDef.depth (definition : FieldDef) : Nat :=
  definition.type.depth

def ServiceDef.depth (definition : ServiceDef) : Nat :=
  max (deepest Attachment.depth definition.attachments)
    (max (deepest VarDef.depth definition.varDefs) (deepest ResourceDef.depth definition.resources))

def ConnectorDef.depth (definition : ConnectorDef) : Nat :=
  max (max (deepest Attachment.depth definition.attachments)
      (deepest Param.depth definition.params))
    (max (deepest VarDef.depth definition.varDefs) (deepest CallableDef.depth definition.actions))

def StructDef.depth (definition : StructDef) : Nat :=
  max (deepest Attachment.depth definition.attachments) (deepest FieldDef.depth definition.fields)

def AnnotationDef.depth (definition : AnnotationDef) : Nat :=
  max (deepest Attachment.depth definition.attachments) (deepest FieldDef.depth definition.fields)

def TypeMapperDef.depth (definition : TypeMapperDef) : Nat :=
  max (max (deepest Attachment.depth definition.attachments) definition.param.depth)
    (max definition.returnType.depth (depthIfAny Block.depth definition.body))

def ConstantDef.depth (definition : ConstantDef) : Nat :=
  max (deepest Attachment.depth definition.attachments)
    (max definition.type.depth definition.value.depth)

def GlobalVarDef.depth (definition : GlobalVarDef) : Nat :=
  max (deepest Attachment.depth definition.attachments)
    (max definition.type.depth (depthIfAny Expr.depth definition.init))

def Definition.depth : Definition → Nat
  | .service definition => definition.depth
  | .function definition => definition.depth
  | .connector definition => definition.depth
  | .struct definition => definition.depth
  | .typeMapper definition => definition.depth
  | .constant definition => definition.depth
  | .annotationDef definition => definition.depth
  | .globalVar definition => definition.depth
  | .broken _ => 0

/-- Only definitions nest; the head of a source is flat. -/
def SourceUnit.depth (unit : SourceUnit) : Nat :=
  deepest Definition.depth unit.items

end ServiceLang
