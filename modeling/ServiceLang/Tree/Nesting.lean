import ServiceLang.Tree.Outline

set_option autoImplicit false

/-! Spans that nest: every node lies within its parent, and the nodes of one list stand one
behind the other. Comments are put where they were found, which may be in front of what
holds them. -/

namespace ServiceLang

namespace Outline

def role : Outline → String
  | .node role _ _ _ _ => role

def kind : Outline → String
  | .node _ kind _ _ _ => kind

def span : Outline → Span
  | .node _ _ span _ _ => span

def isComment (outline : Outline) : Bool :=
  outline.kind == "Comment"

/-- A whole source may be empty, and so is the mark of a token that was only assumed. -/
def MayBeEmpty (kind : String) (data : List Datum) : Prop :=
  kind = "CompilationUnit" ∨ kind = "TokenMarker" ∧ data.head? = some (.flag true)

/-- The nodes in one role, comments left out. -/
def inRole (role : String) (outlines : List Outline) : List Outline :=
  outlines.filter fun outline => outline.role == role && !outline.isComment

/-- The left node ends before the right one starts. -/
def Before (left right : Outline) : Prop :=
  left.span.stop ≤ right.span.start

/-- The spans of a node and of all nodes below it nest. -/
inductive Nests : Outline → Prop where
  | node {role kind : String} {span : Span} {data : List Datum} {below : List Outline}
      (ordered : span.start ≤ span.stop)
      (proper : span.start = span.stop → MayBeEmpty kind data)
      (within : ∀ child ∈ below, child.isComment = false → span.contains child.span = true)
      (apart : ∀ role, (inRole role below).Pairwise Before)
      (nests : ∀ child ∈ below, child.Nests) : Nests (.node role kind span data below)

mutual

def nodes : Outline → List Outline
  | .node role kind span data below => .node role kind span data below :: nodesIn below

def nodesIn : List Outline → List Outline
  | [] => []
  | outline :: rest => outline.nodes ++ nodesIn rest

end

/-- The mark of a token that was only assumed. -/
def isAssumed : Outline → Bool
  | .node _ kind _ data _ => kind == "TokenMarker" && data.head? == some (.flag true)

theorem mem_nodesIn {outline : Outline} {outlines : List Outline} :
    outline ∈ nodesIn outlines ↔ ∃ child ∈ outlines, outline ∈ child.nodes := by
  induction outlines with
  | nil => simp [nodesIn]
  | cons child rest ih => simp [nodesIn, ih]

/-- What holds of a node and of all nodes below it. -/
theorem forall_mem_nodes {role kind : String} {span : Span} {data : List Datum}
    {below : List Outline} {holds : Outline → Prop} (here : holds (.node role kind span data below))
    (each : ∀ child ∈ below, ∀ outline ∈ child.nodes, holds outline) :
    ∀ outline ∈ (Outline.node role kind span data below).nodes, holds outline := by
  intro outline member
  rcases List.mem_cons.mp member with rfl | member
  · exact here
  · obtain ⟨child, isChild, inside⟩ := mem_nodesIn.mp member
    exact each child isChild outline inside

theorem inRole_append (role : String) (front behind : List Outline) :
    inRole role (front ++ behind) = inRole role front ++ inRole role behind :=
  List.filter_append front behind

theorem role_of_mem_inRole {role : String} {outlines : List Outline} {outline : Outline}
    (member : outline ∈ inRole role outlines) : outline.role = role := by
  have kept := (List.mem_filter.mp member).2
  rw [Bool.and_eq_true, beq_iff_eq] at kept
  exact kept.1

section Lists

variable {α : Type} {outline : String → α → Outline} {role : String} {child : Outline}
  (roles : ∀ part, (outline role part).role = role)

include roles

theorem role_of_mem_each {parts : List α} (member : child ∈ each outline role parts) :
    child.role = role := by
  obtain ⟨part, -, rfl⟩ := List.mem_map.mp member
  exact roles part

theorem role_of_mem_optional {part : Option α} (member : child ∈ optional outline role part) :
    child.role = role := by
  cases part with
  | none => cases member
  | some part => exact List.mem_singleton.mp member ▸ roles part

end Lists

end Outline

/-! ### The span and the role of what is outlined -/

theorem TypeName.span_outline (type : TypeName) (role : String) :
    (type.outline role).span = type.span := by
  cases type <;> rfl

theorem Literal.span_outline (literal : Literal) (role : String) :
    (literal.outline role).span = literal.span := by
  obtain ⟨value, negative, span⟩ := literal
  cases value <;> rfl

theorem Reference.span_outline (reference : Reference) (role : String) :
    (reference.outline role).span = reference.span := by
  cases reference <;> rfl

theorem Expr.span_outline (expr : Expr) (role : String) : (expr.outline role).span = expr.span := by
  cases expr with
  | literal value => exact value.span_outline role
  | reference target => exact target.span_outline role
  | _ => rfl

theorem AnnotationValue.span_outline (value : AnnotationValue) (role : String) :
    (value.outline role).span = value.span := by
  cases value with
  | literal value => exact value.span_outline role
  | attachment nested =>
      cases nested
      rfl
  | array elements span => rfl

theorem Block.role_outline (block : Block) (role : String) :
    (block.outline role).role = role := by
  cases block
  rfl

theorem Worker.role_outline (worker : Worker) (role : String) :
    (worker.outline role).role = role := by
  cases worker
  rfl

theorem Stmt.role_outline (statement : Stmt) (role : String) :
    (statement.outline role).role = role := by
  cases statement <;> rfl

/-! ### The outlines of a list -/

theorem Expr.outlines_eq (role : String) (exprs : List Expr) :
    Expr.outlines role exprs = exprs.map (Expr.outline role) := by
  induction exprs with
  | nil => rfl
  | cons expr rest ih => rw [Expr.outlines, ih, List.map_cons]

theorem MapEntry.outlines_eq (role : String) (entries : List MapEntry) :
    MapEntry.outlines role entries = entries.map (MapEntry.outline role) := by
  induction entries with
  | nil => rfl
  | cons entry rest ih => rw [MapEntry.outlines, ih, List.map_cons]

theorem Stmt.outlines_eq (role : String) (statements : List Stmt) :
    Stmt.outlines role statements = statements.map (Stmt.outline role) := by
  induction statements with
  | nil => rfl
  | cons statement rest ih => rw [Stmt.outlines, ih, List.map_cons]

theorem Worker.outlines_eq (role : String) (workers : List Worker) :
    Worker.outlines role workers = workers.map (Worker.outline role) := by
  induction workers with
  | nil => rfl
  | cons worker rest ih => rw [Worker.outlines, ih, List.map_cons]

theorem ElseIf.outlines_eq (role : String) (branches : List ElseIf) :
    ElseIf.outlines role branches = branches.map (ElseIf.outline role) := by
  induction branches with
  | nil => rfl
  | cons branch rest ih => rw [ElseIf.outlines, ih, List.map_cons]

theorem Catch.outlines_eq (role : String) (clauses : List Catch) :
    Catch.outlines role clauses = clauses.map (Catch.outline role) := by
  induction clauses with
  | nil => rfl
  | cons clause rest ih => rw [Catch.outlines, ih, List.map_cons]

theorem Block.outlines_eq (role : String) (block : Option Block) :
    Block.outlines role block = Outline.optional Block.outline role block := by
  cases block <;> rfl

def Join.outline (role : String) (join : Join) : Outline :=
  .node role "Join" join.span []
    (Outline.optional JoinCondition.outline "condition" join.condition ++
      [join.type.outline "type", join.name.outline "name", join.body.outline "body"])

theorem Join.outlines_eq (role : String) (join : Option Join) :
    Join.outlines role join = Outline.optional Join.outline role join := by
  cases join with
  | none => rfl
  | some join =>
      cases join
      rfl

def Timeout.outline (role : String) (timeout : Timeout) : Outline :=
  .node role "Timeout" timeout.span []
    [timeout.timeout.outline "timeout", timeout.type.outline "type", timeout.name.outline "name",
     timeout.body.outline "body"]

theorem Timeout.outlines_eq (role : String) (timeout : Option Timeout) :
    Timeout.outlines role timeout = Outline.optional Timeout.outline role timeout := by
  cases timeout with
  | none => rfl
  | some timeout =>
      cases timeout
      rfl

theorem Attribute.outlines_eq (role : String) (entries : List Attribute) :
    Attribute.outlines role entries = entries.map (Attribute.outline role) := by
  induction entries with
  | nil => rfl
  | cons entry rest ih => rw [Attribute.outlines, ih, List.map_cons]

theorem AnnotationValue.outlines_eq (role : String) (values : List AnnotationValue) :
    AnnotationValue.outlines role values = values.map (AnnotationValue.outline role) := by
  induction values with
  | nil => rfl
  | cons value rest ih => rw [AnnotationValue.outlines, ih, List.map_cons]

end ServiceLang
