import Mathlib.Data.List.Forall2
import ServiceLang.Tree.Parts
import ServiceLang.Tree.Walk

set_option autoImplicit false

/-! The walk over a tree misses nothing. Below each node it has one walk for each part of the
node, in order. So it comes to every place of the tree, to each of them once, and to a node
before it comes to the parts of the node. -/

namespace ServiceLang

namespace Walk

def root : Walk → Node
  | node here _ => here

/-- Below each node the walk has the parts of the node, one for one. -/
inductive Mirrors : Walk → Prop where
  | node {here : Node} {below : List Walk} (roots : below.map root = here.parts)
      (each : ∀ walk ∈ below, walk.Mirrors) : Mirrors (.node here below)

structure Shows (walk : Walk) (here : Node) : Prop where
  root : walk.root = here
  mirrors : walk.Mirrors

def Row (walks : List Walk) (nodes : List Node) : Prop :=
  List.Forall₂ Shows walks nodes

namespace Row

theorem nil : Row [] [] :=
  List.Forall₂.nil

theorem cons {walk : Walk} {here : Node} {walks : List Walk} {nodes : List Node}
    (first : walk.Shows here) (later : Row walks nodes) : Row (walk :: walks) (here :: nodes) :=
  List.Forall₂.cons first later

theorem append {walks more : List Walk} {nodes others : List Node} (first : Row walks nodes)
    (second : Row more others) : Row (walks ++ more) (nodes ++ others) :=
  List.rel_append first second

theorem map {α : Type} {walk : α → Walk} {node : α → Node}
    (shows : ∀ part, (walk part).Shows (node part)) (parts : List α) :
    Row (parts.map walk) (parts.map node) :=
  List.forall₂_map_left_iff.mpr (List.forall₂_map_right_iff.mpr
    (List.forall₂_same.mpr fun part _ => shows part))

theorem roots {walks : List Walk} {nodes : List Node} (row : Row walks nodes) :
    walks.map Walk.root = nodes ∧ ∀ walk ∈ walks, walk.Mirrors := by
  induction row with
  | nil => exact ⟨rfl, nofun⟩
  | cons first _ ih =>
      refine ⟨congrArg₂ List.cons first.root ih.1, fun walk member => ?_⟩
      rcases List.mem_cons.mp member with rfl | later
      · exact first.mirrors
      · exact ih.2 walk later

end Row

namespace Shows

variable {below : List Walk}

theorem node {here : Node} (parts : Row below here.parts) : (Walk.node here below).Shows here :=
  ⟨rfl, .node parts.roots.1 parts.roots.2⟩

theorem ofExpr {form : ExprForm} {here : Expr} (only : here.parts = [.exprForm form here])
    (parts : Row below here.formParts) : (Walk.ofExpr form here below).Shows (.expr here) := by
  refine .node ?_
  change Row _ here.parts
  rw [only]
  exact .cons (.node parts) .nil

theorem ofStmt {form : StmtForm} {here : Stmt} (only : here.parts = [.statementForm form here])
    (parts : Row below here.formParts) : (Walk.ofStmt form here below).Shows (.statement here) := by
  refine .node ?_
  change Row _ here.parts
  rw [only]
  exact .cons (.node parts) .nil

end Shows

end Walk

open Walk (Row Shows)

/-! ### Types and expressions -/

theorem TypeName.shows_walk (type : TypeName) : type.walk.Shows (.typeName type) := by
  induction type with
  | mapOf constraint _ ih => exact .node (.cons ih .nil)
  | array element _ ih => exact .node (.cons ih .nil)
  | _ => exact .node .nil

theorem Literal.shows_walk (literal : Literal) : literal.walk.Shows (.literal literal) :=
  .node .nil

mutual

theorem Expr.shows_walk : (expr : Expr) → expr.walk.Shows (.expr expr)
  | .literal value => .node (.cons value.shows_walk .nil)
  | .template _ _ => .node .nil
  | .array elements _ => .node (Expr.shows_walks elements)
  | .mapping entries _ => .node (MapEntry.shows_walks entries)
  | .reference target => .node (.cons target.shows_walk .nil)
  | .call _ arguments _ => .ofExpr rfl (Expr.shows_walks arguments)
  | .invoke _ _ arguments _ => .ofExpr rfl (Expr.shows_walks arguments)
  | .create _ arguments _ => .ofExpr rfl (Expr.shows_walks arguments)
  | .typeMember type _ _ => .node (.cons type.shows_walk .nil)
  | .cast target operand _ => .ofExpr rfl (.cons target.shows_walk (.cons operand.shows_walk .nil))
  | .convert target operand _ =>
      .ofExpr rfl (.cons target.shows_walk (.cons operand.shows_walk .nil))
  | .unary _ operand _ => .ofExpr rfl (.cons operand.shows_walk .nil)
  | .binary _ left right _ => .ofExpr rfl (.cons left.shows_walk (.cons right.shows_walk .nil))
  | .paren inner _ => .node (.cons inner.shows_walk .nil)

theorem Expr.shows_walks : (exprs : List Expr) →
    Row (Expr.walks exprs) (exprs.map .expr)
  | [] => .nil
  | expr :: rest => .cons expr.shows_walk (Expr.shows_walks rest)

theorem MapEntry.shows_walks : (entries : List MapEntry) →
    Row (MapEntry.walks entries)
      (entries.flatMap fun entry => [.expr entry.key, .expr entry.value])
  | [] => .nil
  | ⟨key, value, _⟩ :: rest =>
      .cons key.shows_walk (.cons value.shows_walk (MapEntry.shows_walks rest))

theorem Reference.shows_walk : (reference : Reference) →
    reference.walk.Shows (.reference reference)
  | .name _ => .node .nil
  | .index base position _ => .node (.cons base.shows_walk (.cons position.shows_walk .nil))
  | .field base _ _ => .node (.cons base.shows_walk .nil)
  | .attributes base _ => .node (.cons base.shows_walk .nil)
  | .attributeNamed base _ _ => .node (.cons base.shows_walk .nil)
  | .attributeAt base selector _ =>
      .node (.cons base.shows_walk (.cons selector.shows_walk .nil))

end

/-! ### Statements -/

theorem VarDef.shows_walk (definition : VarDef) : definition.walk.Shows (.varDef definition) :=
  .node (.cons definition.type.shows_walk (.map Expr.shows_walk _))

theorem NamespaceDecl.shows_walk (declaration : NamespaceDecl) :
    declaration.walk.Shows (.namespaceDecl declaration) :=
  .node .nil

mutual

theorem Stmt.shows_walk : (statement : Stmt) → statement.walk.Shows (.statement statement)
  | .varDef definition => .node (.cons definition.shows_walk .nil)
  | .assign _ _ value _ =>
      .ofStmt rfl (.append (.map Reference.shows_walk _) (.cons value.shows_walk .nil))
  | .ifElse condition thenBlock elseIfs elseBlock _ =>
      .ofStmt rfl (.cons condition.shows_walk (.cons thenBlock.shows_walk
        (.append (ElseIf.shows_walks elseIfs) (Block.shows_optionalWalks elseBlock))))
  | .iterate type _ collection body _ =>
      .ofStmt rfl (.cons type.shows_walk (.cons collection.shows_walk (.cons body.shows_walk .nil)))
  | .whileLoop condition body _ =>
      .ofStmt rfl (.cons condition.shows_walk (.cons body.shows_walk .nil))
  | .continueLoop _ => .node .nil
  | .breakLoop _ => .node .nil
  | .abort _ => .node .nil
  | .forkJoin workers join timeout _ =>
      .ofStmt rfl (.append (.append (Worker.shows_walks workers) (Join.shows_optionalWalks join))
        (Timeout.shows_optionalWalks timeout))
  | .tryCatch body catches finallyBlock _ =>
      .ofStmt rfl (.cons body.shows_walk
        (.append (Catch.shows_walks catches) (Block.shows_optionalWalks finallyBlock)))
  | .throw value _ => .node (.cons value.shows_walk .nil)
  | .reply value _ => .node (.cons value.shows_walk .nil)
  | .returns _ _ => .ofStmt rfl (.map Expr.shows_walk _)
  | .send _ _ _ => .ofStmt rfl (.map Expr.shows_walk _)
  | .receive _ _ _ => .ofStmt rfl (.map Expr.shows_walk _)
  | .comment _ _ => .node (.cons (.node .nil) .nil)
  | .invoke _ _ _ _ => .node (.cons (.node (.map Expr.shows_walk _)) .nil)
  | .call _ _ _ => .node (.cons (.node (.map Expr.shows_walk _)) .nil)
  | .transform body _ => .ofStmt rfl (.cons body.shows_walk .nil)
  | .transaction body aborted committed _ =>
      .ofStmt rfl (.cons body.shows_walk
        (.append (Block.shows_optionalWalks aborted) (Block.shows_optionalWalks committed)))
  | .namespaceDecl declaration => .node (.cons declaration.shows_walk .nil)
  | .broken _ => .node (.cons (.node .nil) .nil)

theorem Stmt.shows_walks : (statements : List Stmt) →
    Row (Stmt.walks statements) (statements.map .statement)
  | [] => .nil
  | statement :: rest => .cons statement.shows_walk (Stmt.shows_walks rest)

theorem Block.shows_walk : (block : Block) → block.walk.Shows (.block block)
  | ⟨statements, _, _⟩ => .node (Stmt.shows_walks statements)

theorem Block.shows_optionalWalks : (block : Option Block) →
    Row (Block.optionalWalks block) (block.toList.map .block)
  | some block => .cons block.shows_walk .nil
  | none => .nil

theorem CallableBody.shows_walk : (body : CallableBody) → body.walk.Shows (.callableBody body)
  | ⟨statements, workers, _, _⟩ =>
      .node (.append (Stmt.shows_walks statements) (Worker.shows_walks workers))

theorem Worker.shows_walk : (worker : Worker) → worker.walk.Shows (.worker worker)
  | ⟨_, body, _⟩ => .node (.cons body.shows_walk .nil)

theorem Worker.shows_walks : (workers : List Worker) →
    Row (Worker.walks workers) (workers.map .worker)
  | [] => .nil
  | worker :: rest => .cons worker.shows_walk (Worker.shows_walks rest)

theorem ElseIf.shows_walks : (branches : List ElseIf) →
    Row (ElseIf.walks branches) (branches.flatMap ElseIf.parts)
  | [] => .nil
  | ⟨condition, block, _⟩ :: rest =>
      .cons condition.shows_walk (.cons block.shows_walk (ElseIf.shows_walks rest))

theorem Join.shows_optionalWalks : (join : Option Join) →
    Row (Join.optionalWalks join) (join.toList.flatMap Join.parts)
  | some ⟨_, type, _, body, _⟩ => .cons type.shows_walk (.cons body.shows_walk .nil)
  | none => .nil

theorem Timeout.shows_optionalWalks : (timeout : Option Timeout) →
    Row (Timeout.optionalWalks timeout) (timeout.toList.flatMap Timeout.parts)
  | some ⟨timeout, type, _, body, _⟩ =>
      .cons timeout.shows_walk (.cons type.shows_walk (.cons body.shows_walk .nil))
  | none => .nil

theorem Catch.shows_walks : (clauses : List Catch) →
    Row (Catch.walks clauses) (clauses.flatMap Catch.parts)
  | [] => .nil
  | ⟨type, _, body, _⟩ :: rest =>
      .cons type.shows_walk (.cons body.shows_walk (Catch.shows_walks rest))

end

/-! ### Definitions -/

mutual

theorem Attachment.shows_walk : (attachment : Attachment) →
    attachment.walk.Shows (.attachment attachment)
  | ⟨_, attributes, _⟩ => .node (Attribute.shows_walks attributes)

theorem Attribute.shows_walks : (attributes : List Attribute) →
    Row (Attribute.walks attributes)
      (attributes.map fun entry => .annotationValue entry.value)
  | [] => .nil
  | ⟨_, value, _⟩ :: rest => .cons value.shows_walk (Attribute.shows_walks rest)

theorem AnnotationValue.shows_walk : (value : AnnotationValue) →
    value.walk.Shows (.annotationValue value)
  | .literal value => .node (.cons value.shows_walk .nil)
  | .attachment nested => .node (.cons nested.shows_walk .nil)
  | .array elements _ => .node (AnnotationValue.shows_walks elements)

theorem AnnotationValue.shows_walks : (values : List AnnotationValue) →
    Row (AnnotationValue.walks values) (values.map .annotationValue)
  | [] => .nil
  | value :: rest => .cons value.shows_walk (AnnotationValue.shows_walks rest)

end

theorem Attachment.shows_walks (attachments : List Attachment) :
    Row (attachments.map Attachment.walk) (attachments.map .attachment) :=
  .map Attachment.shows_walk _

theorem Param.shows_walk (param : Param) : param.walk.Shows (.param param) :=
  .node (.append (Attachment.shows_walks _) (.cons param.type.shows_walk .nil))

theorem Signature.shows_walk (signature : Signature) :
    signature.walk.Shows (.signature signature) := by
  refine .node (.append (.map Param.shows_walk _) ?_)
  match signature.returns with
  | none => exact .nil
  | some (.named results) => exact .map Param.shows_walk results
  | some (.types results) => exact .map TypeName.shows_walk results

theorem ResourceDef.shows_walk (definition : ResourceDef) :
    definition.walk.Shows (.resource definition) :=
  .node (.append (.append (Attachment.shows_walks _) (.map Param.shows_walk _))
    (.cons definition.body.shows_walk .nil))

theorem ServiceDef.shows_walk (definition : ServiceDef) :
    definition.walk.Shows (.service definition) :=
  .node (.append (.append (Attachment.shows_walks _) (.map VarDef.shows_walk _))
    (.map ResourceDef.shows_walk _))

theorem CallableDef.shows_below (definition : CallableDef) :
    Row definition.below definition.parts :=
  .append (Attachment.shows_walks _)
    (.cons definition.signature.shows_walk (.map CallableBody.shows_walk _))

theorem ConnectorDef.shows_walk (definition : ConnectorDef) :
    definition.walk.Shows (.connector definition) :=
  .node (.append (.append (.append (Attachment.shows_walks _) (.map Param.shows_walk _))
    (.map VarDef.shows_walk _)) (.map (fun action => .node action.shows_below) _))

theorem FieldDef.shows_walk (definition : FieldDef) : definition.walk.Shows (.field definition) :=
  .node (.cons definition.type.shows_walk (.map Literal.shows_walk _))

theorem StructDef.shows_walk (definition : StructDef) :
    definition.walk.Shows (.struct definition) :=
  .node (.append (Attachment.shows_walks _) (.map FieldDef.shows_walk _))

theorem AnnotationDef.shows_walk (definition : AnnotationDef) :
    definition.walk.Shows (.annotationDef definition) :=
  .node (.append (Attachment.shows_walks _) (.map FieldDef.shows_walk _))

theorem TypeMapperDef.shows_walk (definition : TypeMapperDef) :
    definition.walk.Shows (.typeMapper definition) :=
  .node (.append (.append (Attachment.shows_walks _)
    (.cons definition.param.shows_walk (.cons definition.returnType.shows_walk .nil)))
    (.map Block.shows_walk _))

theorem ConstantDef.shows_walk (definition : ConstantDef) :
    definition.walk.Shows (.constant definition) :=
  .node (.append (Attachment.shows_walks _)
    (.cons definition.type.shows_walk (.cons definition.value.shows_walk .nil)))

theorem GlobalVarDef.shows_walk (definition : GlobalVarDef) :
    definition.walk.Shows (.globalVar definition) :=
  .node (.append (Attachment.shows_walks _)
    (.cons definition.type.shows_walk (.map Expr.shows_walk _)))

theorem Definition.shows_walk (definition : Definition) :
    definition.walk.Shows (.item definition) := by
  refine .node ?_
  cases definition with
  | service definition => exact .cons definition.shows_walk .nil
  | function definition => exact .cons (.node definition.shows_below) .nil
  | connector definition => exact .cons definition.shows_walk .nil
  | struct definition => exact .cons definition.shows_walk .nil
  | typeMapper definition => exact .cons definition.shows_walk .nil
  | constant definition => exact .cons definition.shows_walk .nil
  | annotationDef definition => exact .cons definition.shows_walk .nil
  | globalVar definition => exact .cons definition.shows_walk .nil
  | broken span => exact .cons (.node .nil) .nil

theorem Directive.shows_walks : (directives : List Directive) →
    Row (directives.map Directive.walk) (directives.flatMap Directive.parts)
  | [] => .nil
  | .importDecl _ :: rest => .cons (.node .nil) (Directive.shows_walks rest)
  | .namespaceDecl declaration :: rest =>
      .cons declaration.shows_walk (Directive.shows_walks rest)

theorem SourceUnit.shows_walk (unit : SourceUnit) : unit.walk.Shows (.unit unit) :=
  .node (.append (.append (.map (fun _ => .node .nil) _) (Directive.shows_walks _))
    (.map Definition.shows_walk _))

/-! ### The places of a walk -/

namespace Walk

mutual

def placed : Walk → List (List Nat × Node)
  | node here below => ([], here) :: placedFrom 0 below

/-- The same for walks one behind the other, the first of which is at this index. -/
def placedFrom (index : Nat) : List Walk → List (List Nat × Node)
  | [] => []
  | walk :: rest => walk.placed.map (Prod.map (index :: ·) id) ++ placedFrom (index + 1) rest

end

mutual

theorem visits_eq : (walk : Walk) → (walk.visits fun _ => true) = walk.placed.map Prod.snd
  | node here below => by
      rw [visits, if_pos rfl, placed, List.map_cons, visitsAll_eq 0 below]

theorem visitsAll_eq (index : Nat) : (walks : List Walk) →
    visitsAll (fun _ => true) walks = (placedFrom index walks).map Prod.snd
  | [] => rfl
  | walk :: rest => by
      rw [visitsAll, placedFrom, List.map_append, List.map_map, visits_eq walk,
        visitsAll_eq (index + 1) rest]
      rfl

end

theorem mem_placedFrom {walks : List Walk} {index : Nat} {path : List Nat} {node : Node} :
    (path, node) ∈ placedFrom index walks ↔
      ∃ step walk rest, path = (index + step) :: rest ∧ walks[step]? = some walk ∧
        (rest, node) ∈ walk.placed := by
  induction walks generalizing index with
  | nil => simp [placedFrom]
  | cons first later ih =>
      rw [placedFrom, List.mem_append, ih]
      constructor
      · rintro (here | ⟨step, walk, rest, rfl, found, member⟩)
        · obtain ⟨⟨rest, other⟩, member, same⟩ := List.mem_map.mp here
          cases same
          exact ⟨0, first, rest, rfl, rfl, member⟩
        · exact ⟨step + 1, walk, rest, by rw [Nat.add_right_comm, Nat.add_assoc], found, member⟩
      · rintro ⟨_ | step, walk, rest, rfl, found, member⟩
        · cases found
          exact .inl (List.mem_map.mpr ⟨(rest, node), member, rfl⟩)
        · exact .inr ⟨step, walk, rest, by rw [Nat.add_right_comm, Nat.add_assoc], found, member⟩

/-- A walk that mirrors the tree comes to what stands at its places, and to every place. -/
theorem Mirrors.mem_placed {walk : Walk} (mirrors : walk.Mirrors) :
    ∀ {path : List Nat} {node : Node},
      (path, node) ∈ walk.placed ↔ walk.root.at? path = some node := by
  induction mirrors with
  | @node here below roots each ih =>
      intro path node
      rw [placed, List.mem_cons, mem_placedFrom, root]
      cases path with
      | nil => simp [Node.at?, eq_comm]
      | cons index path =>
          rw [Node.at?, ← roots, List.getElem?_map, Option.bind_eq_some_iff]
          constructor
          · rintro (here | ⟨step, walk, rest, same, found, member⟩)
            · cases here
            · rw [Nat.zero_add] at same
              cases same
              exact ⟨walk.root, by rw [found]; rfl,
                (ih walk (List.mem_of_getElem? found)).mp member⟩
          · rintro ⟨part, isPart, found⟩
            obtain ⟨walk, atIndex, rfl⟩ := Option.map_eq_some_iff.mp isPart
            exact .inr ⟨index, walk, path, by rw [Nat.zero_add], atIndex,
              (ih walk (List.mem_of_getElem? atIndex)).mpr found⟩

mutual

/-- A walk comes to a place before it comes to any place below it, and never twice. -/
theorem placed_downwards : (walk : Walk) →
    walk.placed.Pairwise fun earlier later => ¬later.1 <+: earlier.1
  | node here below => by
      rw [placed, List.pairwise_cons]
      refine ⟨fun ⟨path, other⟩ member above => ?_, placedFrom_downwards 0 below⟩
      obtain ⟨step, walk, rest, rfl, -⟩ := mem_placedFrom.mp member
      cases List.prefix_nil.mp above

theorem placedFrom_downwards (index : Nat) : (walks : List Walk) →
    (placedFrom index walks).Pairwise fun earlier later => ¬later.1 <+: earlier.1
  | [] => .nil
  | walk :: rest => by
      rw [placedFrom, List.pairwise_append, List.pairwise_map]
      refine ⟨(placed_downwards walk).imp fun apart above => ?_,
        placedFrom_downwards (index + 1) rest, fun earlier here later behind above => ?_⟩
      · exact apart (List.cons_prefix_cons.mp above).2
      · obtain ⟨inner, -, rfl⟩ := List.mem_map.mp here
        obtain ⟨path, node⟩ := later
        obtain ⟨step, other, further, rfl, -⟩ := mem_placedFrom.mp behind
        have same := (List.cons_prefix_cons.mp above).1
        omega

end

end Walk

/-- The walk over a tree misses nothing. Its visits are those of all places of the tree, parsed
or not: a node at each place is visited once, before all that stands below it, and nothing else
is visited. -/
theorem SourceUnit.visits_walk (unit : SourceUnit) :
    ∃ placed : List (List Nat × Node),
      (unit.walk.visits fun _ => true) = placed.map Prod.snd ∧
      (∀ path node, (path, node) ∈ placed ↔ (Node.unit unit).at? path = some node) ∧
      placed.Pairwise fun earlier later => ¬later.1 <+: earlier.1 := by
  -- The walk is built rule by rule, and the parts of a node are read off its fields. That they are
  -- the same is known node by node.
  have shows := unit.shows_walk
  refine ⟨unit.walk.placed, unit.walk.visits_eq, fun path node => ?_, unit.walk.placed_downwards⟩
  rw [← shows.root]
  exact shows.mirrors.mem_placed

end ServiceLang
