import ServiceLang.Proofs.Traversal

set_option autoImplicit false

/-! What a listener hears of a tree. The passages are well nested, between the two passages of a
node are those of the nodes below it, and nodes are entered in the order in which they are
visited. -/

namespace ServiceLang

/-- The passages of nodes in a row and of all that lies below them. A node that a listener is
told about is entered before its parts are heard, and left right behind them. Of any other node
only the parts are heard. -/
inductive Node.HeardAs : List Node → List Passage → Prop where
  | nil : HeardAs [] []
  | told {here : Node} {rest : List Node} {inner behind : List Passage}
      (isTold : here.isTold = true) (parts : HeardAs here.parts inner)
      (later : HeardAs rest behind) :
      HeardAs (here :: rest) (.enter here :: (inner ++ .leave here :: behind))
  | untold {here : Node} {rest : List Node} {inner behind : List Passage}
      (notTold : ¬here.isTold = true) (parts : HeardAs here.parts inner)
      (later : HeardAs rest behind) :
      HeardAs (here :: rest) (inner ++ behind)

namespace Passage

/-- A balanced word: each node that is entered is left again, and what is between is balanced. -/
inductive Balanced : List Passage → Prop where
  | nil : Balanced []
  | nest {here : Node} {inner behind : List Passage} (inside : Balanced inner)
      (later : Balanced behind) : Balanced (.enter here :: (inner ++ .leave here :: behind))

def entered? : Passage → Option Node
  | enter here => some here
  | leave _ => none

theorem Balanced.append {first second : List Passage} (left : Balanced first)
    (right : Balanced second) : Balanced (first ++ second) := by
  induction left with
  | nil => exact right
  | @nest here inner behind inside _ _ ih =>
      rw [List.cons_append, List.append_assoc, List.cons_append]
      exact .nest inside ih

end Passage

namespace Node

variable {nodes : List Node} {events : List Passage}

theorem HeardAs.balanced (heard : HeardAs nodes events) : Passage.Balanced events := by
  induction heard with
  | nil => exact .nil
  | told _ _ _ inside later => exact .nest inside later
  | untold _ _ _ inside later => exact inside.append later

private theorem split_append {first second front behind : List Passage} {passage : Passage}
    (split : first ++ second = front ++ passage :: behind) :
    (∃ middle, first = front ++ passage :: middle ∧ behind = middle ++ second) ∨
      ∃ middle, second = middle ++ passage :: behind := by
  rcases List.append_eq_append_iff.mp split with ⟨middle, -, rest⟩ | ⟨middle, whole, rest⟩
  · exact .inr ⟨middle, rest⟩
  · cases middle with
    | nil => exact .inr ⟨[], rest.symm⟩
    | cons other middle =>
        cases rest
        exact .inl ⟨middle, whole, rfl⟩

/-- Wherever a node is entered, the passages of its parts follow, and then it is left. -/
theorem HeardAs.closes (heard : HeardAs nodes events) :
    ∀ {front behind : List Passage} {node : Node}, events = front ++ .enter node :: behind →
      ∃ inner rest, behind = inner ++ .leave node :: rest ∧ HeardAs node.parts inner := by
  induction heard with
  | nil =>
      intro front behind node split
      cases List.append_eq_nil_iff.mp split.symm |>.2
  | @told here rest inner later isTold parts _ inside ih =>
      intro front behind node split
      cases front with
      | nil =>
          cases split
          exact ⟨inner, later, rfl, parts⟩
      | cons first front =>
          rcases split_append (List.cons.inj split).2 with ⟨middle, inInner, rfl⟩ | ⟨middle, inLater⟩
          · obtain ⟨closed, rest, rfl, heard⟩ := inside inInner
            exact ⟨closed, rest ++ .leave here :: later, by simp, heard⟩
          · cases middle with
            | nil => cases (List.cons.inj inLater).1
            | cons other middle => exact ih (List.cons.inj inLater).2
  | @untold here rest inner later notTold parts _ inside ih =>
      intro front behind node split
      rcases split_append split with ⟨middle, inInner, rfl⟩ | ⟨middle, inLater⟩
      · obtain ⟨closed, rest, rfl, heard⟩ := inside inInner
        exact ⟨closed, rest ++ later, by simp, heard⟩
      · exact ih inLater

end Node

/-- Each method of the listener's visitor does the same at a node that the listener has calls
for, and walks on at any other. Below a node without parts nothing is there to walk on to. -/
theorem listenerWalker_visit (here : Node) {below : List Passage}
    (leaf : here.parts = [] → below = []) :
    listenerWalker.visit here below =
      if here.isTold then .enter here :: (below ++ [.leave here]) else below := by
  cases here with
  | package _ | importDecl _ | namespaceDecl _ | comment _ _ | brokenItem _ | brokenStatement _
  | literal _ =>
      -- These methods do not walk on.
      rw [leaf rfl]
      rfl
  | statementForm form _ => cases form <;> rfl
  | exprForm form _ => cases form <;> rfl
  | _ => rfl

/-- A visitor without methods of its own walks on wherever there is something to walk on to. -/
theorem default_visit (here : Node) {below : List Node} (leaf : here.parts = [] → below = []) :
    ({} : Visitor Node).visit here below = below := by
  cases here with
  | package _ | importDecl _ | namespaceDecl _ | comment _ _ | brokenItem _ | brokenStatement _
  | literal _ =>
      rw [leaf rfl]
      rfl
  | statementForm form _ => cases form <;> rfl
  | exprForm form _ => cases form <;> rfl
  | _ => rfl

namespace Walk

theorem below_of_leaf {here : Node} {below : List Walk} (roots : below.map root = here.parts)
    (leaf : here.parts = []) : below = [] :=
  List.map_eq_nil_iff.mp (roots.trans leaf)

theorem heard_node {here : Node} {below : List Walk} (roots : below.map root = here.parts) :
    (node here below).heard =
      if here.isTold then .enter here :: (runAll listenerWalker below ++ [.leave here])
      else runAll listenerWalker below := by
  have leaf : here.parts = [] → runAll listenerWalker below = [] := by
    intro isLeaf
    rw [below_of_leaf roots isLeaf]
    rfl
  rw [heard, run, listenerWalker_visit here leaf]

theorem runAll_cons (walk : Walk) (rest : List Walk) :
    runAll listenerWalker (walk :: rest) = walk.heard ++ runAll listenerWalker rest :=
  rfl

/-- A walk that mirrors the tree lets its node be heard, in front of what is heard behind it. -/
theorem Mirrors.heardAs {walk : Walk} (mirrors : walk.Mirrors) :
    ∀ {rest : List Node} {behind : List Passage}, Node.HeardAs rest behind →
      Node.HeardAs (walk.root :: rest) (walk.heard ++ behind) := by
  induction mirrors with
  | @node here below roots each ih =>
      intro rest behind later
      have parts : Node.HeardAs here.parts (runAll listenerWalker below) := by
        rw [← roots]
        clear roots each
        induction below with
        | nil => exact .nil
        | cons first others ihList =>
            exact ih first List.mem_cons_self
              (ihList fun walk member => ih walk (List.mem_cons_of_mem _ member))
      rw [heard_node roots]
      split
      · rename_i isTold
        rw [List.cons_append, List.append_assoc]
        exact .told isTold parts later
      · rename_i notTold
        exact .untold notTold parts later

/-- Nothing that a walk visits is missed by a visitor without methods of its own. -/
theorem Mirrors.calls_eq_visits {walk : Walk} (mirrors : walk.Mirrors) :
    walk.calls = walk.visits fun _ => true := by
  induction mirrors with
  | @node here below roots each ih =>
      have leaf : here.parts = [] → callsAll below = [] := by
        intro isLeaf
        rw [below_of_leaf roots isLeaf]
        rfl
      rw [calls, default_visit here leaf, visits, if_pos rfl]
      congr 1
      clear roots leaf each
      induction below with
      | nil => rfl
      | cons first others ihList =>
          rw [callsAll, visitsAll, ih first List.mem_cons_self,
            ihList fun walk member => ih walk (List.mem_cons_of_mem _ member)]

/-- The nodes that are entered are those of the visits that a listener is told about. -/
theorem Mirrors.entered_heard {walk : Walk} (mirrors : walk.Mirrors) :
    walk.heard.filterMap Passage.entered? =
      (walk.visits fun _ => true).filter Node.isTold := by
  induction mirrors with
  | @node here below roots each ih =>
      have inside : (runAll listenerWalker below).filterMap Passage.entered? =
          (visitsAll (fun _ => true) below).filter Node.isTold := by
        clear roots each
        induction below with
        | nil => rfl
        | cons first others ihList =>
            rw [runAll_cons, visitsAll, List.filterMap_append, List.filter_append,
              ih first List.mem_cons_self,
              ihList fun walk member => ih walk (List.mem_cons_of_mem _ member)]
      rw [heard_node roots, visits, if_pos rfl]
      split
      · rename_i isTold
        have enters : Passage.entered? (.enter here) = some here := rfl
        rw [List.filterMap_cons_some enters, List.filterMap_append, inside,
          List.filter_cons_of_pos isTold]
        exact congrArg (here :: ·) (List.append_nil _)
      · rename_i notTold
        rw [inside, List.filter_cons_of_neg notTold]

end Walk

/-- What a listener hears of a tree, parsed or not, is well nested and follows the visits. All
of it are the passages of the unit and of what lies below it, and they are a balanced word:
wherever a node is entered, just what is heard of its parts follows, and then the same node is
left. The nodes that are entered are those that a visitor without methods of its own is called
with, in the same order, as far as a listener is told about them. -/
theorem SourceUnit.heard_walk (unit : SourceUnit) :
    Node.HeardAs [.unit unit] unit.walk.heard ∧
    Passage.Balanced unit.walk.heard ∧
    (∀ front node behind, unit.walk.heard = front ++ .enter node :: behind →
      ∃ inner rest, behind = inner ++ .leave node :: rest ∧ Node.HeardAs node.parts inner) ∧
    unit.walk.heard.filterMap Passage.entered? = unit.walk.calls.filter Node.isTold := by
  have shows := unit.shows_walk
  have heard := shows.mirrors.heardAs .nil
  rw [shows.root, List.append_nil] at heard
  exact ⟨heard, heard.balanced, fun _ _ _ split => heard.closes split,
    shows.mirrors.calls_eq_visits ▸ shows.mirrors.entered_heard⟩

end ServiceLang
