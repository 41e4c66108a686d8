import LocalCloud.ConstructTree
import LocalCloud.Proofs.Text.Joining
import Mathlib.Data.List.Basic

/-!
# Searches through the construct tree

A place in a tree is the way down to it: the numbers of the children to go through.  Pre-order is the
ascending order of places, so every node is met once (`pairwise_places`, `map_at?_places`), and the
searches follow it:

* The nodes that stand for resources are gathered with a stack that grows at its end.  A round takes
  one node away and puts its children there: one node less is left to visit, and what the walk
  finds in the end stays the same (`Walk.left_advance`, `Walk.outcome_advance`).
* The first node with a path is searched for by recursion (`find?_eq`).

Both are the recursive pre-order, and so is the search for the path of a resource
(`searches_in_preorder`).
-/

namespace LocalCloud.Construct

/-! ## Pre-order -/

theorem nodesOfAll_eq (trees : List Construct) : nodesOfAll trees = trees.flatMap nodes := by
  induction trees with
  | nil => rfl
  | cons node rest ih => rw [nodesOfAll, ih, List.flatMap_cons]

/-- A node comes first, then all below its children, from the first child to the last. -/
theorem nodes_eq (node : Construct) : node.nodes = node :: node.children.flatMap nodes := by
  cases node
  rw [nodes, nodesOfAll_eq]

/-- The node at a place: the numbers of the children to go down through. -/
def at? : Construct → List Nat → Option Construct
  | node, [] => some node
  | node, i :: place => node.children[i]?.bind fun child => child.at? place

mutual

/-- The places of the nodes of a tree. -/
def places : Construct → List (List Nat)
  | .mk _ _ _ _ children => [] :: placesFrom 0 children

/-- The places below several children, the first of which has the given number. -/
def placesFrom (number : Nat) : List Construct → List (List Nat)
  | [] => []
  | node :: rest => node.places.map (number :: ·) ++ placesFrom (number + 1) rest

end

theorem places_eq (node : Construct) : node.places = [] :: placesFrom 0 node.children := by
  cases node
  rfl

theorem mem_placesFrom_iff {number : Nat} {trees : List Construct} {place : List Nat} :
    place ∈ placesFrom number trees ↔
      ∃ i node rest, trees[i]? = some node ∧ place = (number + i) :: rest ∧ rest ∈ node.places := by
  induction trees generalizing number with
  | nil => simp [placesFrom]
  | cons first others ih =>
    rw [placesFrom, List.mem_append, List.mem_map, ih]
    constructor
    · rintro (⟨rest, hrest, rfl⟩ | ⟨i, node, rest, hnode, rfl, hrest⟩)
      · exact ⟨0, first, rest, rfl, rfl, hrest⟩
      · refine ⟨i + 1, node, rest, hnode, ?_, hrest⟩
        rw [Nat.add_assoc, Nat.add_comm 1]
    · rintro ⟨i, node, rest, hnode, rfl, hrest⟩
      cases i with
      | zero =>
        obtain rfl : first = node := by simpa using hnode
        exact .inl ⟨rest, hrest, rfl⟩
      | succ i =>
        refine .inr ⟨i, node, rest, by simpa using hnode, ?_, hrest⟩
        rw [Nat.add_assoc, Nat.add_comm 1]

theorem cons_mem_places_iff {node : Construct} {i : Nat} {place : List Nat} :
    i :: place ∈ node.places ↔ ∃ child, node.children[i]? = some child ∧ place ∈ child.places := by
  rw [places_eq, List.mem_cons, mem_placesFrom_iff]
  constructor
  · rintro (hnil | ⟨j, child, rest, hchild, hplace, hrest⟩)
    · contradiction
    · rw [Nat.zero_add] at hplace
      obtain ⟨rfl, rfl⟩ := List.cons.inj hplace
      exact ⟨child, hchild, hrest⟩
  · rintro ⟨child, hchild, hplace⟩
    exact .inr ⟨i, child, place, hchild, by rw [Nat.zero_add], hplace⟩

/-- The places of a tree are those at which there is a node. -/
theorem mem_places_iff {node : Construct} {place : List Nat} :
    place ∈ node.places ↔ (node.at? place).isSome := by
  induction place generalizing node with
  | nil => simp [places_eq, at?]
  | cons i place ih =>
    rw [cons_mem_places_iff, at?]
    cases node.children[i]? with
    | none => simp
    | some child => simp [ih]

mutual

/-- Pre-order is the ascending order of places: a node before all below it, and what lies below one
child before what lies below the next. -/
theorem pairwise_places : ∀ node : Construct, node.places.Pairwise (· < ·)
  | .mk _ _ _ _ children => by
    rw [places, List.pairwise_cons]
    refine ⟨fun place hplace => ?_, pairwise_placesFrom 0 children⟩
    obtain ⟨i, _, rest, -, rfl, -⟩ := mem_placesFrom_iff.1 hplace
    exact List.nil_lt_cons _ _

theorem pairwise_placesFrom (number : Nat) :
    ∀ trees : List Construct, (placesFrom number trees).Pairwise (· < ·)
  | [] => List.Pairwise.nil
  | node :: rest => by
    rw [placesFrom, List.pairwise_append]
    refine ⟨?_, pairwise_placesFrom (number + 1) rest, ?_⟩
    · rw [List.pairwise_map]
      exact (pairwise_places node).imp fun h => List.cons_lt_cons_iff.2 (.inr ⟨rfl, h⟩)
    · intro place hplace other hother
      obtain ⟨below, -, rfl⟩ := List.mem_map.1 hplace
      obtain ⟨i, _, above, -, rfl, -⟩ := mem_placesFrom_iff.1 hother
      exact List.cons_lt_cons_iff.2 (.inl (by omega))

end

mutual

/-- The nodes in pre-order are those at the places. -/
theorem map_at?_places : ∀ node : Construct, node.places.map node.at? = node.nodes.map some
  | .mk id path type attributes children => by
    rw [places, nodes, List.map_cons, List.map_cons,
      map_at?_placesFrom (.mk id path type attributes children) 0 children fun i => by
        rw [Nat.zero_add]]
    rfl

theorem map_at?_placesFrom (parent : Construct) (number : Nat) :
    ∀ trees : List Construct, (∀ i, parent.children[number + i]? = trees[i]?) →
      (placesFrom number trees).map parent.at? = (nodesOfAll trees).map some
  | [], _ => rfl
  | node :: rest, htrees => by
    -- the trees are the children of the parent from the number on, so the first has that number
    have hnode : parent.children[number]? = some node := by simpa using htrees 0
    have hrest : ∀ i, parent.children[number + 1 + i]? = rest[i]? := by
      intro i
      have := htrees (i + 1)
      rwa [List.getElem?_cons_succ, Nat.add_comm i 1, ← Nat.add_assoc] at this
    have hbelow : (node.places.map (number :: ·)).map parent.at? = node.places.map node.at? := by
      rw [List.map_map]
      refine List.map_congr_left fun place _ => ?_
      show parent.children[number]?.bind (·.at? place) = node.at? place
      rw [hnode, Option.bind_some]
    rw [placesFrom, nodesOfAll, List.map_append, List.map_append, hbelow, map_at?_places node,
      map_at?_placesFrom parent (number + 1) rest hrest]

end

/-! ## Gathering on a stack -/

/-- A stack holds what is still to come, from its top down. -/
theorem typedOnStack_eq (stack : List Construct) :
    typedOnStack stack = (stack.flatMap nodes).filter (·.type.isSome) := by
  fun_induction typedOnStack stack with
  | case1 => rfl
  | case2 node stack rest htype ih =>
    show node :: typedOnStack (node.children ++ stack) = _
    rw [ih, List.flatMap_cons, nodes_eq, List.cons_append, List.filter_cons, if_pos htype,
      List.flatMap_append]
  | case3 node stack rest htype ih =>
    show typedOnStack (node.children ++ stack) = _
    rw [ih, List.flatMap_cons, nodes_eq, List.cons_append, List.filter_cons, if_neg htype,
      List.flatMap_append]

theorem typed_eq (root : Construct) : root.typed = root.nodes.filter (·.type.isSome) := by
  rw [typed, typedOnStack_eq, List.flatMap_singleton]

/-- A walk through a tree under way. -/
structure Walk where
  /-- The nodes that are still to be visited, the next one last. -/
  stack : List Construct
  /-- The nodes with a type that have been visited. -/
  found : List Construct := []

namespace Walk

/-- The walk after the next node has been taken off the stack.  It is kept if it has a type, and its
children are put on the stack, the last one first. -/
def advance (w : Walk) : Walk :=
  match w.stack.getLast? with
  | none => w
  | some node =>
    { stack := w.stack.dropLast ++ node.children.reverse
      found := if node.type.isSome then w.found ++ [node] else w.found }

/-- The walk after a number of nodes have been taken off the stack. -/
def rounds : Nat → Walk → Walk
  | 0, w => w
  | pops + 1, w => rounds pops w.advance

/-- What a walk finds in the end. -/
def outcome (w : Walk) : List Construct := w.found ++ typedOnStack w.stack.reverse

/-- How many nodes are still to be visited. -/
def left (w : Walk) : Nat := sizeOfAll w.stack.reverse

variable {w : Walk}

theorem left_eq_zero_iff : w.left = 0 ↔ w.stack = [] := by
  rw [left, ← List.reverse_eq_nil_iff]
  cases w.stack.reverse with
  | nil => simp [sizeOfAll]
  | cons node rest => simp [sizeOfAll, size_eq]

theorem advance_concat (stack : List Construct) (node : Construct) (found : List Construct) :
    advance { stack := stack ++ [node], found } =
      { stack := stack ++ node.children.reverse
        found := if node.type.isSome then found ++ [node] else found } := by
  simp only [advance, List.getLast?_concat, List.dropLast_concat]

/-- A round visits one node, if there is one left. -/
theorem left_advance (w : Walk) : w.advance.left = w.left - 1 := by
  obtain ⟨stack, found⟩ := w
  rcases List.eq_nil_or_concat stack with rfl | ⟨stack, node, rfl⟩
  · rfl
  · rw [List.concat_eq_append, advance_concat, left, left, List.reverse_append, List.reverse_append,
      List.reverse_reverse, List.reverse_singleton, List.singleton_append, sizeOfAll_append,
      sizeOfAll, size_eq]
    omega

/-- A round changes nothing about what the walk finds in the end. -/
theorem outcome_advance (w : Walk) : w.advance.outcome = w.outcome := by
  obtain ⟨stack, found⟩ := w
  rcases List.eq_nil_or_concat stack with rfl | ⟨stack, node, rfl⟩
  · rfl
  · rw [List.concat_eq_append, advance_concat, outcome, outcome, List.reverse_append,
      List.reverse_append, List.reverse_reverse, List.reverse_singleton, List.singleton_append,
      typedOnStack]
    by_cases htype : node.type.isSome
    · rw [if_pos htype, if_pos htype, List.append_assoc, List.singleton_append]
    · rw [if_neg htype, if_neg htype]

theorem left_rounds (pops : Nat) (w : Walk) : (w.rounds pops).left = w.left - pops := by
  induction pops generalizing w with
  | zero => rfl
  | succ pops ih =>
    rw [rounds, ih, left_advance]
    omega

theorem outcome_rounds (pops : Nat) (w : Walk) : (w.rounds pops).outcome = w.outcome := by
  induction pops generalizing w with
  | zero => rfl
  | succ pops ih => rw [rounds, ih, outcome_advance]

/-- A walk is over when there is nothing left to visit, and then it has found all that it finds. -/
theorem found_of_stack_eq_nil (h : w.stack = []) : w.found = w.outcome := by
  rw [outcome, h, List.reverse_nil, typedOnStack, List.append_nil]

end Walk

/-- The nodes with a type are at their places in ascending order. -/
theorem map_at?_typedPlaces (root : Construct) :
    (root.places.filter fun place => ((root.at? place).bind (·.type)).isSome).map root.at? =
      root.typed.map some := by
  have hfilter := List.filter_map (f := root.at?) (p := fun node => (node.bind (·.type)).isSome)
    (l := root.places)
  rw [map_at?_places, List.filter_map] at hfilter
  rw [typed_eq]
  exact hfilter.symm

theorem mem_typedPlaces_iff {root : Construct} {place : List Nat} :
    (place ∈ root.places.filter fun place => ((root.at? place).bind (·.type)).isSome) ↔
      ∃ node, root.at? place = some node ∧ node.type.isSome := by
  rw [List.mem_filter, mem_places_iff]
  cases root.at? place <;> simp

/-! ## Searching for a path -/

mutual

theorem find?_eq (path : String) :
    ∀ node : Construct, node.find? path = node.nodes.find? (·.path = path)
  | .mk id own type attributes children => by
    rw [find?, nodes, List.find?_cons, findInAll?_eq path children]
    by_cases h : own = path <;> simp [h]

theorem findInAll?_eq (path : String) :
    ∀ trees : List Construct, findInAll? path trees = (nodesOfAll trees).find? (·.path = path)
  | [] => rfl
  | node :: rest => by
    rw [findInAll?, nodesOfAll, List.find?_append, find?_eq path node, findInAll?_eq path rest]

end

/-- The path of a node lies under a stack and ends in a logical id, perhaps followed by `Resource`. -/
def LocatedAs (node : Construct) (stack logicalId : String) : Prop :=
  (∃ rest, node.path = stack ++ "/" ++ rest) ∧
    ((∃ front, node.path = front ++ ("/" ++ logicalId)) ∨
      ∃ front, node.path = front ++ ("/" ++ logicalId ++ "/Resource"))

/-- The first item of a list that has a property. -/
def IsFirst {α : Type} (P : α → Prop) (l : List α) (x : α) : Prop :=
  ∃ before after, l = before ++ x :: after ∧ P x ∧ ∀ y ∈ before, ¬ P y

theorem find?_eq_some_iff_isFirst {α : Type} {l : List α} {x : α} {p : α → Bool} {P : α → Prop}
    (h : ∀ x, p x = true ↔ P x) : l.find? p = some x ↔ IsFirst P l x := by
  rw [List.find?_eq_some_iff_append]
  constructor
  · rintro ⟨hx, before, after, rfl, hbefore⟩
    exact ⟨before, after, rfl, (h x).1 hx, fun y hy hP => by simpa [(h y).2 hP] using hbefore y hy⟩
  · rintro ⟨before, after, rfl, hx, hbefore⟩
    exact ⟨(h x).2 hx, before, after, rfl, fun y hy => by simpa [← h] using hbefore y hy⟩

section Located

variable {root node : Construct} {stack logicalId path : String}

theorem locatedAs_iff : node.LocatedAs stack logicalId ↔
    (Text.startsWith (stack ++ "/") node.path &&
      (Text.endsWith ("/" ++ logicalId) node.path ||
        Text.endsWith ("/" ++ logicalId ++ "/Resource") node.path)) = true := by
  rw [Bool.and_eq_true, Bool.or_eq_true, Text.startsWith_iff, Text.endsWith_iff, Text.endsWith_iff]
  rfl

theorem pathOf?_eq_some_iff : root.pathOf? stack logicalId = some path ↔
    ∃ node, IsFirst (fun n => n.type.isSome ∧ n.LocatedAs stack logicalId) root.nodes node ∧
      node.path = path := by
  rw [pathOf?, typed_eq, List.find?_filter, Option.map_eq_some_iff]
  refine exists_congr fun node => and_congr_left' (find?_eq_some_iff_isFirst fun n => ?_)
  rw [decide_eq_true_iff, locatedAs_iff]

theorem pathOf?_eq_none_iff : root.pathOf? stack logicalId = none ↔
    ∀ node ∈ root.nodes, node.type.isSome → ¬ node.LocatedAs stack logicalId := by
  rw [pathOf?, typed_eq, List.find?_filter, Option.map_eq_none_iff, List.find?_eq_none]
  simp only [decide_eq_true_iff, ← locatedAs_iff, not_and]

end Located

/-- The searches through a tree follow its pre-order.

The walk with a stack is over after as many rounds as the tree has nodes, not earlier, and what it
has found by then are the nodes with a type, each at its place in the ascending order of places.  The
first node with a path and the first node that a resource is located at are the first ones in that
order. -/
theorem searches_in_preorder (root : Construct) :
    (∀ pops, (Walk.rounds pops { stack := [root] }).stack = [] ↔ root.size ≤ pops) ∧
      (∀ pops, root.size ≤ pops →
        (Walk.rounds pops { stack := [root] }).found = root.typed) ∧
      root.typed = root.nodes.filter (·.type.isSome) ∧
      (∃ places : List (List Nat), places.Pairwise (· < ·) ∧
        (∀ place, place ∈ places ↔ ∃ node, root.at? place = some node ∧ node.type.isSome) ∧
        places.map root.at? = root.typed.map some) ∧
      (∀ path node, root.find? path = some node ↔ IsFirst (·.path = path) root.nodes node) ∧
      (∀ stack logicalId path, root.pathOf? stack logicalId = some path ↔
        ∃ node, IsFirst (fun n => n.type.isSome ∧ n.LocatedAs stack logicalId) root.nodes node ∧
          node.path = path) ∧
      ∀ stack logicalId, root.pathOf? stack logicalId = none ↔
        ∀ node ∈ root.nodes, node.type.isSome → ¬ node.LocatedAs stack logicalId := by
  have hleft : ∀ pops, (Walk.rounds pops { stack := [root] }).left = root.size - pops := by
    intro pops
    rw [Walk.left_rounds]
    rfl
  have hover : ∀ pops, (Walk.rounds pops { stack := [root] }).stack = [] ↔ root.size ≤ pops := by
    intro pops
    rw [← Walk.left_eq_zero_iff, hleft]
    omega
  refine ⟨hover, fun pops hpops => ?_, typed_eq root, ?_, fun path node => ?_,
    fun stack logicalId path => ?_, fun stack logicalId => ?_⟩
  · rw [Walk.found_of_stack_eq_nil ((hover pops).2 hpops), Walk.outcome_rounds]
    rfl
  · exact ⟨_, (pairwise_places root).filter _, fun _ => mem_typedPlaces_iff,
      map_at?_typedPlaces root⟩
  · rw [find?_eq]
    exact find?_eq_some_iff_isFirst fun n => decide_eq_true_iff
  · exact pathOf?_eq_some_iff
  · exact pathOf?_eq_none_iff

end LocalCloud.Construct
