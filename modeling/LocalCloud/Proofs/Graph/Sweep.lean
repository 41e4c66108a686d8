import LocalCloud.Proofs.Graph.Reports
import Mathlib.Algebra.GroupWithZero.Nat

/-!
# Searching for cycles with marks and a stack

The search need not be recursive.  It can keep the path on a stack, with the number of the neighbour
that comes next for each node, and mark each node as unvisited, on the stack or done.  It goes on in
rounds (`Sweep.advance`): a round takes the next node to start from, or looks at one neighbour of the
node on top of the stack, or takes that node down.

* At any time the marks say where the nodes are (`Sweep.Marked`).  So an edge to a node that is marked
  as on the stack finds it there (`Sweep.cycleFrom_eq`).
* What the search finds in the end is not changed by a round (`Sweep.outcome_round`).
* A round leaves one round less to do (`Sweep.left_round`).

So the search ends after a number of rounds that is known beforehand, with the cycles that the
recursion finds (`sweep_cycles`).
-/

namespace LocalCloud.Graph

/-- How far a search has come with a node. -/
inductive Mark where
  | unvisited
  | onStack
  | done
  deriving DecidableEq

/-- A search under way. -/
structure Sweep where
  /-- The nodes that are still to be started from. -/
  starts : List String
  /-- The marks of the nodes, the last one that was set first. -/
  marks : List (String × Mark)
  /-- The nodes on the path, the one where the search is last, each with the index of the neighbour
  to visit next. -/
  stack : List (String × Nat) := []
  cycles : List (List String) := []

/-- The search before its first round. -/
def sweep (g : Graph) : Sweep where
  starts := g.ids
  marks := g.ids.map (·, .unvisited)

namespace Sweep

/-- The cycle that an edge from the top of a stack to `node` closes, from where `node` is first found
on the stack, or else from the bottom. -/
def cycleFrom (stack : List (String × Nat)) (node : String) : List String :=
  (stack.drop ((stack.findIdx? (·.1 == node)).getD 0)).map (·.1) ++ [node]

/-- The search after one more round. -/
def advance (g : Graph) (s : Sweep) : Sweep :=
  match s.stack.getLast? with
  | none =>
    match s.starts with
    | [] => s
    | id :: starts =>
      if s.marks.lookup id = some .unvisited then
        { s with starts, marks := (id, .onStack) :: s.marks, stack := [(id, 0)] }
      else { s with starts }
  | some (node, index) =>
    match (g.dependents node)[index]? with
    | none => { s with marks := (node, .done) :: s.marks, stack := s.stack.dropLast }
    | some next =>
      let stack := s.stack.dropLast ++ [(node, index + 1)]
      match (s.marks.lookup next).getD .done with
      | .unvisited =>
        { s with marks := (next, .onStack) :: s.marks, stack := stack ++ [(next, 0)] }
      | .onStack => { s with stack, cycles := s.cycles ++ [cycleFrom stack next] }
      | .done => { s with stack }

/-- The search after a number of rounds. -/
def rounds (g : Graph) : Nat → Sweep → Sweep
  | 0, s => s
  | count + 1, s => rounds g count (s.advance g)

/-- Nothing is left to do. -/
def IsOver (s : Sweep) : Prop := s.starts = [] ∧ s.stack = []

/-- The path to where the search is, the nearest node first. -/
def path (s : Sweep) : List String := s.stack.reverse.map (·.1)

/-- What the search knows so far.  The nodes are done in the order in which they were marked so. -/
def found (s : Sweep) : Search where
  done := (s.marks.filter (·.2 = .done)).map (·.1)
  cycles := s.cycles

/-! ## What a round does -/

/-- What a round makes of a search. -/
inductive Round (g : Graph) : Sweep → Sweep → Prop
  | idle {marks : List (String × Mark)} {cycles : List (List String)} :
      Round g ⟨[], marks, [], cycles⟩ ⟨[], marks, [], cycles⟩
  | start {id : String} {starts : List String} {marks : List (String × Mark)}
      {cycles : List (List String)} : marks.lookup id = some .unvisited →
      Round g ⟨id :: starts, marks, [], cycles⟩
        ⟨starts, (id, .onStack) :: marks, [(id, 0)], cycles⟩
  | skip {id : String} {starts : List String} {marks : List (String × Mark)}
      {cycles : List (List String)} : marks.lookup id ≠ some .unvisited →
      Round g ⟨id :: starts, marks, [], cycles⟩ ⟨starts, marks, [], cycles⟩
  | leave {starts : List String} {marks : List (String × Mark)} {below : List (String × Nat)}
      {cycles : List (List String)} {node : String} {index : Nat} :
      (g.dependents node)[index]? = none →
      Round g ⟨starts, marks, below ++ [(node, index)], cycles⟩
        ⟨starts, (node, .done) :: marks, below, cycles⟩
  | enter {starts : List String} {marks : List (String × Mark)} {below : List (String × Nat)}
      {cycles : List (List String)} {node next : String} {index : Nat} :
      (g.dependents node)[index]? = some next → marks.lookup next = some .unvisited →
      Round g ⟨starts, marks, below ++ [(node, index)], cycles⟩
        ⟨starts, (next, .onStack) :: marks, below ++ [(node, index + 1)] ++ [(next, 0)], cycles⟩
  | close {starts : List String} {marks : List (String × Mark)} {below : List (String × Nat)}
      {cycles : List (List String)} {node next : String} {index : Nat} :
      (g.dependents node)[index]? = some next → marks.lookup next = some .onStack →
      Round g ⟨starts, marks, below ++ [(node, index)], cycles⟩
        ⟨starts, marks, below ++ [(node, index + 1)],
          cycles ++ [cycleFrom (below ++ [(node, index + 1)]) next]⟩
  | pass {starts : List String} {marks : List (String × Mark)} {below : List (String × Nat)}
      {cycles : List (List String)} {node next : String} {index : Nat} :
      (g.dependents node)[index]? = some next → (marks.lookup next).getD .done = .done →
      Round g ⟨starts, marks, below ++ [(node, index)], cycles⟩
        ⟨starts, marks, below ++ [(node, index + 1)], cycles⟩

variable {g : Graph} {s t : Sweep} {id node next : String} {index : Nat}
variable {starts : List String} {marks : List (String × Mark)} {below : List (String × Nat)}
variable {cycles : List (List String)}

theorem getD_done_eq {mark? : Option Mark} {mark : Mark} (h : mark?.getD .done = mark)
    (hne : mark ≠ .done) : mark? = some mark := by
  cases mark? with
  | none => exact absurd h.symm hne
  | some other => exact congrArg some h

theorem round_advance (g : Graph) (s : Sweep) : Round g s (s.advance g) := by
  obtain ⟨starts, marks, stack, cycles⟩ := s
  rcases List.eq_nil_or_concat stack with rfl | ⟨below, ⟨node, index⟩, rfl⟩
  · cases starts with
    | nil => exact .idle
    | cons id starts =>
      simp only [advance, List.getLast?_nil]
      split
      · next hmark => exact .start hmark
      · next hmark => exact .skip hmark
  · rw [List.concat_eq_append]
    simp only [advance, List.getLast?_concat, List.dropLast_concat]
    cases hnext : (g.dependents node)[index]? with
    | none => exact .leave hnext
    | some next =>
      dsimp only
      cases hmark : (marks.lookup next).getD .done with
      | unvisited => exact .enter hnext (getD_done_eq hmark (by decide))
      | onStack => exact .close hnext (getD_done_eq hmark (by decide))
      | done => exact .pass hnext hmark

/-! ## Where the nodes are -/

/-- The marks say where the nodes are, and no node is on the path twice. -/
structure Marked (g : Graph) (s : Sweep) : Prop where
  nodup : s.path.Nodup
  onStack : ∀ id, s.marks.lookup id = some .onStack ↔ id ∈ s.path
  done : ∀ id, s.marks.lookup id = some .done ↔ id ∈ s.found.done
  unvisited : ∀ id, s.marks.lookup id = some .unvisited ↔
    id ∈ g.ids ∧ id ∉ s.path ∧ id ∉ s.found.done
  /-- The nodes that have not been visited are among those to start from. -/
  waiting : ∀ id, s.marks.lookup id = some .unvisited → id ∈ s.starts
  starts : s.starts ⊆ g.ids

theorem path_concat : path ⟨starts, marks, below ++ [(node, index)], cycles⟩ =
    node :: below.reverse.map (·.1) := by
  rw [path, List.reverse_concat, List.map_cons]

theorem lookup_cons_eq (mark : Mark) (other : String) :
    ((id, mark) :: marks).lookup other = if other = id then some mark else marks.lookup other := by
  by_cases h : other = id
  · rw [if_pos h, h, List.lookup_cons_self]
  · rw [if_neg h, List.lookup_cons, beq_false_of_ne h]

theorem lookup_sweep (g : Graph) (id : String) :
    g.sweep.marks.lookup id = if id ∈ g.ids then some .unvisited else none := by
  show (g.ids.map (·, Mark.unvisited)).lookup id = _
  induction g.ids with
  | nil => rfl
  | cons first rest ih =>
    rw [List.map_cons, lookup_cons_eq, ih]
    by_cases h : id = first <;> simp [h]

theorem found_sweep (g : Graph) : g.sweep.found = {} := by
  simp [found, sweep]

theorem marked_sweep (g : Graph) : Marked g g.sweep where
  nodup := List.nodup_nil
  onStack := by
    intro id
    rw [lookup_sweep]
    split <;> simp [path, sweep]
  done := by
    intro id
    rw [lookup_sweep, found_sweep]
    split <;> simp
  unvisited := by
    intro id
    rw [lookup_sweep, found_sweep]
    split <;> simp_all [path, sweep]
  waiting := by
    intro id
    rw [lookup_sweep]
    split
    · next hid => exact fun _ => hid
    · exact fun h => nomatch h
  starts := List.Subset.refl _

/-- A node that is visited for the first time is put on the stack. -/
theorem Marked.visit (h : Marked g s) (hnew : s.marks.lookup id = some .unvisited)
    (hpath : t.path = id :: s.path) (hmarks : t.marks = (id, .onStack) :: s.marks)
    (hstarts : t.starts ⊆ s.starts) (hwaiting : ∀ other ∈ s.starts, other ≠ id → other ∈ t.starts) :
    Marked g t := by
  obtain ⟨hid, hfresh, hunfinished⟩ := (h.unvisited id).1 hnew
  have hdone : t.found.done = s.found.done := by
    rw [found, hmarks]
    rfl
  have hlookup : ∀ other, t.marks.lookup other =
      if other = id then some .onStack else s.marks.lookup other := by
    intro other
    rw [hmarks, lookup_cons_eq]
  constructor
  case nodup =>
    rw [hpath]
    exact List.nodup_cons.2 ⟨hfresh, h.nodup⟩
  case onStack =>
    intro other
    rw [hlookup, hpath, List.mem_cons, ← h.onStack]
    by_cases heq : other = id <;> simp [heq]
  case done =>
    intro other
    rw [hlookup, hdone, ← h.done]
    by_cases heq : other = id <;> simp [heq, hnew]
  case unvisited =>
    intro other
    rw [hlookup, hpath, hdone, List.mem_cons]
    by_cases heq : other = id
    · simp [heq]
    · rw [if_neg heq, h.unvisited]
      simp [heq]
  case waiting =>
    intro other
    rw [hlookup]
    by_cases heq : other = id
    · simp [heq]
    · rw [if_neg heq]
      exact fun hother => hwaiting other (h.waiting other hother) heq
  case starts => exact List.Subset.trans hstarts h.starts

/-- The node on top of the stack is taken down. -/
theorem Marked.leave (h : Marked g ⟨starts, marks, below ++ [(node, index)], cycles⟩) :
    Marked g ⟨starts, (node, .done) :: marks, below, cycles⟩ := by
  have hnodup := h.nodup
  have honStack := h.onStack
  have hunvisited := h.unvisited
  rw [path_concat] at hnodup honStack hunvisited
  obtain ⟨hnode, hbelow⟩ := List.nodup_cons.1 hnodup
  constructor
  case nodup => exact hbelow
  case onStack =>
    intro other
    rw [lookup_cons_eq]
    show _ ↔ other ∈ below.reverse.map (·.1)
    by_cases heq : other = node
    · simpa [heq] using hnode
    · rw [if_neg heq, honStack]
      simp [heq]
  case done =>
    intro other
    rw [lookup_cons_eq]
    show _ ↔ other ∈ node :: (found ⟨starts, marks, below, cycles⟩).done
    by_cases heq : other = node
    · simp [heq]
    · rw [if_neg heq, h.done]
      simp [heq, found]
  case unvisited =>
    intro other
    rw [lookup_cons_eq]
    show _ ↔ _ ∧ other ∉ below.reverse.map (·.1) ∧
      other ∉ node :: (found ⟨starts, marks, below, cycles⟩).done
    by_cases heq : other = node
    · simp [heq]
    · rw [if_neg heq, hunvisited]
      simp [heq, found]
  case waiting =>
    intro other
    rw [lookup_cons_eq]
    by_cases heq : other = node
    · simp [heq]
    · rw [if_neg heq]
      exact h.waiting other
  case starts => exact h.starts

/-- A neighbour that is not new changes no marks. -/
theorem Marked.moveOn (h : Marked g ⟨starts, marks, below ++ [(node, index)], cycles⟩)
    (index' : Nat) (cycles' : List (List String)) :
    Marked g ⟨starts, marks, below ++ [(node, index')], cycles'⟩ := by
  have hpath : path ⟨starts, marks, below ++ [(node, index')], cycles'⟩ =
      path ⟨starts, marks, below ++ [(node, index)], cycles⟩ := by
    rw [path_concat, path_concat]
  exact ⟨hpath ▸ h.nodup, hpath ▸ h.onStack, h.done, hpath ▸ h.unvisited, h.waiting, h.starts⟩

theorem Marked.round (h : Marked g s) (hround : Round g s t) : Marked g t := by
  cases hround with
  | idle => exact h
  | @start id starts _ _ hnew =>
    refine h.visit hnew rfl rfl (List.subset_cons_self id starts) fun other hother hne => ?_
    exact (List.mem_cons.1 hother).resolve_left hne
  | @skip id starts _ _ hold =>
    refine ⟨h.nodup, h.onStack, h.done, h.unvisited, fun other hother => ?_,
      (List.cons_subset.1 h.starts).2⟩
    refine (List.mem_cons.1 (h.waiting other hother)).resolve_left ?_
    rintro rfl
    exact hold hother
  | leave _ => exact h.leave
  | @enter _ _ _ cycles _ _ index _ hnew =>
    refine (h.moveOn (index + 1) cycles).visit hnew ?_ rfl (List.Subset.refl _) ?_
    · rw [path_concat, path]
    · exact fun _ hother _ => hother
  | close _ _ => exact h.moveOn _ _
  | pass _ _ => exact h.moveOn _ _

theorem Marked.rounds (h : Marked g s) (count : Nat) : Marked g (s.rounds g count) := by
  induction count generalizing s with
  | zero => exact h
  | succ count ih => exact ih (h.round (round_advance g s))

/-! ## Looking at a neighbour

The mark of a neighbour tells what the search does when it comes to it. -/

/-- An edge to a node on the path closes the cycle from there. -/
theorem Marked.cycleFrom_eq (h : Marked g s) (hmem : node ∈ s.path) :
    cycleFrom s.stack node = closeCycle s.path node := by
  obtain ⟨pre, post, hsplit, hpre⟩ := List.eq_append_cons_of_mem hmem
  have hpost : node ∉ post := by
    have hnodup := h.nodup
    rw [hsplit] at hnodup
    exact (List.nodup_cons.1 (List.nodup_append.1 hnodup).2.1).1
  -- from the bottom up, the node comes after those that the path came to before it
  have hstack : s.stack.map (·.1) = post.reverse ++ node :: pre.reverse := by
    rw [path, List.map_reverse, List.reverse_eq_iff] at hsplit
    simpa using hsplit
  have hindex : s.stack.findIdx? (·.1 == node) = some post.reverse.length := by
    have hmap : (s.stack.map (·.1)).findIdx? (· == node) = s.stack.findIdx? (·.1 == node) :=
      List.findIdx?_map
    have hbefore : post.reverse.findIdx? (· == node) = none := by
      rw [List.findIdx?_eq_none_iff]
      intro x hx
      refine beq_false_of_ne ?_
      rintro rfl
      exact hpost (List.mem_reverse.1 hx)
    rw [← hmap, hstack, List.findIdx?_append, hbefore, List.findIdx?_cons, beq_self_eq_true]
    simp
  rw [hsplit, closeCycle_eq hpre, cycleFrom, hindex, Option.getD_some, List.map_drop, hstack,
    List.drop_left]
  simp

theorem Marked.look_unvisited (h : Marked g s) (hmark : s.marks.lookup next = some .unvisited) :
    g.look s.path s.found next = g.visit (next :: s.path) next s.found := by
  obtain ⟨hid, hfresh, hunfinished⟩ := (h.unvisited next).1 hmark
  rw [look, if_neg hfresh, if_neg hunfinished, if_pos hid]

theorem Marked.look_onStack (h : Marked g s) (hmark : s.marks.lookup next = some .onStack) :
    g.look s.path s.found next =
      { s.found with cycles := s.cycles ++ [cycleFrom s.stack next] } := by
  have hmem := (h.onStack next).1 hmark
  rw [look, if_pos hmem, h.cycleFrom_eq hmem]
  rfl

theorem Marked.look_done (h : Marked g s) (hmark : (s.marks.lookup next).getD .done = .done) :
    g.look s.path s.found next = s.found := by
  have hfresh : next ∉ s.path := by
    intro hmem
    rw [(h.onStack next).2 hmem] at hmark
    contradiction
  rw [look, if_neg hfresh]
  split
  · rfl
  · next hunfinished =>
    refine if_neg fun hid => ?_
    rw [(h.unvisited next).2 ⟨hid, hfresh, hunfinished⟩] at hmark
    contradiction

/-! ## What is found in the end -/

/-- What a search finds from a stack on, given from its top down: it looks at the neighbours that are
left of a node, and then has searched the node to the end. -/
def unwind (g : Graph) : List (String × Nat) → Search → Search
  | [], s => s
  | (node, index) :: below, s =>
    let t := ((g.dependents node).drop index).foldl (g.look (node :: below.map (·.1))) s
    unwind g below { t with done := node :: t.done }

/-- What a search finds in the end. -/
def outcome (g : Graph) (s : Sweep) : Search :=
  s.starts.foldl g.start (unwind g s.stack.reverse s.found)

theorem unwind_visit (frames : List (String × Nat)) (s : Search) :
    unwind g ((node, 0) :: frames) s =
      unwind g frames (g.visit (node :: frames.map (·.1)) node s) := by
  rw [unwind, visit_eq, List.drop_zero]

theorem unwind_look (hnext : (g.dependents node)[index]? = some next)
    (frames : List (String × Nat)) (s : Search) :
    unwind g ((node, index) :: frames) s =
      unwind g ((node, index + 1) :: frames) (g.look (node :: frames.map (·.1)) s next) := by
  obtain ⟨hlt, rfl⟩ := List.getElem?_eq_some_iff.1 hnext
  rw [unwind, unwind, List.drop_eq_getElem_cons hlt, List.foldl_cons]

theorem unwind_leave (hnext : (g.dependents node)[index]? = none)
    (frames : List (String × Nat)) (s : Search) :
    unwind g ((node, index) :: frames) s = unwind g frames { s with done := node :: s.done } := by
  rw [unwind, List.drop_eq_nil_of_le (List.getElem?_eq_none_iff.1 hnext), List.foldl_nil]

/-- A round changes nothing about what is found in the end. -/
theorem outcome_round (h : Marked g s) (hround : Round g s t) : outcome g t = outcome g s := by
  cases hround with
  | idle => rfl
  | @start id starts marks cycles hnew =>
    obtain ⟨-, -, hunfinished⟩ := (h.unvisited id).1 hnew
    show starts.foldl g.start (unwind g [(id, 0)] (found ⟨starts, marks, [], cycles⟩)) =
      starts.foldl g.start (g.start (found ⟨id :: starts, marks, [], cycles⟩) id)
    rw [unwind_visit, Graph.start, if_neg hunfinished]
    rfl
  | @skip id starts marks cycles hold =>
    -- nothing is on the path, so the node has been searched to the end
    have hfinished : id ∈ (found ⟨id :: starts, marks, [], cycles⟩).done := by
      by_contra hunfinished
      exact hold ((h.unvisited id).2 ⟨h.starts List.mem_cons_self, List.not_mem_nil, hunfinished⟩)
    show starts.foldl g.start (found ⟨starts, marks, [], cycles⟩) =
      starts.foldl g.start (g.start (found ⟨id :: starts, marks, [], cycles⟩) id)
    rw [Graph.start, if_pos hfinished]
    rfl
  | @leave starts marks below cycles node index hnext =>
    rw [outcome, outcome, List.reverse_concat, unwind_leave hnext]
    rfl
  | @enter starts marks below cycles node next index hnext hnew =>
    have hlook := h.look_unvisited hnew
    rw [path_concat] at hlook
    rw [outcome, outcome, List.reverse_concat, List.reverse_concat, List.reverse_concat, unwind_visit,
      unwind_look hnext, hlook]
    rfl
  | @close starts marks below cycles node next index hnext hmark =>
    have hlook := (h.moveOn (index + 1) cycles).look_onStack hmark
    rw [path_concat] at hlook
    rw [outcome, outcome, List.reverse_concat, List.reverse_concat, unwind_look hnext]
    exact congrArg (fun t => starts.foldl g.start (unwind g _ t)) hlook.symm
  | @pass starts marks below cycles node next index hnext hmark =>
    have hlook := h.look_done hmark
    rw [path_concat] at hlook
    rw [outcome, outcome, List.reverse_concat, List.reverse_concat, unwind_look hnext, hlook]
    rfl

theorem outcome_rounds (h : Marked g s) (count : Nat) :
    outcome g (s.rounds g count) = outcome g s := by
  induction count generalizing s with
  | zero => rfl
  | succ count ih =>
    have hround := round_advance g s
    rw [rounds, ih (h.round hround), outcome_round h hround]

theorem outcome_sweep (g : Graph) : outcome g g.sweep = g.searched := by
  rw [outcome, found_sweep]
  rfl

/-- A search that is over has found all that it finds. -/
theorem found_of_isOver (h : s.IsOver) : s.found = outcome g s := by
  rw [outcome, h.1, h.2]
  rfl

/-! ## How long it takes -/

/-- How many rounds the nodes take that have not been visited: for each of them one for each neighbour
and one to leave the node. -/
def ahead (g : Graph) (marks : List (String × Mark)) : Nat :=
  ((g.ids.filter (marks.lookup · = some .unvisited)).map fun id =>
    (g.dependents id).length + 1).sum

/-- How many rounds are left: one for each node to start from, and those of the nodes on the stack and
of the nodes that have not been visited. -/
def left (g : Graph) (s : Sweep) : Nat :=
  s.starts.length +
    (s.stack.map fun frame => ((g.dependents frame.1).drop frame.2).length + 1).sum +
    ahead g s.marks

theorem ahead_visit (hnodup : g.ids.Nodup) (hid : id ∈ g.ids)
    (hnew : marks.lookup id = some .unvisited) :
    (g.dependents id).length + 1 + ahead g ((id, .onStack) :: marks) = ahead g marks := by
  have hunvisited : g.ids.filter (((id, .onStack) :: marks).lookup · = some .unvisited) =
      (g.ids.filter (marks.lookup · = some .unvisited)).erase id := by
    rw [(hnodup.filter _).erase_eq_filter, List.filter_filter]
    refine List.filter_congr fun other _ => ?_
    rw [lookup_cons_eq]
    by_cases heq : other = id <;> simp [heq]
  have hmem : id ∈ g.ids.filter (marks.lookup · = some .unvisited) :=
    List.mem_filter.2 ⟨hid, by simpa using hnew⟩
  rw [ahead, ahead, hunvisited,
    List.sum_map_erase (fun id => (g.dependents id).length + 1) hmem]

theorem ahead_leave (hold : marks.lookup id ≠ some .unvisited) :
    ahead g ((id, .done) :: marks) = ahead g marks := by
  have hunvisited : g.ids.filter (((id, .done) :: marks).lookup · = some .unvisited) =
      g.ids.filter (marks.lookup · = some .unvisited) := by
    refine List.filter_congr fun other _ => ?_
    rw [lookup_cons_eq]
    by_cases heq : other = id <;> simp [heq, hold]
  rw [ahead, ahead, hunvisited]

theorem length_drop_succ (hnext : (g.dependents node)[index]? = some next) :
    ((g.dependents node).drop index).length = ((g.dependents node).drop (index + 1)).length + 1 := by
  obtain ⟨hlt, -⟩ := List.getElem?_eq_some_iff.1 hnext
  rw [List.drop_eq_getElem_cons hlt, List.length_cons]

theorem left_eq_zero_iff (h : Marked g s) : left g s = 0 ↔ s.IsOver := by
  obtain ⟨starts, marks, stack, cycles⟩ := s
  constructor
  · intro hleft
    rw [left, Nat.add_eq_zero_iff, Nat.add_eq_zero_iff] at hleft
    obtain ⟨⟨hstarts, hstack⟩, -⟩ := hleft
    refine ⟨List.length_eq_zero_iff.1 hstarts, ?_⟩
    cases stack with
    | nil => rfl
    | cons frame below => simp at hstack
  · rintro ⟨rfl, rfl⟩
    have hnone : g.ids.filter (marks.lookup · = some .unvisited) = [] := by
      refine List.filter_eq_nil_iff.2 fun id _ hid => ?_
      exact List.not_mem_nil (h.waiting id (by simpa using hid))
    rw [left, ahead, hnone]
    rfl

/-- A round is one less to do, if any is left. -/
theorem left_round (hnodup : g.ids.Nodup) (h : Marked g s) (hround : Round g s t) :
    left g t = left g s - 1 := by
  cases hround with
  | idle => rw [(left_eq_zero_iff h).2 ⟨rfl, rfl⟩]
  | @start id starts marks cycles hnew =>
    have hahead := ahead_visit hnodup ((h.unvisited id).1 hnew).1 hnew
    simp only [left, List.length_cons, List.map_cons, List.map_nil, List.sum_cons, List.sum_nil,
      List.drop_zero]
    omega
  | @skip id starts marks cycles hold =>
    simp only [left, List.length_cons]
    omega
  | @leave starts marks below cycles node index hnext =>
    have hmark : marks.lookup node = some .onStack := (h.onStack node).2 (by simp [path_concat])
    have hold : marks.lookup node ≠ some .unvisited := by simp [hmark]
    have hdrop : (g.dependents node).drop index = [] :=
      List.drop_eq_nil_of_le (List.getElem?_eq_none_iff.1 hnext)
    simp only [left, ahead_leave hold, List.map_append, List.map_cons, List.map_nil,
      List.sum_append, List.sum_cons, List.sum_nil, hdrop, List.length_nil]
    omega
  | @enter starts marks below cycles node next index hnext hnew =>
    have hahead := ahead_visit hnodup ((h.unvisited next).1 hnew).1 hnew
    simp only [left, List.map_append, List.map_cons, List.map_nil, List.sum_append, List.sum_cons,
      List.sum_nil, List.drop_zero, length_drop_succ hnext]
    omega
  | @close starts marks below cycles node next index hnext hmark =>
    simp only [left, List.map_append, List.map_cons, List.map_nil, List.sum_append, List.sum_cons,
      List.sum_nil, length_drop_succ hnext]
    omega
  | @pass starts marks below cycles node next index hnext hmark =>
    simp only [left, List.map_append, List.map_cons, List.map_nil, List.sum_append, List.sum_cons,
      List.sum_nil, length_drop_succ hnext]
    omega

theorem left_rounds (hnodup : g.ids.Nodup) (h : Marked g s) (count : Nat) :
    left g (s.rounds g count) = left g s - count := by
  induction count generalizing s with
  | zero => rfl
  | succ count ih =>
    have hround := round_advance g s
    rw [rounds, ih (h.round hround), left_round hnodup h hround]
    omega

theorem left_sweep (g : Graph) :
    left g g.sweep = (g.ids.map fun id => (g.dependents id).length + 2).sum := by
  have hall : g.ids.filter (g.sweep.marks.lookup · = some .unvisited) = g.ids := by
    refine List.filter_eq_self.2 fun id hid => ?_
    rw [lookup_sweep, if_pos hid]
    rfl
  rw [left, ahead, hall]
  show g.ids.length + 0 + _ = _
  induction g.ids with
  | nil => rfl
  | cons id rest ih =>
    simp only [List.length_cons, List.map_cons, List.sum_cons] at ih ⊢
    omega

end Sweep

/-- Searching a graph that is built, with marks and a stack, finds the cycles that the recursive search
finds.  It takes two rounds for each node and one for each pair of neighbours, neither more nor fewer.
At any time the marks say where the nodes are, so that those on the path are the ones that are marked
as on the stack. -/
theorem sweep_cycles {g : Graph} {nodes : List GraphNode} {edges : List GraphEdge}
    (h : (build nodes edges).run.value = .ok g) (count : Nat) :
    ((g.sweep.rounds g count).IsOver ↔
      (g.ids.map fun id => (g.dependents id).length + 2).sum ≤ count) ∧
    ((g.sweep.rounds g count).IsOver → (g.sweep.rounds g count).cycles = g.cycles) ∧
    Sweep.Marked g (g.sweep.rounds g count) := by
  have hnodup := (formed_of_build h).nodup
  have hmarked := (Sweep.marked_sweep g).rounds count
  refine ⟨?_, fun hover => ?_, hmarked⟩
  · rw [← Sweep.left_eq_zero_iff hmarked, Sweep.left_rounds hnodup (Sweep.marked_sweep g),
      Sweep.left_sweep]
    omega
  · have hfound := Sweep.found_of_isOver (g := g) hover
    rw [Sweep.outcome_rounds (Sweep.marked_sweep g), Sweep.outcome_sweep] at hfound
    exact congrArg Search.cycles hfound

/-- Four nodes and five pairs of neighbours. -/
example : (tangled.sweep.rounds tangled 13).cycles = [["A", "B", "A"], ["B", "C", "B"], ["D", "D"]] := by
  decide +kernel

end LocalCloud.Graph
