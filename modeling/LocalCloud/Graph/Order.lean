import LocalCloud.Graph.Basic

/-!
# Ordering a graph

Every node has a count of the nodes that it waits for and that are not in the order yet; it is ready
when the count is zero.  Again and again the ready node with the smallest id goes into the order and
lowers the counts of the nodes that wait for it, so that the order is a function of the graph alone.
When no node is ready any more, those that remain are blocked by a cycle.
-/

namespace LocalCloud.Graph

/-- An order in the making. -/
structure Progress where
  /-- How many nodes each node still waits for.  A count is an integer, so that one that is lowered
  too often can be told from one that has come to zero. -/
  counts : List (String × Int)
  /-- The nodes that can go into the order next, ascending. -/
  ready : List String
  /-- The nodes that have gone into the order. -/
  order : List String := []
  deriving DecidableEq

namespace Progress

/-- The counts with that of one node lowered. -/
def lowerCount (id : String) (counts : List (String × Int)) : List (String × Int) :=
  counts.map fun x => (x.1, if x.1 = id then x.2 - 1 else x.2)

/-- One node fewer for `id` to wait for.  It becomes ready when its count comes to zero. -/
def lower (p : Progress) (id : String) : Progress :=
  match p.counts.lookup id with
  | none => p
  | some count =>
    { p with
      counts := lowerCount id p.counts
      ready := if count - 1 = 0 then Ascending.insert id p.ready else p.ready }

/-- All that is left to wait for. -/
def total : List (String × Int) → Nat
  | [] => 0
  | x :: rest => x.2.toNat + total rest

theorem total_cons (x : String × Int) (counts : List (String × Int)) :
    total (x :: counts) = x.2.toNat + total counts := rfl

/-- How many nodes are ready and all that is left to wait for: this shrinks from node to node. -/
def size (p : Progress) : Nat := total p.counts + p.ready.length

theorem total_lowerCount_le (id : String) (counts : List (String × Int)) :
    total (lowerCount id counts) ≤ total counts := by
  induction counts with
  | nil => exact Nat.le_refl _
  | cons x rest ih =>
    have hcons : lowerCount id (x :: rest) =
        (x.1, if x.1 = id then x.2 - 1 else x.2) :: lowerCount id rest := rfl
    rw [hcons, total_cons, total_cons]
    split <;> omega

theorem total_lowerCount_lt {id : String} {counts : List (String × Int)}
    (h : counts.lookup id = some 1) : total (lowerCount id counts) < total counts := by
  induction counts with
  | nil => simp at h
  | cons x rest ih =>
    have hcons : lowerCount id (x :: rest) =
        (x.1, if x.1 = id then x.2 - 1 else x.2) :: lowerCount id rest := rfl
    have hrest := total_lowerCount_le id rest
    rw [hcons, total_cons, total_cons]
    rw [List.lookup_cons] at h
    by_cases hid : x.1 = id
    · rw [hid, beq_self_eq_true, Option.some.injEq] at h
      rw [if_pos hid, h]
      omega
    · rw [beq_false_of_ne (Ne.symm hid)] at h
      have := ih h
      rw [if_neg hid]
      omega

theorem size_lower_le (p : Progress) (id : String) : (p.lower id).size ≤ p.size := by
  have htotal := total_lowerCount_le id p.counts
  have hlength := Ascending.length_insert_le id p.ready
  unfold lower
  split
  · exact Nat.le_refl _
  · next count hcount =>
    by_cases hone : count - 1 = 0
    · -- what becomes ready is no longer counted
      obtain rfl : count = 1 := by omega
      have hless := total_lowerCount_lt hcount
      simp only [if_pos hone, size]
      omega
    · simp only [if_neg hone, size]
      omega

theorem size_foldl_lower_le (ids : List String) (p : Progress) :
    (ids.foldl lower p).size ≤ p.size := by
  induction ids generalizing p with
  | nil => exact Nat.le_refl _
  | cons id rest ih => exact Nat.le_trans (ih (p.lower id)) (size_lower_le p id)

end Progress

/-- No node is in the order yet; each node counts those that name it among the nodes that wait for
them. -/
def initial (g : Graph) : Progress :=
  let waiting := g.ids.flatMap g.dependents
  let counts := g.ids.map fun id => (id, (waiting.count id : Int))
  { counts, ready := (counts.filter (·.2 = 0)).map (·.1) }

/-- The first of the ready nodes goes into the order. -/
def advance (g : Graph) (p : Progress) : Progress :=
  match p.ready with
  | [] => p
  | id :: rest =>
    (g.dependents id).foldl Progress.lower { p with ready := rest, order := p.order ++ [id] }

theorem size_advance_lt {g : Graph} {p : Progress} (h : p.ready ≠ []) :
    (g.advance p).size < p.size := by
  unfold advance
  split
  · contradiction
  · next id rest hready =>
    refine Nat.lt_of_le_of_lt (Progress.size_foldl_lower_le _ _) ?_
    simp [Progress.size, hready]

/-- Nodes go into the order as long as there are ready ones. -/
def finish (g : Graph) (p : Progress) : Progress :=
  if h : p.ready = [] then p
  else
    have : (g.advance p).size < p.size := size_advance_lt h
    finish g (g.advance p)
termination_by p.size

/-- All ids, dependencies first. -/
def order (g : Graph) : Except GraphFailure (List String) :=
  let p := g.finish g.initial
  if p.order.length = g.size then .ok p.order
  else .error (.unordered ((p.counts.filter (0 < ·.2)).map (·.1)))

end LocalCloud.Graph
