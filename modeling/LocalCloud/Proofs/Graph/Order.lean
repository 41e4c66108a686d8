import LocalCloud.Graph.Order
import LocalCloud.Proofs.Graph.Formation
import LocalCloud.Proofs.Text.Bytes
import Mathlib.Data.List.Nodup
import Mathlib.Order.WellFoundedSet

/-!
# The order of a graph

A graph has an order exactly when no way leads from a node back to it, and its order is the least
of all in which every edge leads forward (`order_least`).

* The counts say at every moment how many nodes outside the order lead to a node, however many
  edges there are between two nodes, and the nodes that are ready are those that all such nodes are
  in the order of (`Sound`).
* The order ends when no node is ready.  Where no way leads back, one of the nodes outside it would
  be, so that there are none (`Sound.perm_of_acyclic`).
* Any other order parts from this one at a node that was ready then, and this one had taken the
  least of those (`eq_or_lt_of_topological`).
-/

namespace LocalCloud.Graph

open Relation (TransGen)

variable {g : Graph} {a b id : String} {order : List String}

/-! ## Edges that lead forward -/

/-- All nodes in a row, with the two ends of every edge in the order of the edge. -/
structure Topological (g : Graph) (order : List String) : Prop where
  perm : order.Perm g.ids
  forward : ∀ edge ∈ g.edges, [edge.source, edge.target].Sublist order

/-- Some of the nodes in a row, each behind all that lead to it. -/
structure Placed (g : Graph) (order : List String) : Prop where
  nodup : order.Nodup
  subset : order ⊆ g.ids
  before : ∀ {before id after}, order = before ++ id :: after → ∀ {a}, g.Leads a id → a ∈ before

theorem mem_of_pair_sublist {before after : List String} (hnodup : (before ++ b :: after).Nodup)
    (h : [a, b].Sublist (before ++ b :: after)) : a ∈ before := by
  obtain ⟨first, last, hpair, hfirst, hlast⟩ := List.sublist_append_iff.1 h
  cases first with
  | cons x first =>
    obtain ⟨rfl, -⟩ := List.cons.inj hpair
    exact hfirst.subset List.mem_cons_self
  | nil =>
    -- both would stand from `b` on, and `b` stands there once
    obtain rfl : [a, b] = last := hpair
    have hafter : b ∉ after := (List.nodup_cons.1 (List.nodup_append.1 hnodup).2.1).1
    exact absurd (hlast.tail.subset (by simp)) hafter

theorem pair_sublist_of_mem {before : List String} (h : a ∈ before) (after : List String) :
    [a, b].Sublist (before ++ b :: after) :=
  (List.singleton_sublist.2 h).append (List.singleton_sublist.2 List.mem_cons_self)

namespace Topological

theorem placed (hformed : g.Formed) (h : g.Topological order) : g.Placed order where
  nodup := h.perm.nodup_iff.2 hformed.nodup
  subset := h.perm.subset
  before := by
    rintro before id after rfl a ⟨edge, hedge, rfl, rfl⟩
    exact mem_of_pair_sublist (h.perm.nodup_iff.2 hformed.nodup) (h.forward edge hedge)

end Topological

namespace Placed

theorem nil (g : Graph) : g.Placed [] := ⟨List.nodup_nil, List.nil_subset _, by simp⟩

theorem mem_of_leads (h : g.Placed order) (hb : b ∈ order) (hab : g.Leads a b) : a ∈ order := by
  obtain ⟨before, after, rfl⟩ := List.append_of_mem hb
  exact List.mem_append_left _ (h.before rfl hab)

/-- A node can come next when all that lead to it have come. -/
theorem snoc (h : g.Placed order) (hid : id ∈ g.ids) (hnew : id ∉ order)
    (hall : ∀ a, g.Leads a id → a ∈ order) : g.Placed (order ++ [id]) where
  nodup := by
    refine List.nodup_append.2 ⟨h.nodup, List.nodup_singleton _, fun x hx y hy heq => hnew ?_⟩
    rwa [← List.mem_singleton.1 hy, ← heq]
  subset := List.append_subset.2 ⟨h.subset, by simpa using hid⟩
  before := by
    intro before x after heq a hax
    rcases List.eq_nil_or_concat after with rfl | ⟨after, last, rfl⟩
    · obtain ⟨rfl, hx⟩ := List.append_inj' heq rfl
      obtain rfl := List.singleton_inj.1 hx
      exact hall a hax
    · have hsplit : order ++ [id] = (before ++ x :: after) ++ [last] := by simpa using heq
      exact h.before (List.append_inj' hsplit rfl).1 hax

/-- No node waits for one that comes behind it. -/
theorem pairwise_dependencies (h : g.Placed order) :
    order.Pairwise fun a b => b ∉ g.dependencies a := by
  refine List.pairwise_iff_forall_sublist.2 fun {a b} hab hdependency => ?_
  have hb : b ∈ order := hab.subset (by simp)
  obtain ⟨before, after, rfl⟩ := List.append_of_mem hb
  obtain ⟨start, mid, rfl⟩ := List.append_of_mem (mem_of_pair_sublist h.nodup hab)
  have hsplit : start ++ a :: mid ++ b :: after = start ++ a :: (mid ++ b :: after) := by simp
  have hstart : b ∈ start := h.before hsplit (mem_dependencies_iff.1 hdependency)
  exact (List.nodup_append.1 h.nodup).2.2 b (List.mem_append_left _ hstart) b
    List.mem_cons_self rfl

theorem topological (h : g.Placed order) (hperm : order.Perm g.ids) (hformed : g.Formed) :
    g.Topological order where
  perm := hperm
  forward := by
    intro edge hedge
    have hleads : g.Leads edge.source edge.target := ⟨edge, hedge, rfl, rfl⟩
    have htarget : edge.target ∈ order := hperm.mem_iff.2 (hformed.target_mem hleads)
    obtain ⟨before, after, rfl⟩ := List.append_of_mem htarget
    exact pair_sublist_of_mem (h.before rfl hleads) after

/-- All nodes from which a way leads to a node stand before it. -/
theorem mem_of_transGen (h : g.Placed order) {before after : List String}
    (hsplit : order = before ++ b :: after) (hab : TransGen g.Leads a b) : a ∈ before := by
  induction hab using TransGen.head_induction_on with
  | single hab => exact h.before hsplit hab
  | head hac _ hc =>
    obtain ⟨start, rest, rfl⟩ := List.append_of_mem hc
    rw [List.append_assoc, List.cons_append] at hsplit
    exact List.mem_append_left _ (h.before hsplit hac)

end Placed

theorem Topological.acyclic (hformed : g.Formed) (h : g.Topological order) : g.Acyclic := by
  intro id hid
  have hmem : id ∈ order := by
    obtain ⟨_, -, hlast⟩ := (TransGen.tail'_iff).1 hid
    exact h.perm.mem_iff.2 (hformed.target_mem hlast)
  obtain ⟨before, after, hsplit⟩ := List.append_of_mem hmem
  have hplaced := h.placed hformed
  have hnodup := hplaced.nodup
  rw [hsplit] at hnodup
  exact (List.nodup_append.1 hnodup).2.2 id (hplaced.mem_of_transGen hsplit hid) id
    List.mem_cons_self rfl

/-- Where no way leads from any of some nodes back to it, one of them is led to by none of them. -/
theorem exists_source (names : List String) (h : ∀ id ∈ names, ¬ TransGen g.Leads id id)
    (hne : names ≠ []) : ∃ b ∈ names, ∀ a ∈ names, ¬ g.Leads a b := by
  by_contra hnone
  push Not at hnone
  have horder : IsStrictOrder String fun a b => a ∈ names ∧ b ∈ names ∧ TransGen g.Leads a b :=
    { irrefl := fun id hid => h id hid.1 hid.2.2
      trans := fun _ _ _ hab hbc => ⟨hab.1, hbc.2.1, hab.2.2.trans hbc.2.2⟩ }
  have hwell : Set.WellFoundedOn {id | id ∈ names}
      fun a b => a ∈ names ∧ b ∈ names ∧ TransGen g.Leads a b :=
    (List.finite_toSet names).wellFoundedOn
  obtain ⟨first, hfirst⟩ := List.exists_mem_of_ne_nil names hne
  refine hwell.induction (P := fun _ => False) hfirst fun b hb hbefore => ?_
  obtain ⟨a, ha, hab⟩ := hnone b hb
  exact hbefore a ha ⟨ha, hb, .single hab⟩

/-! ## What is left to wait for -/

/-- How many of the nodes outside an order lead to a node. -/
def owed (g : Graph) (order : List String) (id : String) : Nat :=
  (g.ids.filter (· ∉ order)).countP (id ∈ g.dependents ·)

theorem owed_eq_zero_iff (hformed : g.Formed) :
    g.owed order id = 0 ↔ ∀ a, g.Leads a id → a ∈ order := by
  simp only [owed, List.countP_eq_zero, List.mem_filter, decide_eq_true_eq, mem_dependents_iff]
  constructor
  · intro h a ha
    by_contra hnot
    exact h a ⟨hformed.source_mem ha, hnot⟩ ha
  · rintro h a ⟨-, hnot⟩ ha
    exact hnot (h a ha)

/-- A node that goes into the order is no longer waited for: whatever the number of edges from it,
the count of each node that waits for it is lowered by one. -/
theorem owed_snoc (hformed : g.Formed) (hid : id ∈ g.ids) (hnew : id ∉ order) (x : String) :
    g.owed (order ++ [id]) x + (if x ∈ g.dependents id then 1 else 0) = g.owed order x := by
  have hleft : g.ids.filter (· ∉ order ++ [id]) = (g.ids.filter (· ∉ order)).erase id := by
    rw [(hformed.nodup.filter _).erase_eq_filter, List.filter_filter]
    refine List.filter_congr fun y _ => ?_
    by_cases hy : y = id <;> simp [hy]
  have hmem : id ∈ g.ids.filter (· ∉ order) := by simp [hid, hnew]
  rw [owed, owed, hleft, List.countP_erase]
  by_cases hx : x ∈ g.dependents id
  · have hpos : 0 < (g.ids.filter (· ∉ order)).countP (x ∈ g.dependents ·) :=
      List.countP_pos_iff.2 ⟨id, hmem, decide_eq_true hx⟩
    simp only [hmem, hx, decide_true, and_self, if_true]
    omega
  · simp [hx]

theorem count_flatMap_dependents (ids : List String) (id : String) :
    (ids.flatMap g.dependents).count id = ids.countP (id ∈ g.dependents ·) := by
  induction ids with
  | nil => rfl
  | cons a rest ih =>
    rw [List.flatMap_cons, List.count_append, ih, List.countP_cons,
      (nodup_dependents g a).count, Nat.add_comm]
    simp only [decide_eq_true_eq]

/-! ## Counts -/

/-- The counts that a function gives. -/
def tally (ids : List String) (f : String → Int) : List (String × Int) :=
  ids.map fun id => (id, f id)

theorem lookup_tally {ids : List String} (f : String → Int) (h : id ∈ ids) :
    (tally ids f).lookup id = some (f id) := by
  induction ids with
  | nil => contradiction
  | cons head rest ih =>
    have hcons : tally (head :: rest) f = (head, f head) :: tally rest f := rfl
    rw [hcons, List.lookup_cons]
    split
    · next heq => rw [beq_iff_eq.1 heq]
    · next hne =>
      exact ih ((List.mem_cons.1 h).resolve_left (by simpa using hne))

theorem lowerCount_tally (ids : List String) (f : String → Int) :
    Progress.lowerCount id (tally ids f) = tally ids fun x => if x = id then f x - 1 else f x := by
  rw [Progress.lowerCount, tally, List.map_map]
  rfl

/-- What lowering the counts of some nodes does. -/
theorem foldl_lower {targets : List String} (hnodup : targets.Nodup) (hsub : targets ⊆ g.ids)
    {p : Progress} {f : String → Int} (hcounts : p.counts = tally g.ids f) :
    targets.foldl Progress.lower p =
      { p with
        counts := tally g.ids fun x => if x ∈ targets then f x - 1 else f x
        ready := (targets.filter (f · = 1)).foldl (fun ready id => Ascending.insert id ready)
          p.ready } := by
  induction targets generalizing p f with
  | nil => simp [← hcounts]
  | cons id rest ih =>
    obtain ⟨hid, hrest⟩ := List.nodup_cons.1 hnodup
    obtain ⟨hmem, hsub⟩ := List.cons_subset.1 hsub
    have hlower : p.lower id =
        { p with
          counts := tally g.ids fun x => if x = id then f x - 1 else f x
          ready := if f id - 1 = 0 then Ascending.insert id p.ready else p.ready } := by
      rw [Progress.lower, hcounts, lookup_tally f hmem, lowerCount_tally]
    have hne : ∀ x ∈ rest, x ≠ id := fun x hx heq => hid (heq ▸ hx)
    rw [List.foldl_cons, ih hrest hsub (congrArg Progress.counts hlower), hlower]
    congr 1
    · refine List.map_congr_left fun x _ => ?_
      by_cases hxid : x = id
      · simp [hxid, hid]
      · simp [hxid]
    · have hfilter : rest.filter (fun x => (if x = id then f x - 1 else f x) = 1) =
          rest.filter (f · = 1) :=
        List.filter_congr fun x hx => by rw [if_neg (hne x hx)]
      rw [hfilter, List.filter_cons]
      by_cases hone : f id = 1
      · simp [hone]
      · have hzero : f id - 1 ≠ 0 := by omega
        simp [hone, hzero]

/-! ## The order in the making -/

/-- What holds of an order at every moment. -/
structure Sound (g : Graph) (p : Progress) : Prop where
  counts : p.counts = tally g.ids fun id => (g.owed p.order id : Int)
  ready_iff : ∀ id, id ∈ p.ready ↔ id ∈ g.ids ∧ id ∉ p.order ∧ g.owed p.order id = 0
  ascending : p.ready.Pairwise (· < ·)
  placed : g.Placed p.order

theorem sound_initial (hformed : g.Formed) : g.Sound g.initial := by
  have howed : ∀ id, (g.ids.flatMap g.dependents).count id = g.owed [] id := by
    intro id
    have hall : g.ids.filter (· ∉ ([] : List String)) = g.ids := by simp
    rw [count_flatMap_dependents, owed, hall]
  have hready : g.initial.ready = g.ids.filter (g.owed [] · = 0) := by
    simp [initial, howed, List.filter_map, Function.comp_def]
  exact {
    counts := by simp [initial, tally, howed]
    ready_iff := by
      intro id
      rw [hready]
      simp [initial]
    ascending := by
      rw [hready]
      exact hformed.ascending.filter _
    placed := .nil g }

theorem mem_foldl_insert {names ready : List String} :
    id ∈ names.foldl (fun ready name => Ascending.insert name ready) ready ↔
      id ∈ ready ∨ id ∈ names := by
  induction names generalizing ready with
  | nil => simp
  | cons name rest ih =>
    rw [List.foldl_cons, ih, Ascending.mem_insert, List.mem_cons]
    tauto

theorem pairwise_foldl_insert {names ready : List String} (h : ready.Pairwise (· < ·)) :
    (names.foldl (fun ready name => Ascending.insert name ready) ready).Pairwise (· < ·) :=
  List.foldlRecOn names _ h fun _ hready _ _ => Ascending.pairwise_insert hready

variable {p : Progress} {rest : List String}

theorem advance_of_ready (hformed : g.Formed) (h : g.Sound p) (hready : p.ready = id :: rest) :
    g.advance p =
      { counts := tally g.ids fun x =>
          if x ∈ g.dependents id then (g.owed p.order x : Int) - 1 else g.owed p.order x
        ready := ((g.dependents id).filter fun x => (g.owed p.order x : Int) = 1).foldl
          (fun ready x => Ascending.insert x ready) rest
        order := p.order ++ [id] } := by
  have hsub : g.dependents id ⊆ g.ids := fun x hx => hformed.target_mem (mem_dependents_iff.1 hx)
  have hlowered := foldl_lower (p := { p with ready := rest, order := p.order ++ [id] })
    (nodup_dependents g id) hsub h.counts
  rw [advance, hready]
  exact hlowered

/-- The next node goes into the order, and all stays as it should be. -/
theorem Sound.advance (hformed : g.Formed) (h : g.Sound p) (hready : p.ready = id :: rest) :
    g.Sound (g.advance p) ∧ (g.advance p).order = p.order ++ [id] := by
  obtain ⟨hid, hnew, hzero⟩ := (h.ready_iff id).1 (hready ▸ List.mem_cons_self)
  have hall := (owed_eq_zero_iff hformed).1 hzero
  have hascending : (id :: rest).Pairwise (· < ·) := hready ▸ h.ascending
  obtain ⟨hleast, hrest⟩ := List.pairwise_cons.1 hascending
  rw [advance_of_ready hformed h hready]
  refine ⟨?_, rfl⟩
  exact {
    counts := by
      refine congrArg (tally g.ids) (funext fun x => ?_)
      have hsnoc := owed_snoc hformed hid hnew x
      by_cases hx : x ∈ g.dependents id
      · simp only [if_pos hx] at hsnoc ⊢
        omega
      · simp only [if_neg hx] at hsnoc ⊢
        omega
    ready_iff := by
      intro x
      have hsnoc := owed_snoc hformed hid hnew x
      simp only [mem_foldl_insert, List.mem_filter, decide_eq_true_eq, List.mem_append,
        List.mem_singleton, not_or]
      constructor
      · rintro (hx | ⟨hx, hone⟩)
        · obtain ⟨hxid, hxorder, hxzero⟩ := (h.ready_iff x).1 (hready ▸ List.mem_cons_of_mem _ hx)
          exact ⟨hxid, ⟨hxorder, (hleast x hx).ne'⟩, by omega⟩
        · have hleads := mem_dependents_iff.1 hx
          rw [if_pos hx] at hsnoc
          refine ⟨hformed.target_mem hleads, ⟨fun hxorder => ?_, ?_⟩, by omega⟩
          · exact hnew (h.placed.mem_of_leads hxorder hleads)
          · rintro rfl
            omega
      · rintro ⟨hxid, ⟨hxorder, hne⟩, hxzero⟩
        by_cases hx : x ∈ g.dependents id
        · rw [if_pos hx] at hsnoc
          exact .inr ⟨hx, by omega⟩
        · rw [if_neg hx] at hsnoc
          have hxready : x ∈ p.ready := (h.ready_iff x).2 ⟨hxid, hxorder, by omega⟩
          rw [hready] at hxready
          exact .inl ((List.mem_cons.1 hxready).resolve_left hne)
    ascending := pairwise_foldl_insert hrest
    placed := h.placed.snoc hid hnew hall }

/-! ## The order in the end -/

theorem sound_finish (hformed : g.Formed) (h : g.Sound p) :
    g.Sound (g.finish p) ∧ (g.finish p).ready = [] := by
  fun_induction finish g p with
  | case1 p hready => exact ⟨h, hready⟩
  | case2 p hready _ ih =>
    obtain ⟨id, rest, hcons⟩ := List.exists_cons_of_ne_nil hready
    exact ih (h.advance hformed hcons).1

theorem order_prefix_finish (hformed : g.Formed) (h : g.Sound p) :
    p.order <+: (g.finish p).order := by
  fun_induction finish g p with
  | case1 p hready => exact List.prefix_rfl
  | case2 p hready _ ih =>
    obtain ⟨id, rest, hcons⟩ := List.exists_cons_of_ne_nil hready
    obtain ⟨hsound, horder⟩ := h.advance hformed hcons
    have hprefix := ih hsound
    rw [horder] at hprefix
    exact (List.prefix_append _ _).trans hprefix

/-- What comes next in any order in which all edges lead forward is ready. -/
theorem Sound.mem_ready (hformed : g.Formed) (h : g.Sound p)
    (hother : g.Topological (p.order ++ id :: rest)) : id ∈ p.ready := by
  have hplaced := hother.placed hformed
  refine (h.ready_iff id).2 ⟨hplaced.subset (by simp), fun hid => ?_, ?_⟩
  · exact (List.nodup_append.1 hplaced.nodup).2.2 id hid id List.mem_cons_self rfl
  · exact (owed_eq_zero_iff hformed).2 fun a ha => hplaced.before rfl ha

/-- Any order in which all edges lead forward, and which begins like this one, is this one in the
end or comes behind it: where they part, this one has the least of the nodes that can come there. -/
theorem eq_or_lt_of_topological (hformed : g.Formed) (h : g.Sound p) {tail : List String}
    (hother : g.Topological (p.order ++ tail)) :
    p.order ++ tail = (g.finish p).order ∨ (g.finish p).order < p.order ++ tail := by
  fun_induction finish g p generalizing tail with
  | case1 p hready =>
    cases tail with
    | nil => exact .inl (List.append_nil _)
    | cons x tail =>
      have hx := h.mem_ready hformed hother
      rw [hready] at hx
      contradiction
  | case2 p hready _ ih =>
    obtain ⟨id, rest, hcons⟩ := List.exists_cons_of_ne_nil hready
    obtain ⟨hsound, horder⟩ := h.advance hformed hcons
    cases tail with
    | nil =>
      -- the other order would be over while a node is ready
      obtain ⟨hid, hnew, -⟩ := (h.ready_iff id).1 (hcons ▸ List.mem_cons_self)
      rw [List.append_nil] at hother
      exact absurd (hother.perm.mem_iff.2 hid) hnew
    | cons x tail =>
      have hx := h.mem_ready hformed hother
      rw [hcons] at hx
      rcases List.mem_cons.1 hx with rfl | hx
      · have hsplit : p.order ++ x :: tail = (g.advance p).order ++ tail := by simp [horder]
        rw [hsplit] at hother ⊢
        exact ih hsound hother
      · have hlt : id < x := (List.pairwise_cons.1 (hcons ▸ h.ascending)).1 x hx
        obtain ⟨later, hlater⟩ := order_prefix_finish hformed hsound
        rw [horder, List.append_assoc] at hlater
        rw [← hlater]
        exact .inr (List.append_left_lt (List.cons_lt_cons_iff.2 (.inl hlt)))

/-- When no node is ready, each one outside the order is led to by another one outside it. -/
theorem Sound.exists_leads_of_not_mem (hformed : g.Formed) (h : g.Sound p) (hready : p.ready = [])
    (hid : id ∈ g.ids) (hnew : id ∉ p.order) : ∃ a ∈ g.ids, a ∉ p.order ∧ g.Leads a id := by
  by_contra hnone
  push Not at hnone
  have hzero : g.owed p.order id = 0 := by
    refine (owed_eq_zero_iff hformed).2 fun a ha => ?_
    by_contra hanew
    exact hnone a (hformed.source_mem ha) hanew ha
  have hmem : id ∈ p.ready := (h.ready_iff id).2 ⟨hid, hnew, hzero⟩
  rw [hready] at hmem
  contradiction

/-- When no node is ready, those outside the order are blocked by a cycle. -/
theorem Sound.perm_of_acyclic (hformed : g.Formed) (h : g.Sound p) (hready : p.ready = [])
    (hacyclic : g.Acyclic) : p.order.Perm g.ids := by
  refine (List.perm_ext_iff_of_nodup h.placed.nodup hformed.nodup).2 fun id =>
    ⟨fun hid => h.placed.subset hid, fun hid => ?_⟩
  by_contra hnew
  have hne : g.ids.filter (· ∉ p.order) ≠ [] :=
    List.ne_nil_of_mem (List.mem_filter.2 ⟨hid, by simpa using hnew⟩)
  obtain ⟨b, hb, hsource⟩ := exists_source _ (fun id _ => hacyclic id) hne
  obtain ⟨hbid, hbnew⟩ := List.mem_filter.1 hb
  obtain ⟨a, haid, hanew, hab⟩ :=
    h.exists_leads_of_not_mem hformed hready hbid (of_decide_eq_true hbnew)
  exact hsource a (List.mem_filter.2 ⟨haid, decide_eq_true hanew⟩) hab

theorem order_eq_ok_iff : g.order = .ok order ↔
    (g.finish g.initial).order = order ∧ order.length = g.size := by
  simp only [Graph.order]
  split
  · next hlength =>
    rw [Except.ok.injEq]
    refine ⟨?_, And.left⟩
    rintro rfl
    exact ⟨rfl, hlength⟩
  · next hlength =>
    refine ⟨fun h => by contradiction, ?_⟩
    rintro ⟨rfl, h⟩
    contradiction

/-- A graph is ordered when all its nodes have gone into the order, and then every edge leads
forward. -/
theorem topological_of_order (hformed : g.Formed) (h : g.order = .ok order) :
    g.Topological order := by
  obtain ⟨rfl, hlength⟩ := order_eq_ok_iff.1 h
  have hplaced := (sound_finish hformed (sound_initial hformed)).1.placed
  have hsize : g.ids.length = g.size := List.length_map _
  refine hplaced.topological (List.Subperm.perm_of_length_le ?_ (by omega)) hformed
  exact hplaced.nodup.subperm hplaced.subset

theorem exists_order_iff (hformed : g.Formed) : (∃ order, g.order = .ok order) ↔ g.Acyclic := by
  constructor
  · rintro ⟨order, h⟩
    exact (topological_of_order hformed h).acyclic hformed
  · intro hacyclic
    obtain ⟨hsound, hready⟩ := sound_finish hformed (sound_initial hformed)
    have hsize : g.ids.length = g.size := List.length_map _
    refine ⟨_, order_eq_ok_iff.2 ⟨rfl, ?_⟩⟩
    rw [(hsound.perm_of_acyclic hformed hready hacyclic).length_eq, hsize]

/-! ## The least order -/

/-- The orders in the making, from the first on. -/
def Reached (g : Graph) (p : Progress) : Prop := ∃ steps : Nat, p = g.advance^[steps] g.initial

theorem Reached.sound (hformed : g.Formed) (h : g.Reached p) : g.Sound p := by
  obtain ⟨steps, rfl⟩ := h
  induction steps with
  | zero => exact sound_initial hformed
  | succ steps ih =>
    rw [Function.iterate_succ_apply']
    cases hready : (g.advance^[steps] g.initial).ready with
    | nil =>
      rw [advance, hready]
      exact ih
    | cons id rest => exact (ih.advance hformed hready).1

/-- A graph that is built has an order exactly when no way leads from a node back to it.  The order
holds every node once, every edge leads forward in it, and it is the least such order, its ids
compared byte by byte.  On the way to it no count is ever below zero, and a node is ready as soon as
all that lead to it are in the order, however many edges there are between two nodes. -/
theorem order_least {nodes : List GraphNode} {edges : List GraphEdge}
    (h : (build nodes edges).run.value = .ok g) :
    ((∃ order, g.order = .ok order) ↔ g.Acyclic) ∧
    (∀ order, g.order = .ok order → g.Topological order ∧ ∀ other, g.Topological other →
      other = order ∨ order.map Text.bytes < other.map Text.bytes) ∧
    ∀ p, g.Reached p → (∀ id count, (id, count) ∈ p.counts → 0 ≤ count) ∧
      ∀ id, id ∈ p.ready ↔ id ∈ g.ids ∧ id ∉ p.order ∧ ∀ a, g.Leads a id → a ∈ p.order := by
  have hformed := formed_of_build h
  refine ⟨exists_order_iff hformed, fun order horder => ?_, fun p hp => ?_⟩
  · refine ⟨topological_of_order hformed horder, fun other hother => ?_⟩
    obtain ⟨rfl, -⟩ := order_eq_ok_iff.1 horder
    have hbegins : g.Topological (g.initial.order ++ other) := hother
    have hleast := eq_or_lt_of_topological hformed (sound_initial hformed) hbegins
    exact hleast.imp_right (List.map_lt fun _ _ => Text.bytes_lt)
  · have hsound := hp.sound hformed
    refine ⟨fun id count hcount => ?_, fun id => ?_⟩
    · rw [hsound.counts] at hcount
      obtain ⟨_, -, hpair⟩ := List.mem_map.1 hcount
      obtain ⟨-, rfl⟩ := Prod.mk.inj hpair
      exact Int.natCast_nonneg _
    · rw [hsound.ready_iff, owed_eq_zero_iff hformed]

/-- A function that waits for a table for two reasons, and a queue that nothing waits for. -/
def twoReasons : Graph where
  nodes := [⟨"Audit", .queue, .null⟩, ⟨"Orders", .table, .null⟩, ⟨"Worker", .function, .null⟩]
  edges := [⟨"Orders", "Worker", .dataDependency⟩, ⟨"Orders", "Worker", .dependsOn⟩]

theorem twoReasons_ordered :
    (build [⟨"Worker", .function, .null⟩, ⟨"Orders", .table, .null⟩, ⟨"Audit", .queue, .null⟩]
      twoReasons.edges).run.value = .ok twoReasons ∧
    twoReasons.Acyclic ∧ twoReasons.order = .ok ["Audit", "Orders", "Worker"] ∧
    ∀ other, twoReasons.Topological other → other = ["Audit", "Orders", "Worker"] ∨
      ["Audit", "Orders", "Worker"].map Text.bytes < other.map Text.bytes := by
  have hbuilt : (build
      [⟨"Worker", .function, .null⟩, ⟨"Orders", .table, .null⟩, ⟨"Audit", .queue, .null⟩]
      twoReasons.edges).run.value = .ok twoReasons := rfl
  have horder : twoReasons.order = .ok ["Audit", "Orders", "Worker"] := by decide +kernel
  obtain ⟨hexact, hleast, -⟩ := order_least hbuilt
  exact ⟨hbuilt, hexact.1 ⟨_, horder⟩, horder, (hleast _ horder).2⟩

end LocalCloud.Graph
