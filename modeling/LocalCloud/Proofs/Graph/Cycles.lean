import LocalCloud.Graph.Cycles
import LocalCloud.Proofs.Graph.Order
import Mathlib.Data.List.Chain

/-!
# The cycles of a graph

* Every cycle that the search reports goes along edges and meets no node twice (`IsCycle`), and no
  two of them are closed by the same edge.
* Without the edges that close the reported cycles, the nodes in the order in which the search came
  to their ends, the last one first, are an order of the graph (`topological_without`).
* So the search reports nothing exactly when no way leads from a node back to it, and a graph with
  such a way has a reported cycle among the nodes that the way connects (`cycles_complete`).
-/

namespace LocalCloud.Graph

open Relation (TransGen ReflTransGen)

variable {g : Graph} {a b node next : String} {path rest : List String} {s t : Search}

/-! ## Closed ways -/

/-- A way along edges that comes back to its first node and meets no node twice otherwise. -/
structure IsCycle (g : Graph) (c : List String) : Prop where
  length : 2 ≤ c.length
  closed : c.head? = c.getLast?
  nodup : c.dropLast.Nodup
  chain : c.IsChain g.Leads

/-- The last edge of a way, by its two ends. -/
def lastEdge? (way : List String) : Option (String × String) :=
  match way.reverse with
  | b :: a :: _ => some (a, b)
  | _ => none

theorem lastEdge?_append (before : List String) (a b : String) :
    lastEdge? (before ++ [a, b]) = some (a, b) := by
  simp [lastEdge?]

theorem eq_append_of_lastEdge? {way : List String} (h : lastEdge? way = some (a, b)) :
    ∃ before, way = before ++ [a, b] := by
  unfold lastEdge? at h
  split at h
  · next y x before hreverse =>
    obtain ⟨rfl, rfl⟩ := Prod.mk.inj (Option.some.inj h)
    exact ⟨before.reverse, by simpa using congrArg List.reverse hreverse⟩
  · contradiction

/-- The cycle that an edge back to the path closes, along the path and then the edge. -/
theorem closeCycle_eq {pre post : List String} (h : next ∉ pre) :
    closeCycle (pre ++ next :: post) next = (pre ++ [next]).reverse ++ [next] := by
  have hpre : ∀ x ∈ pre, (x != next) = true := fun x hx => by
    rw [bne_iff_ne]
    rintro rfl
    exact h hx
  rw [closeCycle, List.takeWhile_append_of_pos hpre, List.takeWhile_cons]
  simp

theorem lastEdge?_closeCycle (h : next ∈ node :: rest) :
    lastEdge? (closeCycle (node :: rest) next) = some (node, next) := by
  obtain ⟨pre, post, hsplit, hpre⟩ := List.eq_append_cons_of_mem h
  rw [hsplit, closeCycle_eq hpre]
  cases pre with
  | nil =>
    obtain ⟨rfl, -⟩ := List.cons.inj hsplit
    rfl
  | cons x pre =>
    obtain ⟨rfl, -⟩ := List.cons.inj hsplit
    have heq : (node :: pre ++ [next]).reverse ++ [next] =
        (next :: pre.reverse) ++ [node, next] := by
      simp
    rw [heq, lastEdge?_append]

/-- The path of a search goes along edges, from its end to its head. -/
def IsPath (g : Graph) (path : List String) : Prop := path.IsChain fun x y => g.Leads y x

theorem isCycle_closeCycle (hpath : g.IsPath (node :: rest)) (hnodup : (node :: rest).Nodup)
    (hnext : next ∈ node :: rest) (hedge : g.Leads node next) :
    g.IsCycle (closeCycle (node :: rest) next) := by
  obtain ⟨pre, post, hsplit, hpre⟩ := List.eq_append_cons_of_mem hnext
  have hprefix : pre ++ [next] <+: node :: rest := ⟨post, by simp [hsplit]⟩
  -- the way along the path ends at its head, where the edge begins
  have hlast : (pre ++ [next]).reverse.getLast? = some node := by
    rw [List.getLast?_reverse]
    cases pre with
    | nil => exact congrArg some (List.cons.inj hsplit).1.symm
    | cons x pre => exact congrArg some (List.cons.inj hsplit).1.symm
  rw [hsplit, closeCycle_eq hpre]
  exact {
    length := by simp
    closed := by
      rw [List.getLast?_concat, List.reverse_append]
      rfl
    nodup := by
      rw [List.dropLast_concat, List.nodup_reverse]
      exact hnodup.sublist hprefix.sublist
    chain := by
      refine List.isChain_append.2 ⟨List.isChain_reverse.2 ?_, List.isChain_singleton _, ?_⟩
      · exact hpath.prefix hprefix
      · intro x hx y hy
        obtain rfl : node = x := Option.some.inj (hlast.symm.trans hx)
        obtain rfl : next = y := Option.some.inj hy
        exact hedge }

/-! ## The search -/

/-- One of the cycles reported so far is closed by an edge from `a` to `b`. -/
def Search.Closes (s : Search) (a b : String) : Prop :=
  ∃ c ∈ s.cycles, lastEdge? c = some (a, b)

/-- What holds of a search while `path` leads to where it is. -/
structure Consistent (g : Graph) (path : List String) (s : Search) : Prop where
  nodup : (path ++ s.done).Nodup
  known : path ++ s.done ⊆ g.ids
  cycles : ∀ c ∈ s.cycles, g.IsCycle c
  distinct : (s.cycles.map lastEdge?).Nodup
  sources : ∀ {a b}, s.Closes a b → a ∈ path ∨ a ∈ s.done
  /-- An edge from a node that has been searched to the end closes a cycle or leads to a node that
  had been before. -/
  finished : ∀ {later a earlier}, s.done = later ++ a :: earlier → ∀ {b}, g.Leads a b →
    s.Closes a b ∨ b ∈ earlier

/-- What a search adds while `path` stays as it is. -/
structure Continues (path : List String) (s t : Search) : Prop where
  done : s.done <:+ t.done
  closed : ∀ {a b}, s.Closes a b → t.Closes a b
  untouched : ∀ {a b}, a ∈ path → t.Closes a b → s.Closes a b

namespace Continues

theorem refl (path : List String) (s : Search) : Continues path s s :=
  ⟨List.suffix_rfl, fun h => h, fun _ h => h⟩

theorem trans {u : Search} (h : Continues path s t) (h' : Continues path t u) :
    Continues path s u where
  done := h.done.trans h'.done
  closed := fun hs => h'.closed (h.closed hs)
  untouched := fun ha hu => h.untouched ha (h'.untouched ha hu)

theorem mono {path' : List String} (h : Continues path' s t) (hsub : path ⊆ path') :
    Continues path s t where
  done := h.done
  closed := h.closed
  untouched := fun ha => h.untouched (hsub ha)

end Continues

/-! ### Looking at one neighbour -/

/-- What the search does when it comes to a neighbour of the head of the path. -/
def look (g : Graph) (path : List String) (s : Search) (next : String) : Search :=
  if next ∈ path then { s with cycles := s.cycles ++ [closeCycle path next] }
  else if next ∈ s.done then s
  else if next ∈ g.ids then visit g (next :: path) next s
  else s

theorem visit_eq (path : List String) (node : String) (s : Search) :
    visit g path node s =
      { (g.dependents node).foldl (g.look path) s with
        done := node :: ((g.dependents node).foldl (g.look path) s).done } := by
  rw [visit]
  rfl

/-- What holds of a search from `node` when it has come to the neighbours `seen`. -/
structure Looking (g : Graph) (path : List String) (node : String) (s t : Search)
    (seen : List String) : Prop where
  consistent : g.Consistent (node :: path) t
  continues : Continues path s t
  own : ∀ {b}, t.Closes node b → b ∈ seen
  handled : ∀ b ∈ seen, t.Closes node b ∨ b ∈ t.done

/-- What searching from `next` does, the path to which is `path`. -/
def Visits (g : Graph) (path : List String) (next : String) (s t : Search) : Prop :=
  g.Consistent path t ∧ Continues path s t ∧ next ∈ t.done

theorem closes_snoc {c : List String} :
    Search.Closes { s with cycles := s.cycles ++ [c] } a b ↔
      s.Closes a b ∨ lastEdge? c = some (a, b) := by
  simp only [Search.Closes, List.mem_append, List.mem_singleton]
  constructor
  · rintro ⟨c', hc | rfl, hlast⟩
    · exact .inl ⟨c', hc, hlast⟩
    · exact .inr hlast
  · rintro (⟨c', hc, hlast⟩ | hlast)
    · exact ⟨c', .inl hc, hlast⟩
    · exact ⟨c, .inr rfl, hlast⟩

variable {seen : List String}

/-- An edge back to the path closes a new cycle. -/
theorem Looking.close (h : g.Looking path node s t seen) (hpath : g.IsPath (node :: path))
    (hedge : g.Leads node next) (hnew : next ∉ seen) (hnext : next ∈ node :: path) :
    g.Looking path node s { t with cycles := t.cycles ++ [closeCycle (node :: path) next] }
      (seen ++ [next]) := by
  have hlast := lastEdge?_closeCycle hnext
  have hnodup : (node :: path).Nodup := (List.nodup_append.1 h.consistent.nodup).1
  exact {
    consistent := {
      nodup := h.consistent.nodup
      known := h.consistent.known
      cycles := by
        intro c hc
        rcases List.mem_append.1 hc with hc | hc
        · exact h.consistent.cycles c hc
        · rw [List.mem_singleton.1 hc]
          exact isCycle_closeCycle hpath hnodup hnext hedge
      distinct := by
        rw [List.map_append, List.map_singleton, hlast]
        refine List.nodup_append.2 ⟨h.consistent.distinct, List.nodup_singleton _, ?_⟩
        rintro x hx y hy rfl
        obtain ⟨c, hc, hclosed⟩ := List.mem_map.1 hx
        exact hnew (h.own ⟨c, hc, hclosed.trans (List.mem_singleton.1 hy)⟩)
      sources := by
        intro a b hclosed
        rcases closes_snoc.1 hclosed with hclosed | hclosed
        · exact h.consistent.sources hclosed
        · obtain ⟨rfl, rfl⟩ := Prod.mk.inj (Option.some.inj (hlast.symm.trans hclosed))
          exact .inl List.mem_cons_self
      finished := by
        intro later a earlier hsplit b hab
        exact (h.consistent.finished hsplit hab).imp_left
          fun hclosed => closes_snoc.2 (.inl hclosed) }
    continues := {
      done := h.continues.done
      closed := fun hclosed => closes_snoc.2 (.inl (h.continues.closed hclosed))
      untouched := by
        intro a b ha hclosed
        rcases closes_snoc.1 hclosed with hclosed | hclosed
        · exact h.continues.untouched ha hclosed
        · obtain ⟨rfl, rfl⟩ := Prod.mk.inj (Option.some.inj (hlast.symm.trans hclosed))
          exact absurd ha (List.nodup_cons.1 hnodup).1 }
    own := by
      intro b hclosed
      rcases closes_snoc.1 hclosed with hclosed | hclosed
      · exact List.mem_append_left _ (h.own hclosed)
      · obtain ⟨-, rfl⟩ := Prod.mk.inj (Option.some.inj (hlast.symm.trans hclosed))
        exact List.mem_append_right _ List.mem_cons_self
    handled := by
      intro b hb
      rcases List.mem_append.1 hb with hb | hb
      · exact (h.handled b hb).imp_left fun hclosed => closes_snoc.2 (.inl hclosed)
      · rw [List.mem_singleton.1 hb]
        exact .inl (closes_snoc.2 (.inr hlast)) }

/-- A neighbour that has been searched to the end before, or now is. -/
theorem Looking.visit {u : Search} (h : g.Looking path node s t seen)
    (hvisits : g.Visits (node :: path) next t u) : g.Looking path node s u (seen ++ [next]) := by
  obtain ⟨hconsistent, hcontinues, hnext⟩ := hvisits
  exact {
    consistent := hconsistent
    continues := h.continues.trans (hcontinues.mono (List.subset_cons_self node path))
    own := fun hclosed => List.mem_append_left _
      (h.own (hcontinues.untouched List.mem_cons_self hclosed))
    handled := by
      intro b hb
      rcases List.mem_append.1 hb with hb | hb
      · exact (h.handled b hb).imp hcontinues.closed fun hdone => hcontinues.done.subset hdone
      · rw [List.mem_singleton.1 hb]
        exact .inr hnext }

/-- The search from a node, if searching from each of its neighbours does what it should. -/
theorem Looking.foldl (hformed : g.Formed) (hpath : g.IsPath (node :: path))
    (hvisit : ∀ t next, next ∉ node :: path → next ∈ g.ids → next ∉ t.done → g.Leads node next →
      g.Consistent (node :: path) t →
        g.Visits (node :: path) next t (g.visit (next :: node :: path) next t))
    {targets : List String} (h : g.Looking path node s t seen)
    (hnodup : (seen ++ targets).Nodup) (hedges : ∀ next ∈ targets, g.Leads node next) :
    g.Looking path node s (targets.foldl (g.look (node :: path)) t) (seen ++ targets) := by
  induction targets generalizing t seen with
  | nil => simpa using h
  | cons next targets ih =>
    obtain ⟨hedge, hrest⟩ := List.forall_mem_cons.1 hedges
    have hnew : next ∉ seen := fun hseen =>
      (List.nodup_append.1 hnodup).2.2 next hseen next List.mem_cons_self rfl
    have hsplit : seen ++ next :: targets = (seen ++ [next]) ++ targets := by simp
    rw [List.foldl_cons, hsplit]
    rw [hsplit] at hnodup
    refine ih ?_ hnodup hrest
    unfold look
    split
    · next hnext => exact h.close hpath hedge hnew hnext
    next hnext =>
    split
    · next hdone => exact h.visit ⟨h.consistent, .refl _ _, hdone⟩
    next hdone =>
    split
    · next hid => exact h.visit (hvisit t next hnext hid hdone hedge h.consistent)
    · next hid => exact absurd (hformed.target_mem hedge) hid

/-! ### Searching from a node -/

theorem Consistent.looking (h : g.Consistent path s) (hid : node ∈ g.ids) (hpath : node ∉ path)
    (hdone : node ∉ s.done) : g.Looking path node s s [] where
  consistent := {
    nodup := by
      rw [List.cons_append, List.nodup_cons, List.mem_append, not_or]
      exact ⟨⟨hpath, hdone⟩, h.nodup⟩
    known := List.cons_subset.2 ⟨hid, h.known⟩
    cycles := h.cycles
    distinct := h.distinct
    sources := fun hclosed => (h.sources hclosed).imp_left (List.mem_cons_of_mem _)
    finished := h.finished }
  continues := .refl path s
  own := fun hclosed => ((h.sources hclosed).elim hpath hdone).elim
  handled := by simp

/-- When all neighbours have been looked at, the node has been searched to the end. -/
theorem Looking.visits (h : g.Looking path node s t (g.dependents node)) :
    g.Visits path node s { t with done := node :: t.done } := by
  have hnodup := h.consistent.nodup
  refine ⟨?_, ?_, List.mem_cons_self⟩
  · exact {
      nodup := (List.perm_middle.nodup_iff).2 hnodup
      known := fun x hx => h.consistent.known (List.perm_middle.mem_iff.1 hx)
      cycles := h.consistent.cycles
      distinct := h.consistent.distinct
      sources := by
        intro a b hclosed
        rcases h.consistent.sources hclosed with ha | ha
        · rcases List.mem_cons.1 ha with rfl | ha
          · exact .inr List.mem_cons_self
          · exact .inl ha
        · exact .inr (List.mem_cons_of_mem _ ha)
      finished := by
        intro later a earlier hsplit b hab
        cases later with
        | nil =>
          obtain ⟨rfl, rfl⟩ := List.cons.inj hsplit
          exact h.handled b (mem_dependents_iff.2 hab)
        | cons x later =>
          obtain ⟨-, hsplit⟩ := List.cons.inj hsplit
          exact h.consistent.finished hsplit hab }
  · exact {
      done := h.continues.done.trans (List.suffix_cons _ _)
      closed := h.continues.closed
      untouched := h.continues.untouched }

theorem visits_visit (hformed : g.Formed) (full : List String) (node : String) (s : Search) :
    ∀ path, full = node :: path → g.IsPath full → node ∈ g.ids → node ∉ path → node ∉ s.done →
      g.Consistent path s → g.Visits path node s (g.visit full node s) := by
  induction full, node, s using visit.induct g with
  | case1 full node s ih =>
    rintro path rfl hpath hid hnew hdone hconsistent
    rw [visit_eq]
    refine Looking.visits ?_
    refine (hconsistent.looking hid hnew hdone).foldl hformed hpath ?_ (nodup_dependents g node)
      fun next hnext => mem_dependents_iff.1 hnext
    intro t next hnext hid hdone hedge ht
    exact ih t next hnext hid (node :: path) rfl (List.IsChain.cons_cons hedge hpath) hid hnext
      hdone ht

/-! ### The whole search -/

/-- The search in the end. -/
def searched (g : Graph) : Search :=
  g.ids.foldl (fun s id => if id ∈ s.done then s else visit g [id] id s) {}

theorem consistent_foldl (hformed : g.Formed) {ids : List String} (hids : ids ⊆ g.ids)
    (h : g.Consistent [] s) :
    let t := ids.foldl (fun s id => if id ∈ s.done then s else visit g [id] id s) s
    g.Consistent [] t ∧ s.done ⊆ t.done ∧ ids ⊆ t.done := by
  induction ids generalizing s with
  | nil => exact ⟨h, List.Subset.refl _, List.nil_subset _⟩
  | cons id ids ih =>
    obtain ⟨hid, hids⟩ := List.cons_subset.1 hids
    rw [List.foldl_cons]
    split
    · next hdone =>
      obtain ⟨hconsistent, hgrows, hall⟩ := ih hids h
      exact ⟨hconsistent, hgrows, List.cons_subset.2 ⟨hgrows hdone, hall⟩⟩
    · next hdone =>
      obtain ⟨hvisited, hcontinues, hmem⟩ := visits_visit hformed [id] id s [] rfl
        (List.isChain_singleton id) hid List.not_mem_nil hdone h
      obtain ⟨hconsistent, hgrows, hall⟩ := ih hids hvisited
      exact ⟨hconsistent, List.Subset.trans hcontinues.done.subset hgrows,
        List.cons_subset.2 ⟨hgrows hmem, hall⟩⟩

theorem consistent_empty (g : Graph) : g.Consistent [] {} where
  nodup := List.nodup_nil
  known := List.nil_subset _
  cycles := by simp
  distinct := List.nodup_nil
  sources := by simp [Search.Closes]
  finished := by simp

theorem consistent_searched (hformed : g.Formed) :
    g.Consistent [] g.searched ∧ g.ids ⊆ g.searched.done := by
  obtain ⟨hconsistent, -, hall⟩ :=
    consistent_foldl hformed (List.Subset.refl g.ids) (consistent_empty g)
  exact ⟨hconsistent, hall⟩

/-! ## Without the edges that close cycles -/

/-- The graph without the edges between some pairs of nodes. -/
def without (g : Graph) (removed : List (String × String)) : Graph :=
  { g with edges := g.edges.filter fun edge => (edge.source, edge.target) ∉ removed }

theorem leads_without {removed : List (String × String)} :
    (g.without removed).Leads a b ↔ g.Leads a b ∧ (a, b) ∉ removed := by
  simp only [Leads, without, List.mem_filter, decide_eq_true_eq]
  constructor
  · rintro ⟨edge, ⟨hedge, hkept⟩, rfl, rfl⟩
    exact ⟨⟨edge, hedge, rfl, rfl⟩, hkept⟩
  · rintro ⟨⟨edge, hedge, rfl, rfl⟩, hkept⟩
    exact ⟨edge, ⟨hedge, hkept⟩, rfl, rfl⟩

theorem Formed.without (h : g.Formed) (removed : List (String × String)) :
    (g.without removed).Formed where
  ascending := h.ascending
  source_mem := fun hab => h.source_mem (leads_without.1 hab).1
  target_mem := fun hab => h.target_mem (leads_without.1 hab).1

/-- The edges that close the reported cycles. -/
def closings (g : Graph) : List (String × String) := g.cycles.filterMap lastEdge?

theorem mem_closings_iff : (a, b) ∈ g.closings ↔ g.searched.Closes a b := List.mem_filterMap

/-- The nodes in the order in which they were searched to the end, the last one first. -/
theorem topological_without (hformed : g.Formed) :
    (g.without g.closings).Topological g.searched.done := by
  obtain ⟨hconsistent, hall⟩ := consistent_searched hformed
  exact {
    perm := (List.perm_ext_iff_of_nodup hconsistent.nodup hformed.nodup).2 fun id =>
      ⟨fun hid => hconsistent.known hid, fun hid => hall hid⟩
    forward := by
      intro edge hedge
      obtain ⟨hleads, hkept⟩ := leads_without.1 ⟨edge, hedge, rfl, rfl⟩
      obtain ⟨later, earlier, hsplit⟩ := List.append_of_mem (hall (hformed.source_mem hleads))
      have hearlier : edge.target ∈ earlier :=
        (hconsistent.finished hsplit hleads).resolve_left fun hclosed =>
          hkept (mem_closings_iff.2 hclosed)
      rw [hsplit]
      exact ((List.singleton_sublist.2 hearlier).cons_cons edge.source).trans
        (List.sublist_append_right _ _) }

theorem acyclic_without (hformed : g.Formed) : (g.without g.closings).Acyclic :=
  (topological_without hformed).acyclic (hformed.without _)

/-! ## Ways and cycles -/

/-- Ways lead from each of two nodes to the other one. -/
def Connected (g : Graph) (a b : String) : Prop :=
  ReflTransGen g.Leads a b ∧ ReflTransGen g.Leads b a

theorem reach_of_isChain {R : String → String → Prop} {x y : String} {way : List String}
    (h : (x :: way).IsChain R) (hy : y ∈ x :: way) : ReflTransGen R x y := by
  induction way generalizing x with
  | nil => rw [List.mem_singleton.1 hy]
  | cons z way ih =>
    obtain ⟨hxz, hrest⟩ := List.isChain_cons_cons.1 h
    rcases List.mem_cons.1 hy with rfl | hy
    · exact .refl
    · exact .head hxz (ih hrest hy)

theorem reach_last_of_isChain {R : String → String → Prop} {x y : String} {way : List String}
    (h : way.IsChain R) (hlast : way.getLast? = some y) (hx : x ∈ way) : ReflTransGen R x y := by
  obtain ⟨back, hback⟩ := List.head?_eq_some_iff.1 (List.head?_reverse.trans hlast)
  have hchain : (y :: back).IsChain (Function.swap R) := by
    rw [← hback, List.isChain_reverse]
    exact h
  have hmem : x ∈ y :: back := by
    rw [← hback]
    exact List.mem_reverse.2 hx
  exact Relation.reflTransGen_swap.1 (reach_of_isChain hchain hmem)

/-- The nodes of a cycle are connected with the end of its last edge. -/
theorem IsCycle.connected {c : List String} (h : g.IsCycle c) (hlast : lastEdge? c = some (a, b))
    (hnode : node ∈ c) : g.Connected b node := by
  obtain ⟨before, rfl⟩ := eq_append_of_lastEdge? hlast
  have hend : (before ++ [a, b]).getLast? = some b := by simp
  obtain ⟨way, hway⟩ := List.head?_eq_some_iff.1 (h.closed.trans hend)
  refine ⟨?_, reach_last_of_isChain h.chain hend hnode⟩
  rw [hway] at hnode
  exact reach_of_isChain (hway ▸ h.chain) hnode

theorem transGen_or_removed {R Q D : String → String → Prop} (hR : ∀ x y, R x y → Q x y ∨ D x y)
    (h : TransGen R a b) :
    TransGen Q a b ∨ ∃ x y, ReflTransGen R a x ∧ R x y ∧ D x y ∧ ReflTransGen R y b := by
  induction h with
  | single hab =>
    rcases hR _ _ hab with hQ | hD
    · exact .inl (.single hQ)
    · exact .inr ⟨_, _, .refl, hab, hD, .refl⟩
  | tail hac hcb ih =>
    rcases ih with hQ | ⟨x, y, hax, hxy, hD, hyc⟩
    · rcases hR _ _ hcb with hQ' | hD
      · exact .inl (hQ.tail hQ')
      · exact .inr ⟨_, _, hac.to_reflTransGen, hcb, hD, .refl⟩
    · exact .inr ⟨x, y, hax, hxy, hD, hyc.tail hcb⟩

/-- A node from which a way leads back to it is connected with all nodes of a reported cycle. -/
theorem exists_cycle_of_transGen (hformed : g.Formed) (h : TransGen g.Leads a a) :
    ∃ c ∈ g.cycles, ∀ b ∈ c, g.Connected a b := by
  have hedges : ∀ x y, g.Leads x y → (g.without g.closings).Leads x y ∨ g.searched.Closes x y := by
    intro x y hxy
    by_cases hclosed : (x, y) ∈ g.closings
    · exact .inr (mem_closings_iff.1 hclosed)
    · exact .inl (leads_without.2 ⟨hxy, hclosed⟩)
  rcases transGen_or_removed hedges h with hkept | ⟨x, y, hax, hxy, ⟨c, hc, hlast⟩, hya⟩
  · exact absurd hkept (acyclic_without hformed a)
  · have hcycle := (consistent_searched hformed).1.cycles c hc
    refine ⟨c, hc, fun b hb => ?_⟩
    obtain ⟨hyb, hby⟩ := hcycle.connected hlast hb
    exact ⟨(hax.tail hxy).trans hyb, hby.trans hya⟩

/-- From each node of a way that comes back to its first node a way leads back to it. -/
theorem transGen_of_closed {R : String → String → Prop} {c : List String} (hlength : 2 ≤ c.length)
    (hclosed : c.head? = c.getLast?) (hchain : c.IsChain R) (hnode : node ∈ c) :
    TransGen R node node := by
  obtain ⟨x, y, way, rfl⟩ : ∃ x y way, c = x :: y :: way := by
    match c, hlength with
    | x :: y :: way, _ => exact ⟨x, y, way, rfl⟩
  obtain ⟨hxy, hrest⟩ := List.isChain_cons_cons.1 hchain
  have hlast : (y :: way).getLast? = some x := by
    rw [← List.getLast?_cons_cons, ← hclosed]
    rfl
  have hmem : node ∈ y :: way := by
    rcases List.mem_cons.1 hnode with rfl | hmem
    · exact List.mem_of_getLast? hlast
    · exact hmem
  exact .trans_right (reach_last_of_isChain hrest hlast hmem)
    (.head' hxy (reach_of_isChain hrest hmem))

theorem IsCycle.transGen {c : List String} (h : g.IsCycle c) (hnode : node ∈ c) :
    TransGen g.Leads node node :=
  transGen_of_closed h.length h.closed h.chain hnode

theorem cycles_eq_nil_iff (hformed : g.Formed) : g.cycles = [] ↔ g.Acyclic := by
  constructor
  · intro hnil a ha
    obtain ⟨c, hc, -⟩ := exists_cycle_of_transGen hformed ha
    rw [hnil] at hc
    contradiction
  · intro hacyclic
    refine List.eq_nil_iff_forall_not_mem.2 fun c hc => ?_
    have hcycle := (consistent_searched hformed).1.cycles c hc
    obtain ⟨a, ha⟩ := List.exists_mem_of_length_pos (Nat.zero_lt_of_lt hcycle.length)
    exact hacyclic a (hcycle.transGen ha)

/-- In a graph that is built, every reported cycle goes along edges back to its first node and
meets no node twice otherwise; no edge closes two of them, and without the edges that close them no
way leads from a node back to it.  So there are none exactly when the graph can be ordered, and each
node from which a way leads back to it is connected with all nodes of one of them. -/
theorem cycles_complete {nodes : List GraphNode} {edges : List GraphEdge}
    (h : (build nodes edges).run.value = .ok g) :
    (∀ c ∈ g.cycles, g.IsCycle c) ∧ (g.cycles.map lastEdge?).Nodup ∧
    (g.without g.closings).Acyclic ∧
    (g.cycles = [] ↔ g.Acyclic) ∧ (g.cycles = [] ↔ ∃ order, g.order = .ok order) ∧
    ∀ a, TransGen g.Leads a a → ∃ c ∈ g.cycles, ∀ b ∈ c, g.Connected a b := by
  have hformed := formed_of_build h
  have hconsistent := (consistent_searched hformed).1
  have hnil := cycles_eq_nil_iff hformed
  refine ⟨hconsistent.cycles, hconsistent.distinct, acyclic_without hformed, hnil, ?_, ?_⟩
  · rw [hnil, exists_order_iff hformed]
  · exact fun a ha => exists_cycle_of_transGen hformed ha

/-- Two cycles with a node in common, one of them with an edge twice, and a node that waits for
itself. -/
def tangled : Graph where
  nodes := [⟨"A", .queue, .null⟩, ⟨"B", .function, .null⟩, ⟨"C", .table, .null⟩,
    ⟨"D", .topic, .null⟩]
  edges := [⟨"A", "B", .triggers⟩, ⟨"B", "A", .invokes⟩, ⟨"B", "C", .invokes⟩,
    ⟨"C", "B", .triggers⟩, ⟨"C", "B", .dependsOn⟩, ⟨"D", "D", .dependsOn⟩]

theorem tangled_cycles :
    (build tangled.nodes tangled.edges).run.value = .ok tangled ∧
    tangled.cycles = [["A", "B", "A"], ["B", "C", "B"], ["D", "D"]] ∧
    (∀ c ∈ tangled.cycles, tangled.IsCycle c) ∧ (tangled.without tangled.closings).Acyclic ∧
    ¬ tangled.Acyclic ∧ ¬ ∃ order, tangled.order = .ok order := by
  have hbuilt : (build tangled.nodes tangled.edges).run.value = .ok tangled := rfl
  have hcycles : tangled.cycles = [["A", "B", "A"], ["B", "C", "B"], ["D", "D"]] := by
    decide +kernel
  have hne : tangled.cycles ≠ [] := hcycles ▸ List.cons_ne_nil _ _
  obtain ⟨hsound, -, hwithout, hacyclic, horder, -⟩ := cycles_complete hbuilt
  exact ⟨hbuilt, hcycles, hsound, hwithout, mt hacyclic.2 hne, mt horder.2 hne⟩

end LocalCloud.Graph
