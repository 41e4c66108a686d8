import LocalCloud.Proofs.Graph.Order

/-!
# The nodes that keep a graph from being ordered

When no node is ready any more, a node is still outside the order exactly when it lies on a cycle or
a way from a cycle leads to it (`Sound.mem_order_iff`).

* Nothing behind a cycle ever goes into the order: all that leads to it would have to stand before
  it, and so the cycle before itself (`Placed.not_mem_of_blocked`).
* A node that is not ready is led to by another one outside the order, and among finitely many nodes
  that are all led to by one of them there is a cycle behind each (`blocked_of_forall_exists`).

So the failure of an order names these nodes and no others (`unordered_exact`).
-/

namespace LocalCloud.Graph

open Relation (TransGen ReflTransGen)

variable {g : Graph} {a b id : String} {order : List String} {p : Progress}

/-- A node lies on a cycle, or a way from a cycle leads to it. -/
def Blocked (g : Graph) (id : String) : Prop :=
  ∃ c, TransGen g.Leads c c ∧ ReflTransGen g.Leads c id

theorem Blocked.mem_ids (hformed : g.Formed) (h : g.Blocked id) : id ∈ g.ids := by
  obtain ⟨c, hcycle, hway⟩ := h
  obtain ⟨_, -, hlast⟩ := TransGen.tail'_iff.1 (hcycle.trans_left hway)
  exact hformed.target_mem hlast

theorem Blocked.of_leads (h : g.Blocked a) (hab : g.Leads a b) : g.Blocked b := by
  obtain ⟨c, hcycle, hway⟩ := h
  exact ⟨c, hcycle, hway.tail hab⟩

/-- What stands in an order is not behind a cycle. -/
theorem Placed.not_mem_of_blocked (h : g.Placed order) (hblocked : g.Blocked id) : id ∉ order := by
  obtain ⟨c, hcycle, hway⟩ := hblocked
  have hself : c ∉ order := by
    intro hc
    obtain ⟨before, after, rfl⟩ := List.append_of_mem hc
    have hbefore : c ∈ before := h.mem_of_transGen rfl hcycle
    exact (List.nodup_append.1 h.nodup).2.2 c hbefore c List.mem_cons_self rfl
  intro hid
  induction hway with
  | refl => exact hself hid
  | tail _ hbc ih => exact ih (h.mem_of_leads hid hbc)

/-- Of finitely many nodes each of which is led to by one of them, all are behind a cycle: the nodes
that are not would have a first one, and what leads to that one is not behind a cycle either. -/
theorem blocked_of_forall_exists (names : List String)
    (h : ∀ b ∈ names, ∃ a ∈ names, g.Leads a b) (hid : id ∈ names) : g.Blocked id := by
  classical
  by_contra hfree
  obtain ⟨b, hb, hsource⟩ := exists_source (g := g) (names.filter (¬ g.Blocked ·))
    (fun a ha hcycle => (of_decide_eq_true (List.mem_filter.1 ha).2) ⟨a, hcycle, .refl⟩)
    (List.ne_nil_of_mem (List.mem_filter.2 ⟨hid, decide_eq_true hfree⟩))
  obtain ⟨hbmem, hbfree⟩ := List.mem_filter.1 hb
  obtain ⟨a, ha, hab⟩ := h b hbmem
  refine hsource a (List.mem_filter.2 ⟨ha, decide_eq_true fun hblocked => ?_⟩) hab
  exact of_decide_eq_true hbfree (hblocked.of_leads hab)

namespace Sound

/-- Once no node is ready, those in the order are those that are not behind a cycle. -/
theorem mem_order_iff (hformed : g.Formed) (h : g.Sound p) (hready : p.ready = [])
    (hid : id ∈ g.ids) : id ∈ p.order ↔ ¬ g.Blocked id := by
  refine ⟨fun hmem hblocked => h.placed.not_mem_of_blocked hblocked hmem, fun hfree => ?_⟩
  by_contra hnew
  refine hfree (blocked_of_forall_exists (g.ids.filter (· ∉ p.order)) ?_
    (List.mem_filter.2 ⟨hid, decide_eq_true hnew⟩))
  intro b hb
  obtain ⟨hbid, hbnew⟩ := List.mem_filter.1 hb
  obtain ⟨a, haid, hanew, hab⟩ :=
    h.exists_leads_of_not_mem hformed hready hbid (of_decide_eq_true hbnew)
  exact ⟨a, List.mem_filter.2 ⟨haid, decide_eq_true hanew⟩, hab⟩

/-- Once no node is ready, those that still wait for something are those behind a cycle. -/
theorem owed_pos_iff (hformed : g.Formed) (h : g.Sound p) (hready : p.ready = [])
    (hid : id ∈ g.ids) : 0 < g.owed p.order id ↔ g.Blocked id := by
  rw [Nat.pos_iff_ne_zero]
  constructor
  · intro howed
    by_contra hfree
    have hmem := (h.mem_order_iff hformed hready hid).2 hfree
    obtain ⟨before, after, hsplit⟩ := List.append_of_mem hmem
    refine howed ((owed_eq_zero_iff hformed).2 fun a ha => ?_)
    rw [hsplit]
    exact List.mem_append_left _ (h.placed.before hsplit ha)
  · intro hblocked hzero
    have hnew := h.placed.not_mem_of_blocked hblocked
    have hmem : id ∈ p.ready := (h.ready_iff id).2 ⟨hid, hnew, hzero⟩
    rw [hready] at hmem
    contradiction

end Sound

/-- The nodes with a count above zero, in the order of the nodes. -/
theorem waiting_tally (ids : List String) (f : String → Nat) :
    ((tally ids fun id => (f id : Int)).filter (0 < ·.2)).map (·.1) = ids.filter (0 < f ·) := by
  rw [tally, List.filter_map, List.map_map]
  simp [Function.comp_def]

/-- Where a graph that is built cannot be ordered, the failure names each node that lies on a cycle
or that a way from a cycle leads to, and no other, once and in ascending order of the bytes of the
ids. -/
theorem unordered_exact {nodes : List GraphNode} {edges : List GraphEdge} {failure : GraphFailure}
    (h : (build nodes edges).run.value = .ok g) (hfailure : g.order = .error failure) :
    ∃ blocked, failure = .unordered blocked ∧
      (blocked.map Text.bytes).Pairwise (· < ·) ∧
      ∀ id, id ∈ blocked ↔ ∃ c, TransGen g.Leads c c ∧ ReflTransGen g.Leads c id := by
  have hformed := formed_of_build h
  obtain ⟨hsound, hready⟩ := sound_finish hformed (sound_initial hformed)
  refine ⟨g.ids.filter fun id => 0 < g.owed (g.finish g.initial).order id, ?_, ?_, fun id => ?_⟩
  · simp only [Graph.order] at hfailure
    split at hfailure
    · contradiction
    · obtain rfl := Except.error.inj hfailure
      rw [hsound.counts, waiting_tally]
  · exact List.pairwise_map.2 ((hformed.ascending.filter _).imp Text.bytes_lt)
  · rw [List.mem_filter, decide_eq_true_eq]
    constructor
    · rintro ⟨hid, howed⟩
      exact (hsound.owed_pos_iff hformed hready hid).1 howed
    · intro hblocked
      have hid : id ∈ g.ids := Blocked.mem_ids hformed hblocked
      exact ⟨hid, (hsound.owed_pos_iff hformed hready hid).2 hblocked⟩

/-- A table and a function that wait for each other, a topic that waits for the function for two
reasons, and a queue that waits for nothing. -/
def deadlocked : Graph where
  nodes := [⟨"Audit", .queue, .null⟩, ⟨"Mail", .topic, .null⟩, ⟨"Orders", .table, .null⟩,
    ⟨"Worker", .function, .null⟩]
  edges := [⟨"Orders", "Worker", .dataDependency⟩, ⟨"Worker", "Orders", .dependsOn⟩,
    ⟨"Worker", "Mail", .triggers⟩, ⟨"Worker", "Mail", .dependsOn⟩, ⟨"Audit", "Mail", .dependsOn⟩]

theorem deadlocked_unordered :
    (build deadlocked.nodes.reverse deadlocked.edges).run.value = .ok deadlocked ∧
    deadlocked.order = .error (.unordered ["Mail", "Orders", "Worker"]) ∧
    ∀ id, id ∈ ["Mail", "Orders", "Worker"] ↔
      ∃ c, TransGen deadlocked.Leads c c ∧ ReflTransGen deadlocked.Leads c id := by
  have hbuilt : (build deadlocked.nodes.reverse deadlocked.edges).run.value = .ok deadlocked := rfl
  have hfailure : deadlocked.order = .error (.unordered ["Mail", "Orders", "Worker"]) := by
    decide +kernel
  obtain ⟨blocked, hnames, -, hexact⟩ := unordered_exact hbuilt hfailure
  obtain rfl := GraphFailure.unordered.inj hnames
  exact ⟨hbuilt, hfailure, hexact⟩

end LocalCloud.Graph
