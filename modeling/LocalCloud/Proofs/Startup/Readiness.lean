import LocalCloud.Proofs.Startup.Start

/-!
# Dependencies come first

A start is called only when everything that its node waits for is up.  A wave begins when all
members of the waves before it have been found healthy (`Course.called_split`), and the waves of an
order put each node behind what it waits for.
-/

namespace LocalCloud.Orchestrator

variable {σ : Type} {o : Orchestrator} {lists : List (List Provider)}
  {passage : Passage σ StartFailure}

/-- In a wave that is up, every member has returned from its start and is healthy, in this
order. -/
theorem BroughtUp.healthy_sublist {members : List Provider} {wave : Wave}
    (h : BroughtUp o members wave passage) (hfailure : wave.failure? = none) {q : Provider}
    (hq : q ∈ members) :
    [.signalled q .launched, .signalled q .healthy].Sublist passage.history := by
  have hsub := map_signalled_sublist q passage.history
  rw [h.history, h.coherent.signalsOf_of_failure?_none hfailure hq] at hsub
  rw [h.history]
  exact (List.sublist_cons_self _ _).trans hsub

/-- A start is called in a wave of its provider, and the members of all earlier waves are up by
then. -/
theorem Course.called_split (h : Course o lists passage) {p : Provider}
    {before after : List Happening}
    (hsplit : passage.history = before ++ .signalled p .called :: after) :
    ∃ earlier members later, lists = earlier ++ members :: later ∧ p ∈ members ∧
      ∀ q ∈ earlier.flatten,
        [.signalled q .launched, .signalled q .healthy].Sublist before := by
  induction h generalizing before with
  | finished => simp at hsplit
  | givenUp _ hback =>
    have hmem : .signalled p .called ∈ before ++ .signalled p .called :: after := by simp
    rw [← hsplit, List.mem_cons] at hmem
    rcases hmem with hmem | hmem
    · simp at hmem
    · exact absurd hmem (hback.signalled_not_mem p .called)
  | skipped _ _ ih =>
    obtain ⟨earlier, members, later, rfl, hp, hup⟩ := ih hsplit
    exact ⟨[] :: earlier, members, later, rfl, hp, by simpa using hup⟩
  | @failed _ members rest _ _ _ _ _ hfirst _ hback =>
    rcases append_split hsplit with ⟨mid, hwave, -⟩ | ⟨mid, -, hrest⟩
    · rw [hfirst.history] at hwave
      have hp : p ∈ members := hfirst.coherent.ofWave (.signalled p .called) (by simp [hwave])
      exact ⟨[], members, rest, rfl, hp, by simp⟩
    · exact absurd (by simp [hrest]) (hback.signalled_not_mem p .called)
  | @passed _ members rest _ _ _ _ hfirst hfailure _ ih =>
    rcases append_split hsplit with ⟨mid, hwave, -⟩ | ⟨mid, rfl, hrest⟩
    · rw [hfirst.history] at hwave
      have hp : p ∈ members := hfirst.coherent.ofWave (.signalled p .called) (by simp [hwave])
      exact ⟨[], members, rest, rfl, hp, by simp⟩
    · -- a later wave begins when this one is up
      obtain ⟨earlier, members', later, rfl, hp, hup⟩ := ih hrest
      refine ⟨members :: earlier, members', later, rfl, hp, fun q hq => ?_⟩
      rw [List.flatten_cons, List.mem_append] at hq
      rcases hq with hq | hq
      · exact (hfirst.healthy_sublist hfailure hq).trans (List.sublist_append_left _ _)
      · exact (hup q hq).trans (List.sublist_append_right _ _)

/-- No start is called more often than its provider is in the waves. -/
theorem Course.count_called_le (h : Course o lists passage) (p : Provider) :
    passage.history.count (.signalled p .called) ≤ lists.flatten.count p := by
  induction h with
  | finished => simp
  | givenUp _ hback =>
    have hnot := hback.signalled_not_mem p .called
    rw [List.count_cons_of_ne (by simp), List.count_eq_zero_of_not_mem hnot]
    exact Nat.zero_le _
  | skipped _ _ ih => exact ih
  | failed _ hfirst _ hback =>
    rw [List.count_append, List.flatten_cons, List.count_append,
      List.count_eq_zero_of_not_mem (hback.signalled_not_mem p .called)]
    rw [hfirst.history]
    exact Nat.le_trans (hfirst.coherent.count_signalled_le p .called) (Nat.le_add_right _ _)
  | passed _ hfirst _ _ ih =>
    rw [List.count_append, List.flatten_cons, List.count_append, hfirst.history]
    exact Nat.add_le_add (hfirst.coherent.count_signalled_le p .called) ih

/-- A start that succeeds has called the starts of all members of all waves. -/
theorem Course.called_of_ok (h : Course o lists passage) (hok : passage.result = .ok ())
    {p : Provider} (hp : p ∈ lists.flatten) : .signalled p .called ∈ passage.history := by
  induction h with
  | finished => simp at hp
  | givenUp _ hback => simp [hback.result] at hok
  | skipped _ _ ih => exact ih hok (by simpa using hp)
  | failed _ _ _ hback => simp [hback.result] at hok
  | passed _ hfirst hfailure _ ih =>
    rw [List.flatten_cons, List.mem_append] at hp
    rcases hp with hp | hp
    · refine List.mem_append_left _ (mem_signalsOf.1 ?_)
      rw [hfirst.history, hfirst.coherent.signalsOf_of_failure?_none hfailure hp]
      exact List.mem_cons_self
    · exact List.mem_append_right _ (ih hok hp)

/-- A start is called only for providers whose node is in the order, when all providers of the
nodes that this node waits for, as far as they are in the order, have returned from their starts
and are healthy.  It is called at most once for each provider, and just once for each of them when
the whole start succeeds. -/
theorem start_waits_for_dependencies (w : World σ) (o : Orchestrator) (s : σ) (graph : Graph)
    (providers : List Provider) (order : List String) :
    (∀ p before after,
      (start w o s graph providers order).value.history =
        before ++ .signalled p .called :: after →
      p ∈ providers ∧ p.node ∈ order ∧
        ∀ edge ∈ graph.edges, edge.target = p.node → edge.source ∈ order →
          ∀ q ∈ providers, q.node = edge.source →
            [.signalled q .launched, .signalled q .healthy].Sublist before) ∧
    (∀ p, (start w o s graph providers order).value.history.count (.signalled p .called) ≤ 1) ∧
    ((start w o s graph providers order).value.result = .ok () →
      ∀ p ∈ providers, p.node ∈ order →
        (start w o s graph providers order).value.history.count (.signalled p .called) = 1) := by
  rcases start_cases w o s graph providers order with
    ⟨failure, -, heq⟩ | ⟨waves, o₁, haccepted, -, -, -, -, -, hcourse⟩
  · simp [heq]
  have honce : ∀ p, (start w o s graph providers order).value.history.count
      (.signalled p .called) ≤ 1 := fun p =>
    Nat.le_trans (hcourse.count_called_le p) (List.nodup_iff_count.1 haccepted.nodup_members p)
  refine ⟨?_, honce, ?_⟩
  · intro p before after hsplit
    obtain ⟨earlier, members, later, hlists, hp, hup⟩ := hcourse.called_split hsplit
    have hmem : p ∈ (membersOf providers waves).flatten := by
      rw [hlists]
      exact List.mem_flatten.2 ⟨members, by simp, hp⟩
    obtain ⟨hprovider, hnode⟩ := haccepted.mem_members_iff.1 hmem
    refine ⟨hprovider, hnode, ?_⟩
    intro edge hedge htarget hsource q hq hqnode
    obtain ⟨before', wave, after', hwaves, rfl, rfl⟩ := exists_wave_of_membersOf_eq hlists
    have hdependency : edge.source ∈ graph.dependencies p.node := by
      rw [Graph.dependencies, Ascending.mem_ofList]
      exact List.mem_map_of_mem (List.mem_filter.2 ⟨hedge, by simp [htarget]⟩)
    have hearlier : edge.source ∈ before'.flatten :=
      mem_earlier_planWaves haccepted.plan hwaves (mem_members.1 hp).2 hdependency hsource
    exact hup q (mem_flatten_membersOf.2 ⟨hq, hqnode ▸ hearlier⟩)
  · intro hok p hp hnode
    have hcalled := hcourse.called_of_ok hok (haccepted.mem_members_iff.2 ⟨hp, hnode⟩)
    exact Nat.le_antisymm (honce p) (List.count_pos_iff.2 hcalled)

end LocalCloud.Orchestrator
