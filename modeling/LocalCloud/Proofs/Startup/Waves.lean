import LocalCloud.Proofs.Graph.Formation
import LocalCloud.Startup.Waves

/-!
# What waves are

The waves of an order are the order itself, cut into pieces (`flatten_planWaves`), and every node
comes in a later wave than all nodes of the order that it waits for (`mem_earlier_planWaves`).  An
order in which nobody waits for what comes behind it can always be cut (`exists_planWaves`), and the
valid orders are just those that can be cut (`validOrder_iff`).
-/

namespace LocalCloud

variable {mode : StartupMode} {dependencies : String → List String}
  {scheduled done left order : List String} {waves : List (List String)}

/-! ## The next wave -/

/-- A wave is cut off the front of what is left. -/
theorem nextWave_prefix (mode : StartupMode) (isFree : String → Bool) (left : List String) :
    nextWave mode isFree left <+: left := by
  cases mode with
  | waves => exact List.takeWhile_prefix isFree
  | sequential => exact (List.takeWhile_prefix isFree).trans (List.take_prefix 1 left)

/-- All of a wave is free. -/
theorem isFree_of_mem_nextWave {isFree : String → Bool} {id : String}
    (h : id ∈ nextWave mode isFree left) : isFree id = true := by
  cases mode <;> exact List.all_eq_true.1 List.all_takeWhile id h

/-- A free node waits for nothing of the order that is not done. -/
theorem mem_done_of_blockers_isEmpty {id d : String}
    (h : (blockers dependencies scheduled done id).isEmpty = true) (hd : d ∈ dependencies id)
    (hs : d ∈ scheduled) : d ∈ done := by
  rw [List.isEmpty_iff, blockers, List.filter_eq_nil_iff] at h
  by_cases hdone : d ∈ done
  · exact hdone
  · exact absurd (h d hd) (by simp [hs, hdone])

/-- What remains after a wave has been cut off. -/
theorem append_drop_of_nextWave {isFree : String → Bool} {head first : String}
    {rest more : List String} (h : nextWave mode isFree (head :: rest) = first :: more) :
    first :: more ++ rest.drop more.length = head :: rest := by
  obtain ⟨tail, htail⟩ := h ▸ nextWave_prefix mode isFree (head :: rest)
  rw [List.cons_append, List.cons.injEq] at htail
  obtain ⟨rfl, rfl⟩ := htail
  simp

/-! ## All waves -/

theorem flatten_cutWaves (h : cutWaves mode dependencies scheduled done left = .ok waves) :
    waves.flatten = left := by
  fun_induction cutWaves mode dependencies scheduled done left generalizing waves with
  | case1 =>
    obtain rfl := Except.ok.inj h
    rfl
  | case2 => simp at h
  | case3 done head rest first more hnext ih =>
    cases hcut : cutWaves mode dependencies scheduled (done ++ first :: more)
        (rest.drop more.length) with
    | error failure => simp [hcut, bind, Except.bind] at h
    | ok later =>
      simp only [hcut, bind, Except.bind, Except.ok.injEq] at h
      rw [← h, List.flatten_cons, ih hcut]
      exact append_drop_of_nextWave hnext

/-- What a node waits for was done before, or is in an earlier wave. -/
theorem mem_earlier_cutWaves (h : cutWaves mode dependencies scheduled done left = .ok waves)
    {earlier later : List (List String)} {wave : List String}
    (hsplit : waves = earlier ++ wave :: later) {id d : String} (hid : id ∈ wave)
    (hd : d ∈ dependencies id) (hs : d ∈ scheduled) : d ∈ done ∨ d ∈ earlier.flatten := by
  fun_induction cutWaves mode dependencies scheduled done left generalizing waves earlier with
  | case1 =>
    obtain rfl := Except.ok.inj h
    simp at hsplit
  | case2 => simp at h
  | case3 done head rest first more hnext ih =>
    cases hcut : cutWaves mode dependencies scheduled (done ++ first :: more)
        (rest.drop more.length) with
    | error failure => simp [hcut, bind, Except.bind] at h
    | ok waves' =>
      simp only [hcut, bind, Except.bind, Except.ok.injEq] at h
      subst h
      cases earlier with
      | nil =>
        -- the node is in the wave that has just been cut off
        obtain ⟨rfl, -⟩ := List.cons.inj hsplit
        rw [← hnext] at hid
        exact .inl (mem_done_of_blockers_isEmpty (isFree_of_mem_nextWave hid) hd hs)
      | cons before earlier =>
        obtain ⟨rfl, hrest⟩ := List.cons.inj hsplit
        rcases ih hcut hrest with hdone | hearlier
        · rcases List.mem_append.1 hdone with hdone | hwave
          · exact .inl hdone
          · exact .inr (List.mem_flatten.2 ⟨_, List.mem_cons_self, hwave⟩)
        · refine .inr ?_
          rw [List.flatten_cons]
          exact List.mem_append_right _ hearlier

/-- Nothing can be wrong but the order. -/
theorem invalidOrder_of_cutWaves {failure : StartFailure}
    (h : cutWaves mode dependencies scheduled done left = .error failure) :
    ∃ node waitingOn, failure = .invalidOrder node waitingOn := by
  fun_induction cutWaves mode dependencies scheduled done left with
  | case1 => simp at h
  | case2 done head rest =>
    obtain rfl := Except.error.inj h
    exact ⟨head, _, rfl⟩
  | case3 done head rest first more hnext ih =>
    cases hcut : cutWaves mode dependencies scheduled (done ++ first :: more)
        (rest.drop more.length) with
    | error failure' =>
      simp only [hcut, bind, Except.bind, Except.error.injEq] at h
      subst h
      exact ih hcut
    | ok later => simp [hcut, bind, Except.bind] at h

theorem invalidOrder_of_planWaves {failure : StartFailure}
    (h : planWaves order dependencies mode = .error failure) :
    ∃ node waitingOn, failure = .invalidOrder node waitingOn := invalidOrder_of_cutWaves h

/-- The waves are the order without its repetitions. -/
theorem flatten_planWaves (h : planWaves order dependencies mode = .ok waves) :
    waves.flatten = order.eraseDups := flatten_cutWaves h

/-- A node comes later than all nodes of the order that it waits for. -/
theorem mem_earlier_planWaves (h : planWaves order dependencies mode = .ok waves)
    {earlier later : List (List String)} {wave : List String}
    (hsplit : waves = earlier ++ wave :: later) {id d : String} (hid : id ∈ wave)
    (hd : d ∈ dependencies id) (ho : d ∈ order) : d ∈ earlier.flatten := by
  rcases mem_earlier_cutWaves h hsplit hid hd (List.mem_eraseDups.2 ho) with hdone | hearlier
  · simp at hdone
  · exact hearlier

theorem nodup_flatten_planWaves (h : planWaves order dependencies mode = .ok waves) :
    waves.flatten.Nodup := by
  rw [flatten_planWaves h]
  exact nodup_eraseDups order

/-- Some of the waves come first, with all that a node waits for, and the node comes in the
rest. -/
theorem exists_split_planWaves (h : planWaves order dependencies mode = .ok waves) {id : String}
    (hid : id ∈ waves.flatten) :
    ∃ earlier rest, waves.flatten = earlier ++ rest ∧ id ∈ rest ∧
      ∀ d ∈ dependencies id, d ∈ waves.flatten → d ∈ earlier := by
  obtain ⟨wave, hwave, hmem⟩ := List.mem_flatten.1 hid
  obtain ⟨earlier, later, rfl⟩ := List.append_of_mem hwave
  refine ⟨earlier.flatten, wave ++ later.flatten, by simp, List.mem_append_left _ hmem, ?_⟩
  intro d hd ho
  rw [flatten_planWaves h, List.mem_eraseDups] at ho
  exact mem_earlier_planWaves h rfl hmem hd ho

/-- No node waits for itself. -/
theorem not_mem_dependencies_planWaves (h : planWaves order dependencies mode = .ok waves)
    {id : String} (hid : id ∈ waves.flatten) : id ∉ dependencies id := by
  intro hself
  obtain ⟨earlier, rest, heq, hrest, hearlier⟩ := exists_split_planWaves h hid
  have hnodup := nodup_flatten_planWaves h
  rw [heq] at hnodup
  exact (List.nodup_append.1 hnodup).2.2 id (hearlier id hself hid) id hrest rfl

/-- What stands in the first part of a list without repetitions does not come behind what stands in
the rest. -/
theorem not_sublist_pair {first rest : List String} {a b : String} (hnodup : (first ++ rest).Nodup)
    (ha : a ∈ rest) (hb : b ∈ first) : ¬ [a, b].Sublist (first ++ rest) := by
  intro hab
  have hdisjoint := (List.nodup_append.1 hnodup).2.2
  obtain ⟨front, back, hpair, hfront, hback⟩ := List.sublist_append_iff.1 hab
  cases front with
  | nil =>
    obtain rfl : [a, b] = back := hpair
    exact hdisjoint b hb b (hback.subset (by simp)) rfl
  | cons x front =>
    obtain ⟨rfl, -⟩ := List.cons.inj hpair
    exact hdisjoint a (hfront.subset List.mem_cons_self) a ha rfl

/-- No node waits for one that comes behind it. -/
theorem pairwise_planWaves (h : planWaves order dependencies mode = .ok waves) :
    waves.flatten.Pairwise fun a b => b ∉ dependencies a := by
  refine List.pairwise_iff_forall_sublist.2 fun {a b} hab hdependency => ?_
  have ha : a ∈ waves.flatten := hab.subset (by simp)
  have hb : b ∈ waves.flatten := hab.subset (by simp)
  obtain ⟨earlier, rest, heq, harest, hearlier⟩ := exists_split_planWaves h ha
  have hnodup := nodup_flatten_planWaves h
  rw [heq] at hab hnodup
  exact not_sublist_pair hnodup harest (hearlier b hdependency hb) hab

/-! ## Orders that can be cut -/

theorem eraseDups_sublist (names : List String) : names.eraseDups.Sublist names := by
  cases names with
  | nil => exact List.Sublist.refl _
  | cons name rest =>
    rw [List.eraseDups_cons]
    exact ((eraseDups_sublist _).trans List.filter_sublist).cons_cons name
termination_by names.length
decreasing_by exact Nat.lt_succ_of_le (List.length_filter_le _ rest)

/-- A wave begins with the first node that is left if that one is free. -/
theorem nextWave_ne_nil {isFree : String → Bool} {head : String} (h : isFree head = true)
    (rest : List String) : nextWave mode isFree (head :: rest) ≠ [] := by
  cases mode <;> simp [nextWave, h]

/-- The first node that is left is always free when nothing waits for itself or for what comes
behind it, so that no wave is empty. -/
theorem exists_cutWaves (hcovered : ∀ d ∈ scheduled, d ∈ done ∨ d ∈ left)
    (hself : ∀ id ∈ left, id ∉ dependencies id)
    (hforward : left.Pairwise fun a b => b ∉ dependencies a) (mode : StartupMode) :
    ∃ waves, cutWaves mode dependencies scheduled done left = .ok waves := by
  fun_induction cutWaves mode dependencies scheduled done left with
  | case1 => exact ⟨[], rfl⟩
  | case2 done head rest hnext =>
    refine absurd hnext (nextWave_ne_nil ?_ rest)
    rw [List.isEmpty_iff, blockers, List.filter_eq_nil_iff]
    intro d hd hblocks
    simp only [Bool.and_eq_true, Bool.not_eq_true', List.contains_eq_mem,
      decide_eq_false_iff_not, decide_eq_true_eq] at hblocks
    rcases List.mem_cons.1 ((hcovered d hblocks.1).resolve_left hblocks.2) with rfl | hrest
    · exact hself d List.mem_cons_self hd
    · exact (List.pairwise_cons.1 hforward).1 d hrest hd
  | case3 done head rest first more hnext ih =>
    have hsplit := append_drop_of_nextWave hnext
    have hlater : (rest.drop more.length).Sublist (head :: rest) :=
      hsplit ▸ List.sublist_append_right _ _
    have hcovered' : ∀ d ∈ scheduled, d ∈ done ++ first :: more ∨ d ∈ rest.drop more.length := by
      intro d hd
      rcases hcovered d hd with hdone | hleft
      · exact .inl (List.mem_append_left _ hdone)
      · rw [← hsplit] at hleft
        exact (List.mem_append.1 hleft).imp_left (List.mem_append_right _)
    obtain ⟨waves, hwaves⟩ := ih hcovered' (fun id hid => hself id (hlater.subset hid))
      (hforward.sublist hlater)
    refine ⟨(first :: more) :: waves, ?_⟩
    rw [hwaves]
    rfl

/-- An order can be cut into waves, in either mode, when none of its nodes waits for itself or for
one that comes behind it. -/
theorem exists_planWaves (hself : ∀ id ∈ order, id ∉ dependencies id)
    (hforward : order.Pairwise fun a b => b ∉ dependencies a) (mode : StartupMode) :
    ∃ waves, planWaves order dependencies mode = .ok waves := by
  have hsublist := eraseDups_sublist order
  exact exists_cutWaves (fun _ hd => .inr hd) (fun id hid => hself id (hsublist.subset hid))
    (hforward.sublist hsublist) mode

/-! ## Valid orders -/

/-- Whether every node of an order comes behind all nodes of the order that it waits for: these
stand before the first place at which the node stands. -/
def ValidOrder (dependencies : String → List String) (order : List String) : Prop :=
  ∀ before id after, order = before ++ id :: after → id ∉ before →
    ∀ d ∈ dependencies id, d ∈ order → d ∈ before

/-- What stands before the first place of a node stands before it when repetitions are left out. -/
theorem eraseDups_append_cons {before : List String} {id : String} (h : id ∉ before)
    (after : List String) :
    ∃ rest, (before ++ id :: after).eraseDups = before.eraseDups ++ id :: rest := by
  have hkept : (id :: after).removeAll before = id :: after.removeAll before := by
    simp [List.removeAll, h]
  rw [List.eraseDups_append, hkept, List.eraseDups_cons]
  exact ⟨_, rfl⟩

/-- Valid orders are those that can be cut into waves, in either mode. -/
theorem validOrder_iff (mode : StartupMode) : ValidOrder dependencies order ↔
    ∃ waves, planWaves order dependencies mode = .ok waves := by
  constructor
  · intro h
    refine exists_cutWaves (fun _ hd => .inr hd) (fun id hid hself => ?_) ?_ mode
    · obtain ⟨before, after, hsplit, hfirst⟩ :=
        List.eq_append_cons_of_mem (List.mem_eraseDups.1 hid)
      exact hfirst (h before id after hsplit hfirst id hself (List.mem_eraseDups.1 hid))
    · refine List.pairwise_iff_forall_sublist.2 fun {a b} hab hdependency => ?_
      have ha : a ∈ order := List.mem_eraseDups.1 (hab.subset (by simp))
      have hb : b ∈ order := List.mem_eraseDups.1 (hab.subset (by simp))
      obtain ⟨before, after, rfl, hfirst⟩ := List.eq_append_cons_of_mem ha
      have hbefore := h before a after rfl hfirst b hdependency hb
      obtain ⟨rest, hrest⟩ := eraseDups_append_cons hfirst after
      have hnodup := nodup_eraseDups (before ++ a :: after)
      rw [hrest] at hab hnodup
      exact not_sublist_pair hnodup List.mem_cons_self (List.mem_eraseDups.2 hbefore) hab
  · rintro ⟨waves, hwaves⟩ before id after rfl hfirst d hd hd'
    obtain ⟨rest, hrest⟩ := eraseDups_append_cons hfirst after
    have hflatten := flatten_planWaves hwaves
    have hself : id ∈ waves.flatten → id ∉ dependencies id :=
      not_mem_dependencies_planWaves hwaves
    have hforward := pairwise_planWaves hwaves
    rw [hflatten, hrest] at hself hforward
    rw [← List.mem_eraseDups, hrest, List.mem_append, List.mem_cons] at hd'
    rcases hd' with hbefore | rfl | hbehind
    · exact List.mem_eraseDups.1 hbefore
    · exact absurd hd (hself (by simp))
    · exact absurd hd ((List.pairwise_cons.1 (List.pairwise_append.1 hforward).2.1).1 d hbehind)

end LocalCloud
