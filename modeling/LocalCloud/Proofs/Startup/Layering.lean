import LocalCloud.Proofs.Startup.Waves
import Mathlib.Data.List.Chain

/-!
# How an order is cut

Nodes are in turn when each of them stands behind all that it waits for among the nodes of an order
(`InTurn`).

* An order can be cut, in either mode, exactly when its nodes are in turn once repetitions are left
  out; otherwise the failure names the first node that is not, and all that this node waits for and
  that does not stand before it (`planWaves_exact`).
* The waves are layers of the order (`Layering`), and when they are not cut after every node, each
  of them follows on the one before it: its first node waits for a node of that wave (`Follows`).
* Layers that follow on each other in this way are never behind any other layers, so that there are
  no fewer of those (`planWaves_fewest`).
-/

namespace LocalCloud

variable {mode : StartupMode} {dependencies : String → List String}
  {scheduled done left order names : List String} {waves blocks : List (List String)}

/-! ## Nodes in turn -/

/-- Every one of some nodes stands behind all nodes of an order that it waits for. -/
def InTurn (dependencies : String → List String) (order names : List String) : Prop :=
  ∀ before id after, names = before ++ id :: after → ∀ d ∈ dependencies id, d ∈ order → d ∈ before

namespace InTurn

theorem nil (dependencies : String → List String) (order : List String) :
    InTurn dependencies order [] := by
  intro before id after h
  simp at h

/-- Nodes that wait for what is there already can come next, all at once. -/
theorem append (h : InTurn dependencies order names) {more : List String}
    (hmore : ∀ id ∈ more, ∀ d ∈ dependencies id, d ∈ order → d ∈ names) :
    InTurn dependencies order (names ++ more) := by
  intro before id after hsplit d hd ho
  rcases List.append_eq_append_iff.1 hsplit with ⟨mid, rfl, rfl⟩ | ⟨mid, rfl, hmid⟩
  · exact List.mem_append_left _ (hmore id (by simp) d hd ho)
  · cases mid with
    | nil =>
      obtain rfl : id :: after = more := hmid
      simpa using hmore id List.mem_cons_self d hd ho
    | cons x mid =>
      obtain ⟨rfl, -⟩ := List.cons.inj hmid
      exact h before id mid rfl d hd ho

end InTurn

theorem mem_blockers_iff {id d : String} : d ∈ blockers dependencies scheduled done id ↔
    d ∈ dependencies id ∧ d ∈ scheduled ∧ d ∉ done := by
  simp [blockers]

/-- A wave waits for nothing of the order but what is done. -/
theorem mem_done_of_mem_nextWave {id : String}
    (h : id ∈ nextWave mode (fun id => (blockers dependencies scheduled done id).isEmpty) left) :
    ∀ d ∈ dependencies id, d ∈ scheduled → d ∈ done :=
  fun _ => mem_done_of_blockers_isEmpty (isFree_of_mem_nextWave h)

/-! ## Layers -/

/-- Nodes in a row cut into blocks, so that a node waits for none of them but those of earlier
blocks. -/
structure Layering (dependencies : String → List String) (names : List String)
    (blocks : List (List String)) : Prop where
  ne_nil : ∀ block ∈ blocks, block ≠ []
  flatten : blocks.flatten = names
  earlier : ∀ {before block after}, blocks = before ++ block :: after →
    ∀ id ∈ block, ∀ d ∈ dependencies id, d ∈ names → d ∈ before.flatten

/-- The first node of a block waits for a node of the block before it. -/
def Follows (dependencies : String → List String) (before block : List String) : Prop :=
  ∃ first ∈ block.head?, ∃ d ∈ dependencies first, d ∈ before

/-! ## Cuts -/

/-- The waves into which the nodes that are left can be cut: each is the next wave of what is left
once the waves before it are done. -/
inductive Cuts (mode : StartupMode) (dependencies : String → List String)
    (scheduled : List String) : List String → List String → List (List String) → Prop where
  | nil {done : List String} : Cuts mode dependencies scheduled done [] []
  | cons {done left wave rest : List String} {later : List (List String)}
      (hwave : nextWave mode (fun id => (blockers dependencies scheduled done id).isEmpty) left =
        wave)
      (hne : wave ≠ []) (hleft : left = wave ++ rest)
      (hlater : Cuts mode dependencies scheduled (done ++ wave) rest later) :
      Cuts mode dependencies scheduled done left (wave :: later)

theorem cuts_of_cutWaves (h : cutWaves mode dependencies scheduled done left = .ok waves) :
    Cuts mode dependencies scheduled done left waves := by
  fun_induction cutWaves mode dependencies scheduled done left generalizing waves with
  | case1 =>
    obtain rfl := Except.ok.inj h
    exact .nil
  | case2 => simp at h
  | case3 done head rest first more hnext ih =>
    cases hcut : cutWaves mode dependencies scheduled (done ++ first :: more)
        (rest.drop more.length) with
    | error failure => simp [hcut, bind, Except.bind] at h
    | ok later =>
      simp only [hcut, bind, Except.bind, Except.ok.injEq] at h
      subst h
      exact .cons hnext (List.cons_ne_nil _ _) (append_drop_of_nextWave hnext).symm (ih hcut)

namespace Cuts

theorem inTurn (h : Cuts mode dependencies scheduled done left waves)
    (hdone : InTurn dependencies scheduled done) : InTurn dependencies scheduled (done ++ left) := by
  induction h with
  | nil => simpa using hdone
  | cons hwave _ hleft _ ih =>
    rw [hleft, ← List.append_assoc]
    exact ih (hdone.append fun id hid => mem_done_of_mem_nextWave (hwave ▸ hid))

theorem ne_nil (h : Cuts mode dependencies scheduled done left waves) :
    ∀ wave ∈ waves, wave ≠ [] := by
  induction h with
  | nil => simp
  | cons _ hne _ _ ih => exact List.forall_mem_cons.2 ⟨hne, ih⟩

/-- The sequential mode cuts after every node. -/
theorem length_eq_one (h : Cuts .sequential dependencies scheduled done left waves) :
    ∀ wave ∈ waves, wave.length = 1 := by
  induction h with
  | nil => simp
  | @cons done left wave _ _ hwave hne _ _ ih =>
    refine List.forall_mem_cons.2 ⟨Nat.le_antisymm ?_ (List.length_pos_iff.2 hne), ih⟩
    rw [← hwave]
    exact (List.takeWhile_prefix _).length_le.trans (List.length_take_le 1 left)

/-- A wave ends only where the next node is blocked.  As this node is free once the wave is done, it
waits for one of the wave. -/
theorem follows (h : Cuts .waves dependencies scheduled done left waves) :
    waves.IsChain (Follows dependencies) := by
  induction h with
  | nil => exact List.isChain_nil
  | @cons done left wave rest later hwave _ hleft hlater ih =>
    refine List.isChain_cons.2 ⟨fun next hnext => ?_, ih⟩
    cases hlater with
    | nil => contradiction
    | @cons _ _ next' rest' _ hnextWave hne hrest _ =>
      obtain rfl : next' = next := Option.some.inj hnext
      obtain ⟨first, tail, rfl⟩ := List.exists_cons_of_ne_nil hne
      have hblocked : blockers dependencies scheduled done first ≠ [] := by
        intro hfree
        -- the wave would have gone on with this node
        have hlonger : nextWave .waves
            (fun id => (blockers dependencies scheduled done id).isEmpty) left =
              wave ++ first :: (tail ++ rest').takeWhile
                fun id => (blockers dependencies scheduled done id).isEmpty := by
          have hall : ∀ id ∈ wave,
              (blockers dependencies scheduled done id).isEmpty = true := fun id hid =>
            isFree_of_mem_nextWave (hwave ▸ hid)
          rw [hleft, hrest, nextWave, List.takeWhile_append_of_pos hall, List.cons_append,
            List.takeWhile_cons_of_pos (by simpa using hfree)]
        rw [hwave] at hlonger
        simp at hlonger
      obtain ⟨d, hd⟩ := List.exists_mem_of_ne_nil _ hblocked
      obtain ⟨hdependency, hscheduled, hnot⟩ := mem_blockers_iff.1 hd
      have hdone : d ∈ done ++ wave :=
        mem_done_of_mem_nextWave (hnextWave ▸ List.mem_cons_self) d hdependency hscheduled
      exact ⟨first, rfl, d, hdependency, (List.mem_append.1 hdone).resolve_left hnot⟩

end Cuts

/-- Cutting fails at the first node that is not in turn. -/
theorem exists_blocked_of_cutWaves (hdone : InTurn dependencies scheduled done)
    {failure : StartFailure}
    (h : cutWaves mode dependencies scheduled done left = .error failure) :
    ∃ before node after, left = before ++ node :: after ∧
      InTurn dependencies scheduled (done ++ before) ∧
      blockers dependencies scheduled (done ++ before) node ≠ [] ∧
      failure = .invalidOrder node
        ((blockers dependencies scheduled (done ++ before) node).mergeSort
          fun a b => decide (a ≤ b)) := by
  fun_induction cutWaves mode dependencies scheduled done left with
  | case1 => simp at h
  | case2 done head rest hnext =>
    refine ⟨[], head, rest, rfl, by simpa using hdone, fun hnone => ?_, ?_⟩
    · exact nextWave_ne_nil (by simpa using hnone) rest hnext
    · simpa using h.symm
  | case3 done head rest first more hnext ih =>
    cases hcut : cutWaves mode dependencies scheduled (done ++ first :: more)
        (rest.drop more.length) with
    | ok later => simp [hcut, bind, Except.bind] at h
    | error failure' =>
      simp only [hcut, bind, Except.bind, Except.error.injEq] at h
      subst h
      obtain ⟨before, node, after, hleft, hturn, hblocked, hfailure⟩ :=
        ih (hdone.append fun id hid => mem_done_of_mem_nextWave (hnext ▸ hid)) hcut
      rw [List.append_assoc] at hturn hblocked hfailure
      refine ⟨first :: more ++ before, node, after, ?_, hturn, hblocked, hfailure⟩
      rw [← append_drop_of_nextWave hnext, hleft, List.append_assoc]

/-! ## Waves -/

theorem layering_planWaves (h : planWaves order dependencies mode = .ok waves) :
    Layering dependencies order.eraseDups waves where
  ne_nil := (cuts_of_cutWaves h).ne_nil
  flatten := flatten_planWaves h
  earlier := fun hsplit _ hid _ hd ho =>
    mem_earlier_planWaves h hsplit hid hd (List.mem_eraseDups.1 ho)

theorem exists_planWaves_iff :
    (∃ waves, planWaves order dependencies mode = .ok waves) ↔
      InTurn dependencies order.eraseDups order.eraseDups := by
  constructor
  · rintro ⟨waves, h⟩
    simpa using (cuts_of_cutWaves h).inTurn (.nil _ _)
  · intro hturn
    cases h : planWaves order dependencies mode with
    | ok waves => exact ⟨waves, rfl⟩
    | error failure =>
      obtain ⟨before, node, after, hsplit, -, hblocked, -⟩ :=
        exists_blocked_of_cutWaves (.nil _ _) h
      obtain ⟨d, hd⟩ := List.exists_mem_of_ne_nil _ hblocked
      obtain ⟨hdependency, hscheduled, hnot⟩ := mem_blockers_iff.1 hd
      exact absurd (hturn before node after hsplit d hdependency hscheduled) hnot

/-- An order can be cut, in either mode, exactly when every node of it stands behind all nodes of it
that it waits for, a repeated id counting where it stands first.  The waves are then layers of the
order: one node each in the sequential mode, and otherwise each follows on the one before it.  When
an order cannot be cut, the failure names the first node that does not stand behind all that it
waits for, and lists in ascending order all that does not stand before it. -/
theorem planWaves_exact (order : List String) (dependencies : String → List String)
    (mode : StartupMode) :
    ((∃ waves, planWaves order dependencies mode = .ok waves) ↔
      InTurn dependencies order.eraseDups order.eraseDups) ∧
    (∀ waves, planWaves order dependencies mode = .ok waves →
      Layering dependencies order.eraseDups waves ∧
      (mode = .sequential → ∀ wave ∈ waves, wave.length = 1) ∧
      (mode = .waves → waves.IsChain (Follows dependencies))) ∧
    ∀ failure, planWaves order dependencies mode = .error failure →
      ∃ before node after waitingOn, failure = .invalidOrder node waitingOn ∧
        order.eraseDups = before ++ node :: after ∧
        InTurn dependencies order.eraseDups before ∧
        waitingOn ≠ [] ∧ waitingOn.Pairwise (· ≤ ·) ∧
        waitingOn.Perm
          ((dependencies node).filter fun d => d ∈ order.eraseDups ∧ d ∉ before) := by
  refine ⟨exists_planWaves_iff, fun waves h => ⟨layering_planWaves h, ?_, ?_⟩, fun failure h => ?_⟩
  · rintro rfl
    exact (cuts_of_cutWaves h).length_eq_one
  · rintro rfl
    exact (cuts_of_cutWaves h).follows
  · obtain ⟨before, node, after, hsplit, hturn, hblocked, rfl⟩ :=
      exists_blocked_of_cutWaves (.nil _ _) h
    have hperm := List.mergeSort_perm (blockers dependencies order.eraseDups before node)
      fun a b => decide (a ≤ b)
    refine ⟨before, node, after, _, rfl, hsplit, hturn, fun hnil => ?_, ?_, ?_⟩
    · rw [List.nil_append] at hnil hblocked
      exact hblocked (hperm.symm.trans (hnil ▸ List.Perm.refl _)).eq_nil
    · have hsorted : ((blockers dependencies order.eraseDups before node).mergeSort
          fun a b => decide (a ≤ b)).Pairwise fun a b => decide (a ≤ b) := by
        refine List.pairwise_mergeSort (fun a b c hab hbc => ?_) (fun a b => ?_) _
        · simpa using String.le_trans (by simpa using hab) (by simpa using hbc)
        · simpa using String.le_total a b
      simpa using hsorted
    · refine hperm.trans (List.Perm.of_eq (List.filter_congr fun d _ => ?_))
      simp

/-- What a small shop waits for: the worker and the site for the table, and the audit log for a
queue that nobody starts. -/
def shopNeeds : String → List String
  | "Worker" => ["Table"]
  | "Site" => ["Table", "Worker"]
  | "Audit" => ["Archive"]
  | _ => []

/-- An order in which a repeated id and a node outside the order make no difference, and one in
which the site comes before the worker. -/
theorem shopNeeds_planned :
    planWaves ["Table", "Worker", "Table", "Audit", "Site"] shopNeeds .waves =
      .ok [["Table"], ["Worker", "Audit"], ["Site"]] ∧
    Layering shopNeeds ["Table", "Worker", "Audit", "Site"]
      [["Table"], ["Worker", "Audit"], ["Site"]] ∧
    [["Table"], ["Worker", "Audit"], ["Site"]].IsChain (Follows shopNeeds) ∧
    planWaves ["Table", "Site", "Audit", "Worker"] shopNeeds .sequential =
      .error (.invalidOrder "Site" ["Worker"]) ∧
    ∃ before after, ["Table", "Site", "Audit", "Worker"] = before ++ "Site" :: after ∧
      InTurn shopNeeds ["Table", "Site", "Audit", "Worker"] before ∧
      ["Worker"].Perm ((shopNeeds "Site").filter
        fun d => d ∈ ["Table", "Site", "Audit", "Worker"] ∧ d ∉ before) := by
  have hwaves : planWaves ["Table", "Worker", "Table", "Audit", "Site"] shopNeeds .waves =
      .ok [["Table"], ["Worker", "Audit"], ["Site"]] := by decide +kernel
  have herror : planWaves ["Table", "Site", "Audit", "Worker"] shopNeeds .sequential =
      .error (.invalidOrder "Site" ["Worker"]) := by decide +kernel
  obtain ⟨-, hcut, -⟩ := planWaves_exact ["Table", "Worker", "Table", "Audit", "Site"] shopNeeds
    .waves
  obtain ⟨hlayers, -, hfollows⟩ := hcut _ hwaves
  obtain ⟨-, -, hfails⟩ := planWaves_exact ["Table", "Site", "Audit", "Worker"] shopNeeds
    .sequential
  obtain ⟨before, node, after, waitingOn, hfailure, hsplit, hturn, -, -, hperm⟩ :=
    hfails _ herror
  obtain ⟨rfl, rfl⟩ := StartFailure.invalidOrder.inj hfailure
  exact ⟨hwaves, hlayers, hfollows rfl, herror, before, after, hsplit, hturn, hperm⟩

/-! ## Fewest waves -/

namespace Layering

variable {k : Nat}

/-- What the nodes of some blocks from the start wait for is in one block less. -/
theorem mem_take (h : Layering dependencies names blocks) {id d : String}
    (hid : id ∈ (blocks.take (k + 1)).flatten) (hd : d ∈ dependencies id) (hn : d ∈ names) :
    d ∈ (blocks.take k).flatten := by
  obtain ⟨block, hblock, hmem⟩ := List.mem_flatten.1 hid
  obtain ⟨before, after, hsplit⟩ := List.append_of_mem hblock
  have hblocks : blocks = before ++ block :: (after ++ blocks.drop (k + 1)) := by
    rw [← List.cons_append, ← List.append_assoc, ← hsplit, List.take_append_drop]
  have hlength : before.length ≤ k := by
    have htake := List.length_take_le (k + 1) blocks
    rw [hsplit, List.length_append, List.length_cons] at htake
    omega
  have hbefore : before <+: blocks.take k :=
    List.prefix_take_iff.2 ⟨⟨_, hblocks.symm⟩, hlength⟩
  obtain ⟨block', hblock', hd'⟩ := List.mem_flatten.1 (h.earlier hblocks id hmem d hd hn)
  exact List.mem_flatten.2 ⟨block', hbefore.subset hblock', hd'⟩

theorem take_prefix (h : Layering dependencies names blocks) (k : Nat) :
    (blocks.take k).flatten <+: names := by
  refine ⟨(blocks.drop k).flatten, ?_⟩
  rw [← List.flatten_append, List.take_append_drop, h.flatten]

/-- Blocks that follow on each other are never behind any others.  Otherwise the first node behind
them would be among the others already, and what it waits for in the block before it would be there
one block earlier; but up to that block they were not behind. -/
theorem take_prefix_take (h : Layering dependencies names blocks) (hnodup : names.Nodup)
    (hwaves : Layering dependencies names waves) (hfollows : waves.IsChain (Follows dependencies))
    (k : Nat) : (blocks.take k).flatten <+: (waves.take k).flatten := by
  induction k with
  | zero => simp
  | succ k ih =>
    cases hdrop : waves.drop (k + 1) with
    | nil =>
      have hall : (waves.take (k + 1)).flatten = names := by
        have hwhole := List.take_append_drop (k + 1) waves
        rw [hdrop, List.append_nil] at hwhole
        rw [hwhole, hwaves.flatten]
      rw [hall]
      exact h.take_prefix (k + 1)
    | cons wave later =>
      have hk : k < waves.length := by
        have hlength := congrArg List.length hdrop
        rw [List.length_drop, List.length_cons] at hlength
        omega
      have hsplit : waves = waves.take k ++ waves[k] :: wave :: later := by
        rw [← hdrop, ← List.drop_eq_getElem_cons hk, List.take_append_drop]
      obtain ⟨first, hfirst, d, hd, hbefore⟩ : Follows dependencies waves[k] wave := by
        rw [hsplit] at hfollows
        exact (List.isChain_append_cons_cons.1 hfollows).2.1
      obtain ⟨tail, rfl⟩ := List.head?_eq_some_iff.1 hfirst
      have hnames : (waves.take k).flatten ++ (waves[k] ++ first :: (tail ++ later.flatten)) =
          names := by
        rw [← hwaves.flatten]
        conv_rhs => rw [hsplit]
        simp
      have hcovered : (waves.take (k + 1)).flatten = (waves.take k).flatten ++ waves[k] := by
        rw [List.take_succ_eq_append_getElem hk, List.flatten_append]
        simp
      have hnot : first ∉ (blocks.take (k + 1)).flatten := by
        intro hmem
        have hdn : d ∈ names := hnames ▸ by simp [hbefore]
        have hdk : d ∈ (waves.take k).flatten := ih.subset (h.mem_take hmem hd hdn)
        rw [← hnames] at hnodup
        exact (List.nodup_append.1 hnodup).2.2 d hdk d (List.mem_append_left _ hbefore) rfl
      have hother := h.take_prefix (k + 1)
      rw [← hnames, ← List.append_assoc, ← hcovered] at hother
      rcases List.prefix_or_prefix_of_prefix hother (List.prefix_append _ _) with
        hbehind | ⟨more, hmore⟩
      · exact hbehind
      -- the others would go on with the node that is not among them
      rw [← hmore, List.prefix_append_right_inj] at hother
      cases more with
      | nil => exact ⟨[], by rw [← hmore]; simp⟩
      | cons x more =>
        obtain ⟨rfl, -⟩ := List.cons_prefix_cons.1 hother
        exact absurd (hmore ▸ by simp) hnot

/-- So there are no fewer of the others. -/
theorem length_le (h : Layering dependencies names blocks) (hnodup : names.Nodup)
    (hwaves : Layering dependencies names waves)
    (hfollows : waves.IsChain (Follows dependencies)) : waves.length ≤ blocks.length := by
  have hcovered := h.take_prefix_take hnodup hwaves hfollows blocks.length
  rw [List.take_length, h.flatten] at hcovered
  have hlength := hcovered.length_le
  have hnames := congrArg List.length hwaves.flatten
  rw [← List.take_append_drop blocks.length waves, List.flatten_append, List.length_append] at hnames
  have hrest : (waves.drop blocks.length).flatten = [] := List.length_eq_zero_iff.1 (by omega)
  refine List.drop_eq_nil_iff.1 (List.eq_nil_iff_forall_not_mem.2 fun wave hwave => ?_)
  exact hwaves.ne_nil wave (List.mem_of_mem_drop hwave) (List.flatten_eq_nil_iff.1 hrest wave hwave)

end Layering

/-- Unless they are cut after every node, the waves of an order are never behind any other layers of
it: however many of them are taken from the start, they hold all nodes that as many other layers
hold.  So no layers of the order are fewer than its waves. -/
theorem planWaves_fewest (h : planWaves order dependencies .waves = .ok waves) :
    Layering dependencies order.eraseDups waves ∧
    ∀ blocks, Layering dependencies order.eraseDups blocks →
      waves.length ≤ blocks.length ∧
      ∀ k, (blocks.take k).flatten <+: (waves.take k).flatten := by
  have hlayers := layering_planWaves h
  have hnodup := nodup_eraseDups order
  have hfollows := (cuts_of_cutWaves h).follows
  refine ⟨hlayers, fun blocks hblocks => ⟨?_, ?_⟩⟩
  · exact hblocks.length_le hnodup hlayers hfollows
  · exact hblocks.take_prefix_take hnodup hlayers hfollows

/-- The audit log could start with the site as well, but not in fewer steps. -/
theorem shopNeeds_fewest :
    planWaves ["Table", "Worker", "Audit", "Site"] shopNeeds .waves =
      .ok [["Table"], ["Worker", "Audit"], ["Site"]] ∧
    Layering shopNeeds ["Table", "Worker", "Audit", "Site"]
      [["Table"], ["Worker"], ["Audit", "Site"]] ∧
    ∀ k, ([["Table"], ["Worker"], ["Audit", "Site"]].take k).flatten <+:
      ([["Table"], ["Worker", "Audit"], ["Site"]].take k).flatten := by
  have hwaves : planWaves ["Table", "Worker", "Audit", "Site"] shopNeeds .waves =
      .ok [["Table"], ["Worker", "Audit"], ["Site"]] := by decide +kernel
  have hblocks : Layering shopNeeds ["Table", "Worker", "Audit", "Site"]
      [["Table"], ["Worker"], ["Audit", "Site"]] := by
    refine ⟨by decide, rfl, fun {before block after} hsplit => ?_⟩
    rcases before with _ | ⟨_, _ | ⟨_, _ | ⟨_, before⟩⟩⟩ <;>
      simp only [List.nil_append, List.cons_append, List.cons.injEq, List.nil_eq,
        List.append_eq_nil_iff, reduceCtorEq, and_false] at hsplit
    · obtain ⟨rfl, -⟩ := hsplit
      decide
    · obtain ⟨rfl, rfl, -⟩ := hsplit
      decide
    · obtain ⟨rfl, rfl, rfl, -⟩ := hsplit
      decide
  obtain ⟨-, hfewest⟩ := planWaves_fewest hwaves
  exact ⟨hwaves, hblocks, (hfewest _ hblocks).2⟩

end LocalCloud
