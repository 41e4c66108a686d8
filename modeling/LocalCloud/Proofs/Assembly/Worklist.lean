import LocalCloud.Proofs.Assembly.Nesting
import Mathlib.Logic.Hydra

/-!
# Collecting an assembly from a worklist

Assemblies that are nested in each other need not be followed recursively: they can wait on a list,
the next one in front, each with the number of links that led to it.  Taking one off the list puts
those nested in it in its place, so that the list grows, and a directory that is nested in itself
comes back under ever new spellings.  Still the list runs empty (`exists_rounds_done`): what is put
on it is one link further away than what was taken off, and no link beyond the limit is followed.

What is left to do from a list on is not changed by working on it (`rounds_left`), so that the list
collects what the recursion does; and all that has been collected on the way keeps the limit and
comes once (`Sound`).
-/

namespace LocalCloud

open Collected (addAssembly addManifest fetchNested)

/-- The collection of nested assemblies under way. -/
structure Agenda where
  /-- The assemblies that wait, the next one first, each with the number of links that led to it. -/
  pending : List (Manifest × Nat)
  collected : Collected := {}
  /-- The assemblies that have been collected, in this order. -/
  assembled : List (Manifest × Nat) := []

namespace Agenda

variable (disk : Disk)

/-- What waits once an assembly at a depth has been taken: the assembly in a directory that is nested
in it, unless it is too far away. -/
def further (depth : Nat) (sub : Path) : Attempt AssemblyFailure (Option (Manifest × Nat)) := do
  if assemblyNestingLimit < depth + 1 then
    Attempt.warn (.nestedTooFar sub)
    pure none
  else
    let m? ← fetchNested disk sub
    pure (m?.map fun m => (m, depth + 1))

/-- The agenda after one more assembly has been taken off its list.  It is collected unless its
directory has been; then the last one of those nested in it is next. -/
def advance (a : Agenda) : Attempt AssemblyFailure Agenda :=
  match a.pending with
  | [] => pure a
  | (m, depth) :: rest =>
    let c := a.collected
    if c.visited.any (·.same m.dir) then pure { a with pending := rest }
    else do
      let nested ← m.nested.filterMapM (further disk depth)
      let c ← addManifest disk { c with visited := m.dir :: c.visited } m
      pure
        { pending := nested.reverse ++ rest
          collected := c
          assembled := a.assembled ++ [(m, depth)] }

/-- The agenda after a number of assemblies have been taken off its list. -/
def rounds : Nat → Agenda → Attempt AssemblyFailure Agenda
  | 0, a => pure a
  | pops + 1, a => advance disk a >>= rounds pops

/-- What comes of an agenda when the assemblies on its list are followed recursively. -/
def left (a : Agenda) : Attempt AssemblyFailure Collected :=
  a.pending.foldlM (fun c w => addAssembly disk (assemblyNestingLimit - w.2) c w.1) a.collected

variable {disk} {a a' : Agenda} {m : Manifest} {depth : Nat} {sub : Path} {rest : List (Manifest × Nat)}

/-! ## Nothing gets lost -/

theorem filterMapM_further_of_limit (hdepth : assemblyNestingLimit ≤ depth) (subs : List Path) :
    subs.filterMapM (further disk depth) =
      (subs.forM fun sub => Attempt.warn (.nestedTooFar sub)) >>= fun _ => pure [] := by
  induction subs with
  | nil => rfl
  | cons sub subs ih =>
    have hsub : further disk depth sub =
        (Attempt.warn (.nestedTooFar sub) >>= fun _ => pure none) := by
      rw [further, if_pos (Nat.lt_succ_of_le hdepth)]
    have hcons : ((sub :: subs).forM fun sub => (Attempt.warn (.nestedTooFar sub) :
        Attempt AssemblyFailure Unit)) = Attempt.warn (.nestedTooFar sub) >>= fun _ =>
          subs.forM fun sub => Attempt.warn (.nestedTooFar sub) := rfl
    rw [List.filterMapM_cons, hsub, hcons]
    simp only [bind_assoc, pure_bind, ih]

theorem filterMapM_further (hdepth : depth < assemblyNestingLimit) (subs : List Path) :
    subs.filterMapM (further disk depth) =
      (·.map fun m => (m, depth + 1)) <$> subs.filterMapM (fetchNested disk) := by
  induction subs with
  | nil => rfl
  | cons sub subs ih =>
    have hsub : further disk depth sub =
        (fetchNested disk sub >>= fun m? => pure (m?.map fun m => (m, depth + 1))) := by
      rw [further, if_neg (by omega)]
    rw [List.filterMapM_cons, List.filterMapM_cons, hsub, bind_assoc, map_bind]
    refine bind_congr fun m? => ?_
    cases m? <;> simp [ih]

/-- Taking an assembly off the list changes nothing about what comes of it all. -/
theorem advance_left (a : Agenda) : advance disk a >>= left disk = left disk a := by
  obtain ⟨pending, c, assembled⟩ := a
  cases pending with
  | nil => rfl
  | cons w rest =>
    obtain ⟨m, depth⟩ := w
    by_cases hvisited : c.visited.any (·.same m.dir) = true
    · have hskip : addAssembly disk (assemblyNestingLimit - depth) c m = pure c := by
        generalize assemblyNestingLimit - depth = links
        cases links <;> rw [addAssembly, if_pos hvisited]
      simp only [advance, hvisited, if_true, pure_bind, left, List.foldlM_cons, hskip]
    · simp only [advance, if_neg hvisited, left, List.foldlM_cons]
      by_cases hdepth : depth < assemblyNestingLimit
      · obtain ⟨links, hlinks⟩ := Nat.exists_eq_add_of_lt hdepth
        have hfirst : assemblyNestingLimit - depth = links + 1 := by omega
        have hnext : assemblyNestingLimit - (depth + 1) = links := by omega
        rw [hfirst, addAssembly, if_neg hvisited, filterMapM_further hdepth]
        simp only [bind_assoc, pure_bind, map_eq_pure_bind, left, ← List.map_reverse,
          List.foldlM_append, List.foldlM_map, hnext]
      · have hfirst : assemblyNestingLimit - depth = 0 := by omega
        rw [hfirst, addAssembly, if_neg hvisited,
          filterMapM_further_of_limit (Nat.not_lt.1 hdepth)]
        simp only [bind_assoc, pure_bind, left, List.reverse_nil, List.nil_append]

theorem rounds_left (pops : Nat) (a : Agenda) : rounds disk pops a >>= left disk = left disk a := by
  induction pops generalizing a with
  | zero => rfl
  | succ pops ih =>
    rw [rounds, bind_assoc, ← advance_left a]
    exact bind_congr ih

/-! ## The list runs empty -/

/-- How many links may still be followed from each of the assemblies that wait. -/
def links (a : Agenda) : Multiset Nat := a.pending.map fun w => assemblyNestingLimit - w.2

theorem mem_further {w : Manifest × Nat}
    (h : (further disk depth sub).run.value = .ok (some w)) :
    (disk.fetchManifest sub).run.value = .ok (some w.1) ∧ w.2 = depth + 1 ∧
      depth < assemblyNestingLimit := by
  rw [further] at h
  split at h
  · obtain ⟨_, -, h⟩ := Attempt.bind_eq_ok.1 h
    exact absurd (Except.ok.inj h) (by simp)
  · next hdepth =>
    obtain ⟨m?, hm, h⟩ := Attempt.bind_eq_ok.1 h
    obtain ⟨m, rfl, rfl⟩ := Option.map_eq_some_iff.1 (Except.ok.inj h)
    exact ⟨Disk.fetchNested_eq_some_iff.1 hm, rfl, by omega⟩

/-- What an agenda becomes by one assembly. -/
theorem advance_cases (h : (advance disk a).run.value = .ok a') :
    a.pending = [] ∧ a' = a ∨
    ∃ m depth rest, a.pending = (m, depth) :: rest ∧
      (a.collected.visited.any (·.same m.dir) = true ∧ a' = { a with pending := rest } ∨
      a.collected.visited.any (·.same m.dir) = false ∧ ∃ nested c,
        (∀ w ∈ nested, disk.Nests m w.1 ∧ w.2 = depth + 1 ∧ depth < assemblyNestingLimit) ∧
        (addManifest disk
          { a.collected with visited := m.dir :: a.collected.visited } m).run.value = .ok c ∧
        a' = ⟨nested ++ rest, c, a.assembled ++ [(m, depth)]⟩) := by
  obtain ⟨pending, c, assembled⟩ := a
  cases pending with
  | nil => exact .inl ⟨rfl, (Except.ok.inj h).symm⟩
  | cons w rest =>
    obtain ⟨m, depth⟩ := w
    refine .inr ⟨m, depth, rest, rfl, ?_⟩
    cases hvisited : c.visited.any (·.same m.dir) with
    | true =>
      simp only [advance, hvisited, if_true] at h
      exact .inl ⟨rfl, (Except.ok.inj h).symm⟩
    | false =>
      simp only [advance, hvisited, Bool.false_eq_true, if_false] at h
      obtain ⟨nested, hnested, h⟩ := Attempt.bind_eq_ok.1 h
      obtain ⟨own, hown, h⟩ := Attempt.bind_eq_ok.1 h
      refine .inr ⟨rfl, nested.reverse, own, fun w hw => ?_, hown, (Except.ok.inj h).symm⟩
      obtain ⟨sub, hsub, hw⟩ := (Attempt.mem_of_filterMapM hnested).1 (List.mem_reverse.1 hw)
      obtain ⟨hfetch, hdepth⟩ := mem_further hw
      exact ⟨⟨sub, hsub, hfetch⟩, hdepth⟩

/-- An assembly is taken off the list for ones from which fewer links may be followed. -/
theorem links_advance (h : (advance disk a).run.value = .ok a') (hpending : a.pending ≠ []) :
    Relation.CutExpand (· < ·) a'.links a.links := by
  obtain ⟨hnil, -⟩ | ⟨m, depth, rest, hcons, ⟨-, rfl⟩ | ⟨-, nested, c, hnested, -, rfl⟩⟩ :=
    advance_cases h
  · exact absurd hnil hpending
  · refine ⟨0, assemblyNestingLimit - depth, by simp, ?_⟩
    rw [links, links, hcons, List.map_cons, ← Multiset.cons_coe, add_zero, add_comm,
      Multiset.singleton_add]
  · refine ⟨nested.map fun w => assemblyNestingLimit - w.2, assemblyNestingLimit - depth,
      fun left hleft => ?_, ?_⟩
    · obtain ⟨w, hw, rfl⟩ := List.mem_map.1 (Multiset.mem_coe.1 hleft)
      obtain ⟨-, hdepth, hlimit⟩ := hnested w hw
      omega
    · rw [links, links, hcons, List.map_cons, List.map_append, ← Multiset.cons_coe,
        ← Multiset.coe_add, ← Multiset.singleton_add]
      ac_rfl

/-- After some number of assemblies none waits any more, unless one has failed. -/
theorem exists_rounds_done (disk : Disk) (a : Agenda) :
    ∃ pops, ∀ a', (rounds disk pops a).run.value = .ok a' → a'.pending = [] := by
  have hwf : WellFounded fun a' a : Agenda => Relation.CutExpand (· < ·) a'.links a.links :=
    InvImage.wf links (WellFounded.cutExpand wellFounded_lt)
  induction a using hwf.induction with
  | _ a ih =>
    by_cases hpending : a.pending = []
    · refine ⟨0, fun a' h => ?_⟩
      obtain rfl := Except.ok.inj h
      exact hpending
    · cases hadvance : (advance disk a).run.value with
      | error failure =>
        refine ⟨1, fun a' h => ?_⟩
        obtain ⟨next, hnext, -⟩ := Attempt.bind_eq_ok.1 h
        rw [hadvance] at hnext
        contradiction
      | ok next =>
        obtain ⟨pops, hpops⟩ := ih next (links_advance hadvance hpending)
        refine ⟨pops + 1, fun a' h => ?_⟩
        obtain ⟨next', hnext, h⟩ := Attempt.bind_eq_ok.1 h
        obtain rfl : next = next' := Except.ok.inj (hadvance.symm.trans hnext)
        exact hpops a' h

/-! ## What has been collected on the way -/

/-- All that waits or has been collected is as many links away as it says, which are no more than
are followed, and no directory has been collected twice. -/
structure Sound (disk : Disk) (dir : Path) (a : Agenda) : Prop where
  gathered : disk.Gathered a.collected (a.assembled.map (·.1))
  simple : Simple (a.assembled.map (·.1))
  reached : ∀ w ∈ a.pending ++ a.assembled,
    ∃ above, disk.Chain dir (w.1 :: above) ∧ above.length = w.2 ∧ w.2 ≤ assemblyNestingLimit

theorem sound_start {dir : Path} {root : Manifest}
    (hroot : (disk.fetchManifest dir).run.value = .ok (some root)) :
    Sound disk dir { pending := [(root, 0)] } where
  gathered := disk.gathered_nil
  simple := List.Pairwise.nil
  reached := by
    intro w hw
    obtain rfl : w = (root, 0) := by simpa using hw
    exact ⟨[], .root hroot, rfl, Nat.zero_le _⟩

namespace Sound

variable {dir : Path}

theorem advance (ha : Sound disk dir a) (h : (a.advance disk).run.value = .ok a') :
    Sound disk dir a' := by
  obtain ⟨-, rfl⟩ | ⟨m, depth, rest, hcons, ⟨-, rfl⟩ | ⟨hnew, nested, c, hnested, hown, rfl⟩⟩ :=
    advance_cases h
  · exact ha
  · refine ⟨ha.gathered, ha.simple, fun w hw => ha.reached w ?_⟩
    rw [hcons]
    exact List.mem_cons_of_mem _ hw
  · obtain ⟨above, hchain, hlength, hlimit⟩ := ha.reached (m, depth) (by simp [hcons])
    refine ⟨?_, ?_, fun w hw => ?_⟩
    · rw [List.map_append]
      exact ha.gathered.snoc hown
    · rw [List.map_append]
      exact Disk.simple_snoc ha.simple (ha.gathered.not_samePlace hnew)
    · simp only [List.mem_append, List.mem_singleton] at hw
      rcases hw with (hw | hw) | hw | rfl
      · obtain ⟨hnests, hdepth, hfollowed⟩ := hnested w hw
        exact ⟨m :: above, hchain.link hnests, by simp [hlength, hdepth], by omega⟩
      · exact ha.reached w (by simp [hcons, hw])
      · exact ha.reached w (by simp [hw])
      · exact ⟨above, hchain, hlength, hlimit⟩

theorem rounds (ha : Sound disk dir a) {pops : Nat}
    (h : (a.rounds disk pops).run.value = .ok a') : Sound disk dir a' := by
  induction pops generalizing a with
  | zero =>
    obtain rfl := Except.ok.inj h
    exact ha
  | succ pops ih =>
    obtain ⟨next, hnext, h⟩ := Attempt.bind_eq_ok.1 h
    exact ih (ha.advance hnext) h

end Sound

end Agenda

/-! ## Whole assemblies -/

namespace Disk

variable (disk : Disk)

/-- The agenda of the assembly in a directory, if it has a manifest, after a number of assemblies
have been taken off its list. -/
def agenda (dir : Path) (pops : Nat) : Attempt AssemblyFailure (Option Agenda) := do
  match ← disk.fetchManifest dir with
  | none =>
    Attempt.warn (.noManifest dir)
    pure none
  | some root => some <$> Agenda.rounds disk pops { pending := [(root, 0)] }

/-- The model of all that has been collected. -/
def conclude : Option Agenda → Attempt AssemblyFailure Model
  | none => pure {}
  | some a => do
    let model ← ExceptT.lift (a.collected.model.attachRules a.collected.detached)
    pure model.linkAssets

variable {disk} {dir : Path} {pops : Nat} {a : Agenda}

theorem exists_root_of_agenda (h : (disk.agenda dir pops).run.value = .ok (some a)) :
    ∃ root, (disk.fetchManifest dir).run.value = .ok (some root) ∧
      (Agenda.rounds disk pops { pending := [(root, 0)] }).run.value = .ok a := by
  obtain ⟨root?, hroot, h⟩ := Attempt.bind_eq_ok.1 h
  cases root? with
  | none =>
    obtain ⟨_, -, h⟩ := Attempt.bind_eq_ok.1 h
    exact absurd (Except.ok.inj h) (by simp)
  | some root =>
    refine ⟨root, hroot, ?_⟩
    dsimp only at h
    rw [Attempt.value_map] at h
    cases hrounds : (Agenda.rounds disk pops { pending := [(root, 0)] }).run.value with
    | error failure => simp [hrounds, Except.map] at h
    | ok a => simpa [hrounds, Except.map] using h

/-- Collecting a root recursively is working on its list until that is empty. -/
theorem addAssembly_eq_rounds {root : Manifest}
    (hdone : ∀ a, (Agenda.rounds disk pops { pending := [(root, 0)] }).run.value = .ok a →
      a.pending = []) :
    addAssembly disk assemblyNestingLimit {} root =
      Agenda.collected <$> Agenda.rounds disk pops { pending := [(root, 0)] } := by
  have hstart : Agenda.left disk { pending := [(root, 0)] } =
      addAssembly disk assemblyNestingLimit {} root := by
    simp [Agenda.left]
  rw [← hstart, ← Agenda.rounds_left pops, map_eq_pure_bind]
  refine Attempt.bind_congr_of_value fun a ha => ?_
  rw [Agenda.left, hdone a ha, List.foldlM_nil]

/-- Working on the list of an assembly ends on every disk, after a number of assemblies that have been
taken off it, and what it ends with is the model of the assembly or the failure to make it.  At no
time has an assembly been collected that is more links away than are followed, nor one directory
twice. -/
theorem assemble_worklist (disk : Disk) (dir : Path) :
    (∃ pops, disk.assemble dir = disk.agenda dir pops >>= conclude ∧
      ∀ a, (disk.agenda dir pops).run.value = .ok (some a) → a.pending = []) ∧
    ∀ pops a, (disk.agenda dir pops).run.value = .ok (some a) → a.Sound disk dir := by
  constructor
  · -- how long it takes hangs on what the directory holds
    obtain ⟨pops, hdone⟩ : ∃ pops, ∀ root,
        (disk.fetchManifest dir).run.value = .ok (some root) → ∀ a,
          (Agenda.rounds disk pops { pending := [(root, 0)] }).run.value = .ok a →
            a.pending = [] := by
      by_cases hroot : ∃ root, (disk.fetchManifest dir).run.value = .ok (some root)
      · obtain ⟨root, hroot⟩ := hroot
        obtain ⟨pops, hpops⟩ := Agenda.exists_rounds_done disk { pending := [(root, 0)] }
        refine ⟨pops, fun root' hroot' => ?_⟩
        obtain rfl : root = root' := Option.some.inj (Except.ok.inj (hroot.symm.trans hroot'))
        exact hpops
      · exact ⟨0, fun root hroot' => absurd ⟨root, hroot'⟩ hroot⟩
    refine ⟨pops, ?_, fun a ha => ?_⟩
    · rw [assemble, agenda, bind_assoc]
      refine Attempt.bind_congr_of_value fun root? hroot => ?_
      cases root? with
      | none => rfl
      | some root =>
        simp only [addAssembly_eq_rounds (hdone root hroot), map_eq_pure_bind, bind_assoc,
          pure_bind, conclude]
    · obtain ⟨root, hroot, hrounds⟩ := exists_root_of_agenda ha
      exact hdone root hroot a hrounds
  · intro pops a ha
    obtain ⟨root, hroot, hrounds⟩ := exists_root_of_agenda ha
    exact (Agenda.sound_start hroot).rounds hrounds

end Disk

end LocalCloud
