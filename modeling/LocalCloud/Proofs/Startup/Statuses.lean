import LocalCloud.Proofs.Startup.Start

/-!
# Statuses and what has to be stopped

The orchestrator keeps two books on its providers: their statuses, and the list of those that it
has to stop.  Between two waves the books agree (`Accurate`).  While a wave is being settled they
only agree in one direction, since members that were given up are still said to be starting
(`Covered`); but whoever is said to be up or starting is on the list, so that the rollback, which
goes through the list, makes the books agree again.
-/

namespace LocalCloud

/-- In a wave that has not failed, all members are up. -/
theorem Wave.fate_of_failure?_none {wave : Wave} (hfailure : wave.failure? = none) :
    ∀ x ∈ wave.fates, x.2 = .running := by
  unfold Wave.failure? at hfailure
  split at hfailure
  · simp at hfailure
  next hnoticed =>
  intro x hx
  have hfate := List.findSome?_eq_none_iff.1 hfailure x hx
  obtain ⟨t, -, rfl⟩ := List.mem_map.1 hx
  -- in a wave that was not given up, a fate is to be up or to have failed
  simp only [Wave.fate, hnoticed] at hfate ⊢
  split at hfate <;> simp_all [Wave.Fate.failure?]

namespace Wave.Coherent

variable {settings : OrchestratorSettings} {members : List Provider} {wave : Wave}
  (h : wave.Coherent settings members)

include h

/-- Every member has one fate. -/
theorem map_fst_fates : wave.fates.map (·.1) = members := by
  rw [← h.providers, Wave.fates, List.map_map]
  rfl

theorem map_name_fates : wave.fates.map (·.1.name) = members.map (·.name) := by
  rw [← h.map_fst_fates, List.map_map]
  rfl

/-- The statuses that a wave sets are those of its members. -/
theorem names_of_fates :
    (wave.fates.map fun x => (x.1.name, x.2.status)).map (·.1) = members.map (·.name) := by
  rw [← h.map_name_fates, List.map_map]
  rfl

/-- All members of a wave that has not failed have to be stopped later on. -/
theorem started_of_failure?_none (hfailure : wave.failure? = none) : wave.started = members := by
  have hstarted : ∀ x ∈ wave.fates, x.2.isStarted = true := by
    intro x hx
    rw [Wave.fate_of_failure?_none hfailure x hx]
    rfl
  rw [Wave.started, List.filter_eq_self.2 hstarted]
  exact h.map_fst_fates

end Wave.Coherent

namespace Orchestrator

variable {σ : Type} {o o' : Orchestrator} {lists : List (List Provider)}
  {passage : Passage σ StartFailure} {failure : StartFailure}

/-- Whoever is said to be up or starting has to be stopped. -/
def Covered (o : Orchestrator) : Prop :=
  ∀ name, o.status? name = some .running ∨ o.status? name = some .starting →
    name ∈ o.started.map (·.name)

/-- The statuses and the list of what has to be stopped agree. -/
structure Accurate (o : Orchestrator) : Prop where
  not_starting : ∀ name, o.status? name ≠ some .starting
  running_iff : ∀ name, o.status? name = some .running ↔ name ∈ o.started.map (·.name)
  names : (o.started.map (·.name)).Nodup

theorem Accurate.covered (h : o.Accurate) : o.Covered := by
  rintro name (hrunning | hstarting)
  · exact (h.running_iff name).1 hrunning
  · exact absurd hstarting (h.not_starting name)

/-! ## Shutting down -/

/-- The statuses that a shutdown sets are those of the providers that it stops. -/
theorem names_of_ends {ends : List (Provider × StopEnd)} {up : List Provider}
    (hends : ends.map (·.1) = up.reverse) :
    (ends.map fun x => (x.1.name, x.2.status)).map (·.1) = (up.map (·.name)).reverse := by
  rw [← List.map_reverse, ← hends, List.map_map, List.map_map]
  rfl

/-- Stopping all that is on the list leaves nobody up or starting. -/
theorem StoppedEach.accurate {ends : List (Provider × StopEnd)} {history : List Happening}
    (h : StoppedEach o ends history o') (hends : ends.map (·.1) = o.started.reverse)
    (hcovered : o.Covered) (hstarted : o'.started = []) : o'.Accurate := by
  have hdown : ∀ name status, o'.status? name = some status →
      status ≠ .running ∧ status ≠ .starting := by
    intro name status hstatus
    rcases h.statuses.cases hstatus with hchanged | ⟨hnot, hold⟩
    · obtain ⟨x, -, heq⟩ := List.mem_map.1 hchanged
      obtain ⟨-, rfl⟩ := Prod.mk.inj heq
      cases x.2 <;> simp [StopEnd.status]
    · -- a provider that is not on the list was neither up nor starting
      have hname : name ∉ o.started.map (·.name) := by
        rwa [names_of_ends hends, List.mem_reverse] at hnot
      constructor
      · rintro rfl
        exact hname (hcovered name (.inl hold))
      · rintro rfl
        exact hname (hcovered name (.inr hold))
  refine ⟨fun name hname => (hdown name _ hname).2 rfl, fun name => ?_, by simp [hstarted]⟩
  rw [hstarted]
  exact ⟨fun hname => absurd rfl (hdown name _ hname).1, fun hname => by simp at hname⟩

theorem RolledBack.accurate (h : RolledBack o failure passage) (hcovered : o.Covered) :
    passage.orchestrator.Accurate := by
  obtain ⟨ends, hends, hstopped⟩ := h.stopped
  exact hstopped.accurate hends hcovered h.started

/-! ## Waves -/

section BroughtUp

variable {members : List Provider} {wave : Wave} (h : BroughtUp o members wave passage)

include h

/-- Nobody but members has to be stopped for a wave, in the order of the wave. -/
theorem BroughtUp.started_sublist : wave.started.Sublist members := by
  rw [← h.coherent.map_fst_fates]
  exact List.Sublist.map _ List.filter_sublist

/-- However a wave ends, whoever is said to be up or starting after it has to be stopped. -/
theorem BroughtUp.covered (hcovered : o.Covered) : passage.orchestrator.Covered := by
  intro name hname
  rw [h.started, List.map_append, List.mem_append]
  have hcases : ∀ status, passage.orchestrator.status? name = some status →
      status = .running ∨ status = .starting →
      name ∈ o.started.map (·.name) ∨ name ∈ wave.started.map (·.name) := by
    intro status hstatus hup
    rcases h.statuses.cases hstatus with hchanged | ⟨-, hold⟩
    · obtain ⟨x, hx, heq⟩ := List.mem_map.1 hchanged
      obtain ⟨rfl, rfl⟩ := Prod.mk.inj heq
      have hisStarted : x.2.isStarted = true := by
        revert hup
        cases x.2 <;> simp [Wave.Fate.status, Wave.Fate.isStarted]
      have hstarted : x.1 ∈ wave.started :=
        List.mem_map.2 ⟨x, List.mem_filter.2 ⟨hx, hisStarted⟩, rfl⟩
      exact .inr (List.mem_map_of_mem hstarted)
    · rcases hup with rfl | rfl
      · exact .inl (hcovered name (.inl hold))
      · exact .inl (hcovered name (.inr hold))
  rcases hname with hrunning | hstarting
  · exact hcases _ hrunning (.inl rfl)
  · exact hcases _ hstarting (.inr rfl)

/-- After a wave that has not failed the books agree as they did before. -/
theorem BroughtUp.accurate (hfailure : wave.failure? = none) (ho : o.Accurate)
    (hnames : ((o.started ++ members).map (·.name)).Nodup) : passage.orchestrator.Accurate := by
  have hstarted : passage.orchestrator.started = o.started ++ members := by
    rw [h.started, h.coherent.started_of_failure?_none hfailure]
  have hrunning := Wave.fate_of_failure?_none hfailure
  refine ⟨fun name hname => ?_, fun name => ⟨fun hname => ?_, fun hname => ?_⟩, hstarted ▸ hnames⟩
  · rcases h.statuses.cases hname with hchanged | ⟨-, hold⟩
    · obtain ⟨x, hx, heq⟩ := List.mem_map.1 hchanged
      obtain ⟨-, hstatus⟩ := Prod.mk.inj heq
      simp [hrunning x hx, Wave.Fate.status] at hstatus
    · exact ho.not_starting name hold
  · exact h.covered ho.covered name (.inl hname)
  · rw [hstarted, List.map_append, List.mem_append] at hname
    rw [List.map_append, List.nodup_append] at hnames
    by_cases hmember : name ∈ members.map (·.name)
    · refine h.statuses.status?_of_mem (h.coherent.names_of_fates ▸ hnames.2.1) ?_
      rw [← h.coherent.map_name_fates] at hmember
      obtain ⟨x, hx, rfl⟩ := List.mem_map.1 hmember
      refine List.mem_map.2 ⟨x, hx, ?_⟩
      rw [hrunning x hx]
      rfl
    · rw [h.statuses.status?_of_not_mem (h.coherent.names_of_fates ▸ hmember)]
      exact (ho.running_iff name).2 (hname.resolve_right hmember)

end BroughtUp

/-! ## Whole courses -/

/-- A course that began with books that agree ends with books that agree, as long as no two
providers have one name. -/
theorem Course.accurate (h : Course o lists passage) (ho : o.Accurate)
    (hnames : ((o.started ++ lists.flatten).map (·.name)).Nodup) :
    passage.orchestrator.Accurate := by
  induction h with
  | finished => exact ⟨ho.not_starting, ho.running_iff, ho.names⟩
  | givenUp _ hback => exact hback.accurate ho.covered
  | skipped _ _ ih => exact ih ho (by simpa using hnames)
  | failed _ hfirst _ hback => exact hback.accurate (hfirst.covered ho.covered)
  | @passed o members _ _ _ _ _ hfirst hfailure _ ih =>
    rw [List.flatten_cons, ← List.append_assoc] at hnames
    have hstarted := hfirst.started
    rw [hfirst.coherent.started_of_failure?_none hfailure] at hstarted
    refine ih (hfirst.accurate hfailure ho ?_) (hstarted ▸ hnames)
    rw [List.map_append] at hnames
    exact (List.nodup_append.1 hnames).1

theorem Course.settings (h : Course o lists passage) :
    passage.orchestrator.settings = o.settings := by
  induction h with
  | finished => rfl
  | givenUp _ hback => exact hback.settings
  | skipped _ _ ih => exact ih
  | failed _ hfirst _ hback => exact hback.settings.trans hfirst.settings
  | passed _ hfirst _ _ ih => exact ih.trans hfirst.settings

/-- A course that succeeds leaves all members of all waves running, behind what was started before;
one that fails leaves nothing. -/
theorem Course.outcome (h : Course o lists passage) :
    (passage.result = .ok () ∧ passage.orchestrator.running = true ∧
      passage.orchestrator.started = o.started ++ lists.flatten) ∨
    ∃ failure, passage.result = .error failure ∧ passage.orchestrator.running = false ∧
      passage.orchestrator.started = [] := by
  induction h with
  | finished => exact .inl ⟨rfl, rfl, by simp⟩
  | givenUp _ hback => exact .inr ⟨_, hback.result, hback.running, hback.started⟩
  | skipped _ _ ih => simpa using ih
  | failed _ _ _ hback => exact .inr ⟨_, hback.result, hback.running, hback.started⟩
  | passed _ hfirst hfailure _ ih =>
    refine ih.imp_left fun ⟨hresult, hrunning, hstarted⟩ => ⟨hresult, hrunning, ?_⟩
    rw [hstarted, hfirst.started, hfirst.coherent.started_of_failure?_none hfailure,
      List.flatten_cons, List.append_assoc]

/-- All that a course that succeeds changes in the statuses is to say of the members that they are
running. -/
theorem Course.restated_of_ok (h : Course o lists passage) (hok : passage.result = .ok ()) :
    o.Restated (lists.flatten.map fun p => (p.name, .running)) passage.orchestrator := by
  induction h with
  | finished o => exact Restated.refl o
  | givenUp _ hback | failed _ _ _ hback => simp [hback.result] at hok
  | skipped _ _ ih => exact ih hok
  | @passed _ members _ wave _ _ _ hfirst hfailure _ ih =>
    have hrunning : wave.fates.map (fun x => (x.1.name, x.2.status)) =
        members.map fun p => (p.name, .running) := by
      rw [← hfirst.coherent.map_fst_fates, List.map_map]
      refine List.map_congr_left fun x hx => ?_
      rw [Wave.fate_of_failure?_none hfailure x hx]
      rfl
    have hstatuses := hfirst.statuses
    rw [hrunning] at hstatuses
    rw [List.flatten_cons, List.map_append]
    exact hstatuses.trans (ih hok)

/-- An orchestrator that goes into a start says of each provider that it is stopped, and knows of
nobody else. -/
theorem status?_cleared (o : Orchestrator) (providers : List Provider) (name : String) :
    (o.cleared providers).status? name =
      (providers.find? (·.name == name)).map fun _ => .stopped := by
  unfold status? cleared
  induction providers with
  | nil => rfl
  | cons p rest ih =>
    have hcomm : (name == p.name) = (p.name == name) := BEq.comm
    rw [List.map_cons, List.map_cons, List.lookup_cons, List.find?_cons, ih, hcomm]
    cases p.name == name <;> rfl

/-! ## Between two calls -/

/-- An orchestrator that has forgotten what was started before says of everybody that it is
stopped. -/
theorem accurate_cleared (o : Orchestrator) (providers : List Provider) :
    (o.cleared providers).Accurate := by
  have hstopped : ∀ name status, (o.cleared providers).status? name = some status →
      status = .stopped := by
    intro name status hstatus
    obtain ⟨before, after, heq, -⟩ := List.lookup_eq_some_iff.1 hstatus
    have hmem : (name, status) ∈ (o.cleared providers).statuses := by simp [heq]
    obtain ⟨_, -, heq⟩ := List.mem_map.1 hmem
    exact (Prod.mk.inj heq).2.symm
  refine ⟨fun name hname => ?_, fun name => ⟨fun hname => ?_, fun hname => ?_⟩, List.nodup_nil⟩
  · simpa using hstopped name _ hname
  · simpa using hstopped name _ hname
  · simp [cleared] at hname

theorem accurate_start (w : World σ) (s : σ) {graph : Graph} {providers : List Provider}
    {order : List String} {waves : List (List String)}
    (h : o.accept graph providers order = .ok waves) :
    (start w o s graph providers order).value.orchestrator.Accurate := by
  refine (course_start w o s h).accurate (accurate_cleared o providers) ?_
  exact (accepted_of_accept h).nodup_names

theorem accurate_stop (w : World σ) (s : σ) (ho : o.Accurate) :
    (stop w o s).value.orchestrator.Accurate := by
  obtain ⟨hcalls, hstatuses⟩ := stoppedEach_stopEach w o s o.started.reverse
  refine StoppedEach.accurate ⟨hcalls, fun name => ?_⟩ (map_fst_stopEnds w s _) ho.covered rfl
  exact hstatuses name

end Orchestrator

end LocalCloud
