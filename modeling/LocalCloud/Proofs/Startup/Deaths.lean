import LocalCloud.Proofs.Startup.Cleanup
import LocalCloud.Proofs.Startup.Refusals
import LocalCloud.Proofs.Startup.Statuses

/-!
# Tasks that die

A task can die after the start of its provider has returned, while it asks for the provider's
health.  The start then fails, but nobody stops this provider: its task cannot do it any more, and
the orchestrator stops only what has come up or has been interrupted by a cancellation.  All that
remains of it is the status of a provider that has failed (`start_died_left_alone`), while everybody
else who has returned from its start is stopped.
-/

namespace LocalCloud

/-- A task that has died is over. -/
theorem Task.Lived.outcome?_of_died {settings : OrchestratorSettings} {t : Task}
    {past : List Signal} (h : t.Lived settings past) (hdied : .died ∈ past) :
    t.outcome? = some .died := by
  cases h <;> simp_all [outcome?]

namespace Wave.Coherent

variable {settings : OrchestratorSettings} {members : List Provider} {wave : Wave} {p : Provider}

/-- In a wave that is not given up, a provider whose task has died counts as failed. -/
theorem fate_of_died (h : wave.Coherent settings members) (hnoticed : wave.noticed = false)
    (hdied : .signalled p .died ∈ wave.history) {t : Task} (ht : t ∈ wave.tasks)
    (hp : t.provider = p) : Wave.fate wave.noticed t = .failed (.died p.name) := by
  subst hp
  have hout := (h.lived t ht).outcome?_of_died (mem_signalsOf.2 hdied)
  simp [Wave.fate, hout, hnoticed]

theorem not_mem_started_of_died (h : wave.Coherent settings members)
    (hnoticed : wave.noticed = false) (hdied : .signalled p .died ∈ wave.history) :
    p ∉ wave.started := by
  intro hp
  obtain ⟨t, ht, hprovider, hstarted⟩ := mem_started_iff.1 hp
  rw [h.fate_of_died hnoticed hdied ht hprovider] at hstarted
  simp [Wave.Fate.isStarted] at hstarted

end Wave.Coherent

namespace Orchestrator

variable {σ : Type} {o : Orchestrator} {members : List Provider} {lists : List (List Provider)}
  {passage : Passage σ StartFailure} {failure : StartFailure} {p : Provider}

/-- What becomes of a provider whose task has died: the start fails, the orchestrator does not stop
the provider, and its status tells of the failure. -/
structure LeftAlone (p : Provider) (passage : Passage σ StartFailure) : Prop where
  fails : ∃ failure, passage.result = .error failure
  uncalled : .stopCalled p ∉ passage.history
  status : passage.orchestrator.status? p.name = some .error

/-- A rollback does not change the status of anybody else. -/
theorem RolledBack.status?_of_not_mem (h : RolledBack o failure passage) {name : String}
    (hname : name ∉ o.started.map (·.name)) :
    passage.orchestrator.status? name = o.status? name := by
  obtain ⟨ends, hends, hstopped⟩ := h.stopped
  refine hstopped.statuses.status?_of_not_mem ?_
  rwa [names_of_ends hends, List.mem_reverse]

section BroughtUp

variable {wave : Wave} {first : Passage σ StartFailure}

/-- Nobody is stopped by the orchestrator while a wave is running. -/
theorem BroughtUp.stopCalled_not_mem (h : BroughtUp o members wave first) (p : Provider) :
    .stopCalled p ∉ first.history := by
  intro hmem
  rw [h.history] at hmem
  exact h.coherent.ofWave _ hmem

theorem BroughtUp.status?_of_died (h : BroughtUp o members wave first)
    (hnames : (members.map (·.name)).Nodup) (hnoticed : wave.noticed = false)
    (hdied : .signalled p .died ∈ wave.history) :
    first.orchestrator.status? p.name = some .error := by
  have hp : p ∈ members := h.coherent.ofWave _ hdied
  obtain ⟨t, ht, hprovider, -⟩ := h.coherent.exists_lived hp
  refine h.statuses.status?_of_mem (h.coherent.names_of_fates ▸ hnames) ?_
  refine List.mem_map.2 ⟨_, List.mem_map_of_mem ht, ?_⟩
  rw [h.coherent.fate_of_died hnoticed hdied ht hprovider, hprovider]
  rfl

/-- Whoever has to be stopped after a wave has another name than a provider whose task has died. -/
theorem BroughtUp.name_not_mem_of_died (h : BroughtUp o members wave first)
    (hnames : ((o.started ++ members).map (·.name)).Nodup) (hnoticed : wave.noticed = false)
    (hdied : .signalled p .died ∈ wave.history) :
    p.name ∉ first.orchestrator.started.map (·.name) := by
  have hp : p ∈ members := h.coherent.ofWave _ hdied
  rw [List.map_append, List.nodup_append] at hnames
  obtain ⟨-, hmembers, hdisjoint⟩ := hnames
  rw [h.started, List.map_append, List.mem_append, not_or]
  refine ⟨fun hbefore => hdisjoint _ hbefore _ (List.mem_map_of_mem hp) rfl, fun hwave => ?_⟩
  obtain ⟨q, hq, hname⟩ := List.mem_map.1 hwave
  have hsame : q = p :=
    List.inj_on_of_nodup_map hmembers (h.started_sublist.subset hq) hp hname
  exact h.coherent.not_mem_started_of_died hnoticed hdied (hsame ▸ hq)

end BroughtUp

/-- A course that nobody cancels leaves a provider alone whose task dies. -/
theorem Course.leftAlone (h : Course o lists passage) (ho : o.cancelled = false)
    (hnames : ((o.started ++ lists.flatten).map (·.name)).Nodup)
    (hquiet : .cancelled ∉ passage.history) (hdied : .signalled p .died ∈ passage.history) :
    LeftAlone p passage := by
  induction h with
  | finished => simp at hdied
  | givenUp hcancelled => simp [ho] at hcancelled
  | skipped _ _ ih => exact ih ho hnames hquiet hdied
  | @failed o members rest wave first back failure _ hfirst _ hback =>
    rw [List.mem_append, not_or] at hquiet
    have hnoticed := (hfirst.quiet ho (hfirst.history ▸ hquiet.1)).2
    have hwave : .signalled p .died ∈ wave.history := by
      rw [← hfirst.history]
      exact (List.mem_append.1 hdied).resolve_right (hback.signalled_not_mem p .died)
    rw [List.flatten_cons, ← List.append_assoc, List.map_append] at hnames
    have hbefore := (List.nodup_append.1 hnames).1
    have hmembers : (members.map (·.name)).Nodup := by
      rw [List.map_append] at hbefore
      exact (List.nodup_append.1 hbefore).2.1
    have hname := hfirst.name_not_mem_of_died hbefore hnoticed hwave
    have hback' : .stopCalled p ∉ back.history := by
      rw [← mem_stopsOf, hback.stops, List.mem_reverse]
      exact fun hp => hname (List.mem_map_of_mem hp)
    refine ⟨⟨failure, hback.result⟩, ?_, ?_⟩
    · rw [List.mem_append, not_or]
      exact ⟨hfirst.stopCalled_not_mem p, hback'⟩
    · rw [hback.status?_of_not_mem hname]
      exact hfirst.status?_of_died hmembers hnoticed hwave
  | @passed o members rest wave first next _ hfirst hfailure _ ih =>
    rw [List.mem_append, not_or] at hquiet
    have hcancelled : first.orchestrator.cancelled = false := by
      rw [hfirst.cancelled]
      exact (hfirst.quiet ho (hfirst.history ▸ hquiet.1)).1
    have hstarted := hfirst.started
    rw [hfirst.coherent.started_of_failure?_none hfailure] at hstarted
    rw [List.flatten_cons, ← List.append_assoc, ← hstarted] at hnames
    have hnext : .signalled p .died ∈ next.history := by
      refine (List.mem_append.1 hdied).resolve_left fun hmem => ?_
      rw [hfirst.history] at hmem
      -- all members of this wave have come up
      have hlife := hfirst.coherent.signalsOf_of_failure?_none hfailure
        (hfirst.coherent.ofWave _ hmem)
      simpa [hlife] using mem_signalsOf.2 hmem
    obtain ⟨hfails, huncalled, hstatus⟩ := ih hcancelled hnames hquiet.2 hnext
    refine ⟨hfails, ?_, hstatus⟩
    rw [List.mem_append, not_or]
    exact ⟨hfirst.stopCalled_not_mem p, huncalled⟩

variable (w : World σ)

/-- Nobody stops a provider whose task dies before it has run out of time.  The start fails and the
status of the provider says so, and everybody else who has returned from its start is stopped, by
its own task or by the orchestrator. -/
theorem start_died_left_alone (o : Orchestrator) (s : σ) (graph : Graph)
    (providers : List Provider) (order : List String) (p : Provider) (ho : o.cancelled = false)
    (hquiet : .cancelled ∉ (start w o s graph providers order).value.history)
    (hdied : .signalled p .died ∈ (start w o s graph providers order).value.history)
    (hchecked : .signalled p .overdue ∉ (start w o s graph providers order).value.history) :
    (∃ failure, failure.isRefusal = false ∧
      (start w o s graph providers order).value.result = .error failure) ∧
    (start w o s graph providers order).value.orchestrator.status? p.name = some .error ∧
    (∀ x ∈ (start w o s graph providers order).value.history, ¬ x.IsStopOf p) ∧
    ∀ q before after, (start w o s graph providers order).value.history =
        before ++ .signalled q .launched :: after →
      .signalled q .died ∉ (start w o s graph providers order).value.history →
      ∃ x ∈ after, x.IsStopOf q := by
  cases haccept : o.accept graph providers order with
  | error failure => simp [start_of_refused w o s haccept] at hdied
  | ok waves =>
    have hcourse := course_start w o s haccept
    obtain ⟨⟨failure, hfails⟩, huncalled, hstatus⟩ :=
      hcourse.leftAlone ho (accepted_of_accept haccept).nodup_names hquiet hdied
    refine ⟨⟨failure, ?_, hfails⟩, hstatus, ?_, (hcourse.cleansUp hfails).stopped⟩
    · exact hcourse.isRefusal_eq_false hfails
    · rintro x hx (rfl | rfl)
      · exact huncalled hx
      · exact hchecked hx

/-- A world in which the task of the second of two members dies while it asks for the health of its
provider, when the first member is up. -/
def shakyWorld : World Unit where
  wave _ members :=
    match members with
    | [_, _] =>
      ([.act 0 .called, .act 1 .called, .act 0 .launched, .act 1 .launched, .act 0 .healthy,
        .act 1 .died], ())
    | _ => ([.cancel, .notice], ())
  stop _ _ := ((.stopped, false), ())
  isSettled_wave := by
    intro settings cancelled _ members
    split
    · rfl
    · exact congrArg (· || _) (Wave.noticed_run_cancel_notice settings _ [])

/-- When the task of the service dies after its start has returned, only the database is stopped. -/
theorem death_leaves_service :
    (start shakyWorld {} () {} pair ["Table", "Function"]).value.result =
      .error (.died "service") ∧
    .signalled { name := "service", node := "Function" } .launched ∈
      (start shakyWorld {} () {} pair ["Table", "Function"]).value.history ∧
    stopsOf (start shakyWorld {} () {} pair ["Table", "Function"]).value.history =
      [{ name := "database", node := "Table" }] ∧
    ∀ x ∈ (start shakyWorld {} () {} pair ["Table", "Function"]).value.history,
      ¬ x.IsStopOf { name := "service", node := "Function" } := by
  obtain ⟨-, -, halone, -⟩ := start_died_left_alone shakyWorld {} () {} pair ["Table", "Function"]
    { name := "service", node := "Function" } rfl (by decide +kernel) (by decide +kernel)
    (by decide +kernel)
  exact ⟨by decide +kernel, by decide +kernel, by decide +kernel, halone⟩

end Orchestrator

end LocalCloud
