import LocalCloud.Proofs.Startup.Start
import LocalCloud.Proofs.Warnings

/-!
# What a start refuses and what it passes over

A start fails with a refusal exactly when it is not accepted (`result_eq_refusal_iff`): what goes
wrong on the way through the waves is always something else.  Providers are passed over, with a
warning, exactly when the start is accepted and their node is not in the order
(`unscheduled_mem_start_iff`): nothing that happens later gives such a warning.
-/

namespace LocalCloud

/-! ## Failures on the way -/

variable {settings : OrchestratorSettings} {members : List Provider} {failure : StartFailure}

/-- The failure of a task never says that the start was refused. -/
theorem Task.Lived.isRefusal_eq_false {t : Task} {past : List Signal} (h : t.Lived settings past)
    (hf : t.outcome? = some (.failed failure)) : failure.isRefusal = false := by
  cases h <;> simp [outcome?] at hf <;> simp [← hf, StartFailure.isRefusal]

theorem Wave.Coherent.isRefusal_eq_false {wave : Wave} (h : wave.Coherent settings members)
    (hf : wave.failure? = some failure) : failure.isRefusal = false := by
  unfold Wave.failure? at hf
  split at hf
  · obtain rfl := Option.some.inj hf
    rfl
  obtain ⟨⟨p, fate⟩, hmem, hfailure⟩ := List.exists_of_findSome?_eq_some hf
  obtain ⟨t, ht, hfate⟩ := List.mem_map.1 hmem
  obtain ⟨-, rfl⟩ := Prod.mk.inj hfate
  unfold Wave.fate at hfailure
  split at hfailure
  · simp [Fate.failure?] at hfailure
  · next outcome hout =>
    obtain rfl : outcome = failure := by simpa [Fate.failure?] using hfailure
    exact (h.lived t ht).isRefusal_eq_false hout
  · split at hfailure
    · obtain rfl := Option.some.inj hfailure
      rfl
    · split at hfailure <;> simp [Fate.failure?] at hfailure

/-! ## Warnings on the way -/

/-- Whether a warning tells of something else than a provider whose node is not in the order. -/
def Warning.IsOfWaves : Warning → Prop
  | .unscheduled _ _ => False
  | _ => True

theorem Wave.warns_act (wave : Wave) (place : Nat) (signal : Signal) :
    (wave.act settings place signal).Warns Warning.IsOfWaves := by
  unfold act
  split
  · exact .pure _
  split
  · exact .pure _
  · intro v hv
    obtain hv := Option.mem_toList.1 hv
    unfold Task.warning? at hv
    split at hv <;> simp at hv <;> subst hv <;> trivial

theorem Wave.warns_run (wave : Wave) (events : List WaveEvent) :
    (wave.run settings events).Warns Warning.IsOfWaves := by
  refine .foldlM (fun wave event => ?_) events wave
  cases event with
  | act place signal => exact wave.warns_act place signal
  | cancel => exact .pure _
  | notice => exact .pure _

namespace Orchestrator

variable {σ : Type} (w : World σ)

theorem warns_stopEach (o : Orchestrator) (s : σ) (providers : List Provider) :
    (stopEach w o s providers).Warns Warning.IsOfWaves := by
  induction providers generalizing o s with
  | nil => exact .pure _
  | cons p rest ih =>
    unfold stopEach
    dsimp only
    split
    · exact .bind (ih _ _) fun _ => .pure _
    · exact .bind (.warn trivial) fun _ => .bind (ih _ _) fun _ => .pure _

theorem warns_rollback (o : Orchestrator) (s : σ) (failure : StartFailure) :
    (rollback w o s failure).Warns Warning.IsOfWaves := by
  refine .bind (.bind (warns_stopEach w o s _) fun _ => .pure _) fun passage => ?_
  dsimp only
  split
  · exact .pure _
  · exact .bind (.warn trivial) fun _ => .pure _

theorem warns_startWave (o : Orchestrator) (s : σ) (members : List Provider) :
    (startWave w o s members).Warns Warning.IsOfWaves :=
  .bind (Wave.warns_run _ _) fun _ => .pure _

theorem warns_startWaves (o : Orchestrator) (s : σ) (number : Nat)
    (lists : List (List Provider)) :
    (startWaves w o s number lists).Warns Warning.IsOfWaves := by
  induction lists generalizing o s number with
  | nil => exact .pure _
  | cons members rest ih =>
    unfold startWaves
    split
    · exact .bind (warns_rollback w o s _) fun _ => .pure _
    split
    · exact ih o s (number + 1)
    refine .bind (warns_startWave w o s members) fun first => ?_
    dsimp only
    split
    · exact .bind (ih _ _ _) fun _ => .pure _
    split
    · exact .bind (.warn trivial) fun _ => .bind (warns_rollback w _ _ _) fun _ => .pure _
    · exact .bind (warns_rollback w _ _ _) fun _ => .pure _

/-! ## The whole start -/

variable {o : Orchestrator} {s : σ} {graph : Graph} {providers : List Provider}
  {order : List String} {lists : List (List Provider)} {passage : Passage σ StartFailure}

/-- What goes wrong on the way through the waves is no refusal. -/
theorem Course.isRefusal_eq_false (h : Course o lists passage)
    (hfail : passage.result = .error failure) : failure.isRefusal = false := by
  induction h with
  | finished => simp at hfail
  | givenUp _ hback =>
    obtain rfl := Except.error.inj (hback.result.symm.trans hfail)
    rfl
  | skipped _ _ ih => exact ih hfail
  | failed _ hfirst hfailure hback =>
    obtain rfl := Except.error.inj (hback.result.symm.trans hfail)
    exact hfirst.coherent.isRefusal_eq_false hfailure
  | passed _ _ _ _ ih => exact ih hfail

/-- A start fails with a refusal exactly when it is not accepted. -/
theorem result_eq_refusal_iff (hrefusal : failure.isRefusal = true) :
    (start w o s graph providers order).value.result = .error failure ↔
      o.accept graph providers order = .error failure := by
  cases haccept : o.accept graph providers order with
  | error other => simp [start_of_refused w o s haccept]
  | ok waves =>
    refine ⟨fun hfail => ?_, fun h => by contradiction⟩
    have hnot := (course_start w o s haccept).isRefusal_eq_false hfail
    rw [hrefusal] at hnot
    contradiction

theorem warnings_warnUnscheduled (providers : List Provider) (order : List String) :
    (warnUnscheduled providers order).warnings =
      ((Ascending.ofList (providers.map (·.node))).filter fun node => !order.contains node).map
        fun node => .unscheduled (providers.countP (·.node == node)) node := by
  rw [warnUnscheduled]
  generalize (Ascending.ofList (providers.map (·.node))).filter _ = nodes
  induction nodes with
  | nil => rfl
  | cons node rest ih => exact congrArg (_ :: ·) ih

/-- A start passes over just the providers whose node is not in the order, and tells how many
there are for each such node. -/
theorem unscheduled_mem_start_iff {count : Nat} {node : String} :
    .unscheduled count node ∈ (start w o s graph providers order).warnings ↔
      (∃ waves, o.accept graph providers order = .ok waves) ∧
      node ∈ providers.map (·.node) ∧ node ∉ order ∧
      count = providers.countP (·.node == node) := by
  unfold start
  cases haccept : o.accept graph providers order with
  | error failure => simp
  | ok waves =>
    have hwaves : ∀ o lists, Warning.unscheduled count node ∉ (startWaves w o s 1 lists).warnings :=
      fun o lists hmem => warns_startWaves w o s 1 lists _ hmem
    simp only [Noted.warnings_bind, List.mem_append, hwaves, or_false, warnings_warnUnscheduled,
      List.mem_map, List.mem_filter, Ascending.mem_ofList, Warning.unscheduled.injEq,
      Except.ok.injEq, exists_eq', true_and]
    simp only [Bool.not_eq_true', List.contains_eq_mem, decide_eq_false_iff_not]
    constructor
    · rintro ⟨node, ⟨hnode, hout⟩, rfl, rfl⟩
      exact ⟨hnode, hout, rfl⟩
    · rintro ⟨hnode, hout, rfl⟩
      exact ⟨node, ⟨hnode, hout⟩, rfl, rfl⟩

end Orchestrator

end LocalCloud
