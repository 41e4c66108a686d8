import LocalCloud.Proofs.Startup.Start

/-!
# What a failed start leaves behind

When a start fails, whoever has returned from its start is stopped again: by its own task, when
its health takes too long, or else by the rollback.  What carries this through the waves is that
the rollback stops all that is launched when it comes, in earlier waves as well (`CleansUp`).
-/

namespace LocalCloud

/-- Whether the stop of a provider is called, by the orchestrator or by the provider's own task. -/
def Happening.IsStopOf (p : Provider) (h : Happening) : Prop :=
  h = .stopCalled p ∨ h = .signalled p .overdue

namespace Orchestrator

variable {σ : Type} {o : Orchestrator} {lists : List (List Provider)}
  {passage : Passage σ StartFailure} {failure : StartFailure}

/-- Everything that is launched when the passage comes or during it has been stopped in the end,
and nothing else. -/
structure CleansUp (o : Orchestrator) (passage : Passage σ StartFailure) : Prop where
  stopped : ∀ p before after, passage.history = before ++ .signalled p .launched :: after →
    .signalled p .died ∉ passage.history → ∃ h ∈ after, h.IsStopOf p
  stoppedBefore : ∀ p ∈ o.started, .stopCalled p ∈ passage.history
  launched : ∀ p before h after, passage.history = before ++ h :: after → h.IsStopOf p →
    .signalled p .launched ∈ before ∨ p ∈ o.started
  started : passage.orchestrator.started = []
  running : passage.orchestrator.running = false

/-- A rollback stops what is started, and no task is running any more. -/
theorem RolledBack.cleansUp (h : RolledBack o failure passage) : CleansUp o passage where
  stopped := by
    intro p before after hsplit _
    exact absurd (by simp [hsplit]) (h.signalled_not_mem p .launched)
  stoppedBefore := by
    intro p hp
    rw [← mem_stopsOf, h.stops, List.mem_reverse]
    exact hp
  launched := by
    intro p before x after hsplit hx
    have hmem : x ∈ passage.history := by simp [hsplit]
    rcases hx with rfl | rfl
    · rw [← mem_stopsOf, h.stops, List.mem_reverse] at hmem
      exact .inr hmem
    · exact absurd hmem (h.signalled_not_mem p .overdue)
  started := h.started
  running := h.running

/-- To notice the cancellation stops nobody. -/
theorem CleansUp.notice (h : CleansUp o passage) :
    CleansUp o { passage with history := .noticed :: passage.history } where
  stopped := by
    intro p before after hsplit hdied
    cases before with
    | nil => simp at hsplit
    | cons x before =>
      refine h.stopped p before after (List.cons.inj hsplit).2 fun hmem => ?_
      exact hdied (List.mem_cons_of_mem _ hmem)
  stoppedBefore := fun p hp => List.mem_cons_of_mem _ (h.stoppedBefore p hp)
  launched := by
    intro p before x after hsplit hx
    cases before with
    | nil =>
      obtain ⟨rfl, -⟩ := List.cons.inj hsplit
      simp [Happening.IsStopOf] at hx
    | cons y before =>
      rcases h.launched p before x after (List.cons.inj hsplit).2 hx with hbefore | hstarted
      · exact .inl (List.mem_cons_of_mem _ hbefore)
      · exact .inr hstarted
  started := h.started
  running := h.running

/-- What is launched in a wave is stopped there or has to be stopped afterwards. -/
theorem CleansUp.after {members : List Provider} {wave : Wave}
    {first : Passage σ StartFailure} (hfirst : BroughtUp o members wave first)
    (h : CleansUp first.orchestrator passage) :
    CleansUp o { passage with history := first.history ++ passage.history } where
  stopped := by
    intro p before after hsplit hdied
    rcases append_split hsplit with ⟨mid, hwave, rfl⟩ | ⟨mid, rfl, hrest⟩
    · -- launched in this wave
      rw [hfirst.history] at hwave hdied
      have hdied' : .signalled p .died ∉ wave.history := fun hmem =>
        hdied (List.mem_append_left _ hmem)
      rcases hfirst.coherent.overdue_or_started hfirst.settled hwave hdied' with hmem | hstarted
      · exact ⟨_, List.mem_append_left _ hmem, .inr rfl⟩
      · have hp : p ∈ first.orchestrator.started := by
          rw [hfirst.started]
          exact List.mem_append_right _ hstarted
        exact ⟨_, List.mem_append_right _ (h.stoppedBefore p hp), .inl rfl⟩
    · exact h.stopped p mid after hrest fun hmem => hdied (List.mem_append_right _ hmem)
  stoppedBefore := by
    intro p hp
    refine List.mem_append_right _ (h.stoppedBefore p ?_)
    rw [hfirst.started]
    exact List.mem_append_left _ hp
  launched := by
    intro p before x after hsplit hx
    rcases append_split hsplit with ⟨mid, hwave, rfl⟩ | ⟨mid, rfl, hrest⟩
    · -- only tasks call stops while the wave is running
      rw [hfirst.history] at hwave
      rcases hx with rfl | rfl
      · exact absurd (hfirst.coherent.ofWave (.stopCalled p) (by simp [hwave])) id
      · exact .inl (hfirst.coherent.launched_before_overdue hwave)
    · rcases h.launched p mid x after hrest hx with hmid | hstarted
      · exact .inl (List.mem_append_right _ hmid)
      rw [hfirst.started] at hstarted
      rcases List.mem_append.1 hstarted with hstarted | hwave
      · exact .inr hstarted
      · refine .inl (List.mem_append_left _ ?_)
        rw [hfirst.history]
        exact hfirst.coherent.launched_mem_of_started hwave
  started := h.started
  running := h.running

/-- However a start goes through its waves, it cleans up when it fails. -/
theorem Course.cleansUp (h : Course o lists passage) (hfail : passage.result = .error failure) :
    CleansUp o passage := by
  induction h with
  | finished => simp at hfail
  | givenUp _ hback => exact hback.cleansUp.notice
  | skipped _ _ ih => exact ih hfail
  | failed _ hfirst _ hback => exact hback.cleansUp.after hfirst
  | passed _ hfirst _ _ ih => exact (ih hfail).after hfirst

/-- A start that fails leaves nothing behind.  Every provider that has returned from its start is
stopped after that, no other provider is stopped, and nothing counts as started or running.  Nothing
is said of a provider whose task dies once the start has returned. -/
theorem start_failed_leaves_nothing (w : World σ) (o : Orchestrator) (s : σ) (graph : Graph)
    (providers : List Provider) (order : List String) (failure : StartFailure)
    (hfail : (start w o s graph providers order).value.result = .error failure)
    (hrefusal : failure.isRefusal = false) :
    (∀ p before after,
      (start w o s graph providers order).value.history =
        before ++ .signalled p .launched :: after →
      .signalled p .died ∉ (start w o s graph providers order).value.history →
      ∃ h ∈ after, h.IsStopOf p) ∧
    (∀ p before h after,
      (start w o s graph providers order).value.history = before ++ h :: after →
      h.IsStopOf p → .signalled p .launched ∈ before) ∧
    (start w o s graph providers order).value.orchestrator.started = [] ∧
    (start w o s graph providers order).value.orchestrator.running = false := by
  rcases start_cases w o s graph providers order with
    ⟨failure', hrefused, heq⟩ | ⟨waves, o₁, -, -, -, hstarted, -, -, hcourse⟩
  · rw [heq, Except.error.injEq] at hfail
    rw [← hfail, hrefused] at hrefusal
    exact absurd hrefusal (by simp)
  · have hclean := hcourse.cleansUp hfail
    refine ⟨hclean.stopped, ?_, hclean.started, hclean.running⟩
    intro p before h after hsplit hh
    rcases hclean.launched p before h after hsplit hh with hbefore | hmem
    · exact hbefore
    · simp [hstarted] at hmem

/-- A world in which the second of two members refuses to start when the first one is up. -/
def refusingWorld : World Unit where
  wave _ members :=
    match members with
    | [_, _] =>
      ([.act 0 .called, .act 1 .called, .act 0 .launched, .act 0 .healthy,
        .act 1 (.refused "no port")], ())
    | _ => ([.cancel, .notice], ())
  stop _ _ := ((.stopped, false), ())
  isSettled_wave := by
    intro settings cancelled _ members
    split
    · rfl
    · exact congrArg (· || _) (Wave.noticed_run_cancel_notice settings _ [])

/-- A database and a service that needs no database to start. -/
def pair : List Provider :=
  [{ name := "database", node := "Table" }, { name := "service", node := "Function" }]

/-- When the service refuses to start, the database, which is up by then, is stopped. -/
theorem refusal_stops_database :
    (start refusingWorld {} () {} pair ["Table", "Function"]).value.result =
      .error (.refused "service" "no port") ∧
    (∃ before after, (start refusingWorld {} () {} pair ["Table", "Function"]).value.history =
        before ++ .signalled { name := "database", node := "Table" } .launched :: after ∧
      ∃ h ∈ after, h.IsStopOf { name := "database", node := "Table" }) ∧
    (start refusingWorld {} () {} pair ["Table", "Function"]).value.orchestrator.started = [] := by
  have hresult : (start refusingWorld {} () {} pair ["Table", "Function"]).value.result =
      .error (.refused "service" "no port") := by
    decide +kernel
  have hhistory : ∃ before after,
      (start refusingWorld {} () {} pair ["Table", "Function"]).value.history =
        before ++ .signalled { name := "database", node := "Table" } .launched :: after :=
    List.append_of_mem (by decide +kernel)
  have hdied : .signalled { name := "database", node := "Table" } .died ∉
      (start refusingWorld {} () {} pair ["Table", "Function"]).value.history := by
    decide +kernel
  obtain ⟨before, after, hsplit⟩ := hhistory
  obtain ⟨hstopped, -, hstarted, -⟩ := start_failed_leaves_nothing refusingWorld {} () {} pair
    ["Table", "Function"] _ hresult rfl
  exact ⟨hresult, ⟨before, after, hsplit, hstopped _ before after hsplit hdied⟩, hstarted⟩

end Orchestrator

end LocalCloud
