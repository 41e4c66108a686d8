import LocalCloud.Proofs.Startup.Start

/-!
# What becomes of a cancellation

A start fails with the cancellation just when the orchestrator notices it
(`start_cancelled_iff`).  It need not notice a cancellation that comes while a task is still at
work: when all tasks of that wave have come to their ends before the orchestrator looks, and no
wave is left to begin, the start goes on as if nothing had been cancelled
(`start_unnoticed`, `cancellation_lost`).
-/

namespace LocalCloud

/-- Whether the task of a provider has been spawned and has not come to its end. -/
def Outstanding (p : Provider) (history : List Happening) : Prop :=
  .spawned p ∈ history ∧ ¬ Ended p history

/-- A task that is outstanding later on was not spawned in a wave that is over. -/
theorem Outstanding.of_append {p : Provider} {past mid : List Happening}
    (hp : Outstanding p (past ++ mid)) (hended : .spawned p ∈ past → Ended p past) :
    Outstanding p mid := by
  obtain ⟨hspawned, hgoing⟩ := hp
  refine ⟨?_, fun hmid => hgoing (hmid.mono (List.subset_append_right _ _))⟩
  rcases List.mem_append.1 hspawned with hpast | hmid
  · exact absurd ((hended hpast).mono (List.subset_append_left _ _)) hgoing
  · exact hmid

namespace Orchestrator

variable {σ : Type} {o : Orchestrator} {lists : List (List Provider)}
  {passage : Passage σ StartFailure} {failure : StartFailure}

theorem RolledBack.noticed_not_mem (h : RolledBack o failure passage) :
    .noticed ∉ passage.history := fun hmem => h.ofStop _ hmem

theorem RolledBack.spawned_not_mem (h : RolledBack o failure passage) (q : Provider) :
    .spawned q ∉ passage.history := fun hmem => h.ofStop _ hmem

/-! ## Cancellations that are noticed -/

/-- A wave that fails with something else than the cancellation has not noticed it. -/
theorem BroughtUp.noticed_not_mem {members : List Provider} {wave : Wave}
    (h : BroughtUp o members wave passage) (hfailure : wave.failure? ≠ some .cancelled) :
    .noticed ∉ passage.history := by
  rw [h.history, ← h.coherent.failure?_eq_cancelled_iff]
  exact hfailure

/-- The cancellation is the failure just when it has been noticed. -/
theorem Course.cancelled_iff (h : Course o lists passage) :
    passage.result = .error .cancelled ↔ .noticed ∈ passage.history := by
  induction h with
  | finished => simp
  | givenUp _ hback => simp [hback.result]
  | skipped _ _ ih => exact ih
  | failed _ hfirst hfailure hback =>
    have hnoticed := hfirst.coherent.failure?_eq_cancelled_iff
    rw [hfailure, Option.some.injEq] at hnoticed
    rw [List.mem_append, hfirst.history, ← hnoticed, hback.result, Except.error.injEq,
      or_iff_left hback.noticed_not_mem]
  | passed _ hfirst hfailure _ ih =>
    rw [List.mem_append, or_iff_right (hfirst.noticed_not_mem (by simp [hfailure]))]
    exact ih

/-- A start that is cancelled leaves nothing running and a fresh token. -/
theorem Course.of_cancelled (h : Course o lists passage)
    (hcancelled : passage.result = .error .cancelled) :
    passage.orchestrator.running = false ∧ passage.orchestrator.cancelled = false ∧
      passage.orchestrator.token = o.token + 1 := by
  induction h with
  | finished => simp at hcancelled
  | givenUp _ hback => exact ⟨hback.running, hback.fresh rfl, by simp [hback.token]⟩
  | skipped _ _ ih => exact ih hcancelled
  | failed _ hfirst _ hback =>
    obtain rfl := Except.error.inj (hback.result.symm.trans hcancelled)
    exact ⟨hback.running, hback.fresh rfl, by simp [hback.token, hfirst.token]⟩
  | passed _ hfirst _ _ ih =>
    rw [← hfirst.token]
    exact ih hcancelled

/-! ## Cancellations that are not noticed -/

/-- What is certain when a cancellation has not been noticed, and this came after it. -/
structure Unnoticed (o : Orchestrator) (passage : Passage σ StartFailure)
    (after : List Happening) : Prop where
  /-- All tasks have come to their own ends. -/
  ended : ∀ q, .spawned q ∈ passage.history → Ended q passage.history
  /-- The cancellation came in the last wave that has begun. -/
  last : ∀ q, .spawned q ∉ after
  /-- The token is still cancelled. -/
  cancelled : passage.orchestrator.cancelled = true
  token : passage.orchestrator.token = o.token

section BroughtUp

variable {members : List Provider} {wave : Wave} (h : BroughtUp o members wave passage)

include h

/-- In a wave that has not noticed the cancellation, all tasks come to their ends. -/
theorem BroughtUp.ended (hnoticed : .noticed ∉ passage.history) (q : Provider)
    (hq : .spawned q ∈ passage.history) : Ended q passage.history := by
  rw [h.history] at hnoticed hq ⊢
  exact h.coherent.ended h.settled hnoticed (h.coherent.ofWave _ hq)

/-- A cancellation during a wave comes when all members are spawned, and stays. -/
theorem BroughtUp.of_cancelled {before after : List Happening}
    (hsplit : passage.history = before ++ .cancelled :: after) :
    (∀ q, .spawned q ∉ after) ∧ passage.orchestrator.cancelled = true := by
  rw [h.history] at hsplit
  refine ⟨fun q hq => ?_, ?_⟩
  · obtain ⟨rest, heq, hrest⟩ := h.coherent.spawned
    rw [hsplit] at heq
    rcases append_split heq.symm with ⟨mid, hspawned, -⟩ | ⟨mid, -, rfl⟩
    · have hmem : .cancelled ∈ members.map Happening.spawned := by simp [hspawned]
      simp at hmem
    · exact hrest q (by simp [hq])
  · rw [h.cancelled]
    exact h.coherent.cancelled_of_mem (by simp [hsplit])

end BroughtUp

/-- A cancellation that comes while a task is outstanding and that is not noticed has come in the
last wave that has begun, and this wave has come to its own end. -/
theorem Course.unnoticed (h : Course o lists passage)
    (hresult : passage.result ≠ .error .cancelled) {p : Provider} {before after : List Happening}
    (hsplit : passage.history = before ++ .cancelled :: after) (hp : Outstanding p before) :
    Unnoticed o passage after := by
  induction h generalizing before with
  | finished => simp at hsplit
  | givenUp _ hback => simp [hback.result] at hresult
  | skipped _ _ ih => exact ih hresult hsplit hp
  | @failed _ _ _ _ first back failure _ hfirst hfailure hback =>
    have hne : failure ≠ .cancelled := by simpa [hback.result] using hresult
    have hended := hfirst.ended (hfirst.noticed_not_mem (by simp [hfailure, hne]))
    rcases append_split hsplit with ⟨mid, hwave, rfl⟩ | ⟨mid, rfl, hrest⟩
    · obtain ⟨hlast, hcancelled⟩ := hfirst.of_cancelled hwave
      refine ⟨fun q hq => ?_, fun q hq => ?_, hback.cancelled hne hcancelled, ?_⟩
      · rcases List.mem_append.1 hq with hq | hq
        · exact (hended q hq).mono (List.subset_append_left _ _)
        · exact absurd hq (hback.spawned_not_mem q)
      · rcases List.mem_append.1 hq with hq | hq
        · exact hlast q hq
        · exact hback.spawned_not_mem q hq
      · simp [hback.token, hne, hfirst.token]
    · -- no task is outstanding during the rollback
      have hspawned : .spawned p ∈ back.history := by simp [hrest, (hp.of_append (hended p)).1]
      exact absurd hspawned (hback.spawned_not_mem p)
  | @passed _ _ _ _ first next _ hfirst hfailure hnext ih =>
    have hended := hfirst.ended (hfirst.noticed_not_mem (by simp [hfailure]))
    rcases append_split hsplit with ⟨mid, hwave, rfl⟩ | ⟨mid, rfl, hrest⟩
    · obtain ⟨hlast, hcancelled⟩ := hfirst.of_cancelled hwave
      -- the next wave would begin with a look at the token
      cases hnext with
      | finished => exact ⟨by simpa using hended, by simpa using hlast, hcancelled, hfirst.token⟩
      | givenUp _ hback => simp [hback.result] at hresult
      | skipped hnot => simp [hcancelled] at hnot
      | failed hnot => simp [hcancelled] at hnot
      | passed hnot => simp [hcancelled] at hnot
    · have hlater := ih hresult hrest (hp.of_append (hended p))
      refine ⟨fun q hq => ?_, hlater.last, hlater.cancelled, hlater.token.trans hfirst.token⟩
      rcases List.mem_append.1 hq with hq | hq
      · exact (hended q hq).mono (List.subset_append_left _ _)
      · exact (hlater.ended q hq).mono (List.subset_append_right _ _)

/-! ## Whole starts -/

variable (w : World σ) (s : σ) (graph : Graph) (providers : List Provider) (order : List String)

/-- A start fails with the cancellation just when the orchestrator notices it, and then nothing is
running and the token is a fresh one. -/
theorem start_cancelled_iff (o : Orchestrator) :
    ((start w o s graph providers order).value.result = .error .cancelled ↔
      .noticed ∈ (start w o s graph providers order).value.history) ∧
    ((start w o s graph providers order).value.result = .error .cancelled →
      (start w o s graph providers order).value.orchestrator.running = false ∧
      (start w o s graph providers order).value.orchestrator.cancelled = false ∧
      (start w o s graph providers order).value.orchestrator.token = o.token + 1) := by
  rcases start_cases w o s graph providers order with
    ⟨failure, hrefusal, heq⟩ | ⟨waves, o₁, -, -, -, -, htoken, -, hcourse⟩
  · have hne : failure ≠ .cancelled := by
      rintro rfl
      simp [StartFailure.isRefusal] at hrefusal
    simp [heq, hne]
  · rw [← htoken]
    exact ⟨hcourse.cancelled_iff, hcourse.of_cancelled⟩

/-- When a cancellation that comes while a task is outstanding is not noticed, all tasks come to
their own ends, no further task is spawned and the token stays cancelled. -/
theorem start_unnoticed (o : Orchestrator) {p : Provider} {before after : List Happening}
    (hresult : (start w o s graph providers order).value.result ≠ .error .cancelled)
    (hsplit : (start w o s graph providers order).value.history = before ++ .cancelled :: after)
    (hp : Outstanding p before) :
    Unnoticed o (start w o s graph providers order).value after := by
  rcases start_cases w o s graph providers order with
    ⟨failure, -, heq⟩ | ⟨waves, o₁, -, -, -, -, htoken, -, hcourse⟩
  · simp [heq] at hsplit
  · obtain ⟨hended, hlast, hcancelled, htoken'⟩ := hcourse.unnoticed hresult hsplit hp
    exact ⟨hended, hlast, hcancelled, htoken'.trans htoken⟩

/-- A world in which a provider that starts alone is found healthy before the orchestrator looks
for the cancellation that has come in the meantime. -/
def hastyWorld : World Unit where
  wave _ members :=
    match members with
    | [_] => ([.act 0 .called, .cancel, .act 0 .launched, .act 0 .healthy], ())
    | _ => ([.cancel, .notice], ())
  stop _ _ := ((.stopped, false), ())
  isSettled_wave := by
    intro settings cancelled _ members
    split
    · rfl
    · exact congrArg (· || _) (Wave.noticed_run_cancel_notice settings _ [])

/-- A cancellation that comes while a task is outstanding can be lost: the start succeeds, and the
providers are left running with a token that is cancelled. -/
theorem cancellation_lost :
    ∃ p before after,
      (start hastyWorld {} () {} [{ name := "queue", node := "Queue" }]
        ["Queue"]).value.history = before ++ .cancelled :: after ∧
      Outstanding p before ∧
      (start hastyWorld {} () {} [{ name := "queue", node := "Queue" }]
        ["Queue"]).value.result = .ok () ∧
      (start hastyWorld {} () {} [{ name := "queue", node := "Queue" }]
        ["Queue"]).value.orchestrator.running = true ∧
      (start hastyWorld {} () {} [{ name := "queue", node := "Queue" }]
        ["Queue"]).value.orchestrator.cancelled = true := by
  refine ⟨{ name := "queue", node := "Queue" },
    [.spawned { name := "queue", node := "Queue" },
      .signalled { name := "queue", node := "Queue" } .called],
    [.signalled { name := "queue", node := "Queue" } .launched,
      .signalled { name := "queue", node := "Queue" } .healthy], by decide +kernel, ?_,
    by decide +kernel, by decide +kernel, by decide +kernel⟩
  refine ⟨List.mem_cons_self, ?_⟩
  rintro ⟨signal, hmem, hlast⟩
  simp only [List.mem_cons, List.not_mem_nil, reduceCtorEq, Happening.signalled.injEq, true_and,
    false_or, or_false] at hmem
  rw [hmem] at hlast
  cases hlast

end Orchestrator

end LocalCloud
