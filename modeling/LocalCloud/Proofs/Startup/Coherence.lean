import LocalCloud.Proofs.Startup.Life

/-!
# Waves and their histories

Whatever happens to a wave, its history and its tasks agree (`Wave.Coherent`): each task has lived
what the history tells of its provider, and nothing is told of anybody else.  From this it follows
what a settled wave has done with its members: whoever is up has been called, has returned and has
been found healthy, and whoever has returned is to be stopped by the orchestrator unless its own
task has stopped it.
-/

namespace LocalCloud

/-- What can happen to a wave with these members. -/
def Happening.OfWave (members : List Provider) : Happening → Prop
  | .spawned p | .signalled p _ => p ∈ members
  | .cancelled | .noticed => True
  | .stopCalled _ | .stopEnded _ _ => False

/-- All members are spawned at first, and nobody is spawned later. -/
def SpawnedFirst (members : List Provider) (history : List Happening) : Prop :=
  ∃ rest, history = members.map .spawned ++ rest ∧ ∀ q, .spawned q ∉ rest

section Snoc

variable {members : List Provider} {history : List Happening} {h : Happening}

theorem SpawnedFirst.snoc (hfirst : SpawnedFirst members history) (hh : ∀ q, h ≠ .spawned q) :
    SpawnedFirst members (history ++ [h]) := by
  obtain ⟨rest, rfl, hrest⟩ := hfirst
  refine ⟨rest ++ [h], List.append_assoc .., fun q hq => ?_⟩
  rcases List.mem_append.1 hq with hq | hq
  · exact hrest q hq
  · exact hh q (List.mem_singleton.1 hq).symm

theorem ofWave_snoc (hold : ∀ x ∈ history, x.OfWave members) (hh : h.OfWave members) :
    ∀ x ∈ history ++ [h], x.OfWave members := by
  intro x hx
  rcases List.mem_append.1 hx with hx | hx
  · exact hold x hx
  · rw [List.mem_singleton.1 hx]
    exact hh

/-- Something that no task learns leaves all lives as they are. -/
theorem signalsOf_snoc (hh : ∀ p signal, h ≠ .signalled p signal) (p : Provider) :
    signalsOf p (history ++ [h]) = signalsOf p history := by
  rw [signalsOf_append, signalsOf_cons_of_ne (hh p), signalsOf_nil, List.append_nil]

end Snoc

namespace Wave

/-- What a task learns does not change whose task it is. -/
theorem map_provider_act (settings : OrchestratorSettings) (wave : Wave) (place : Nat)
    (signal : Signal) :
    (wave.act settings place signal).value.tasks.map (·.provider) =
      wave.tasks.map (·.provider) := by
  refine List.ext_getElem? fun i => ?_
  rw [List.getElem?_map, getElem?_tasks_act, List.getElem?_map, Option.map_map]
  congr 1
  funext t
  by_cases hi : place = i <;> simp [hi]

/-- Without a cancellation that the history tells of, nothing is cancelled or noticed. -/
def Quiet (wave : Wave) : Prop :=
  .cancelled ∉ wave.history → wave.cancelled = false ∧ wave.noticed = false

theorem quiet_begin (members : List Provider) : (Wave.begin members false).Quiet :=
  fun _ => ⟨rfl, rfl⟩

theorem Quiet.step {wave : Wave} (h : wave.Quiet) (settings : OrchestratorSettings)
    (event : WaveEvent) : (wave.step settings event).value.Quiet := by
  cases event with
  | act place signal =>
    show (wave.act settings place signal).value.Quiet
    unfold act
    split
    · exact h
    split
    · exact h
    · intro hcancelled
      exact h fun hmem => hcancelled (List.mem_append_left _ hmem)
  | cancel =>
    intro hcancelled
    exact absurd (List.mem_append_right _ List.mem_cons_self) hcancelled
  | notice =>
    show wave.notice.Quiet
    unfold notice
    split
    · next hnotice =>
      intro hcancelled
      have hnot := (h fun hmem => hcancelled (List.mem_append_left _ hmem)).1
      simp [hnot] at hnotice
    · exact h

theorem Quiet.run {wave : Wave} (h : wave.Quiet) (settings : OrchestratorSettings)
    (events : List WaveEvent) : (wave.run settings events).value.Quiet := by
  induction events generalizing wave with
  | nil => exact h
  | cons event events ih => exact ih (h.step settings event)

/-- The tasks of a wave and its history agree. -/
structure Coherent (settings : OrchestratorSettings) (members : List Provider) (wave : Wave) :
    Prop where
  providers : wave.tasks.map (·.provider) = members
  lived : ∀ t ∈ wave.tasks, t.Lived settings (signalsOf t.provider wave.history)
  ofWave : ∀ h ∈ wave.history, h.OfWave members
  spawned : SpawnedFirst members wave.history
  noticed_iff : wave.noticed = true ↔ .noticed ∈ wave.history
  cancelled_of_mem : .cancelled ∈ wave.history → wave.cancelled = true

namespace Coherent

variable {settings : OrchestratorSettings} {members : List Provider} {wave : Wave}

/-! ## Every wave is coherent -/

theorem begin (members : List Provider) (cancelled : Bool) :
    (Wave.begin members cancelled).Coherent settings members where
  providers := by simp [Wave.begin, Function.comp_def]
  lived := by
    intro t ht
    simp only [Wave.begin, List.mem_map] at ht
    obtain ⟨p, -, rfl⟩ := ht
    have hpast : signalsOf p (Wave.begin members cancelled).history = [] := by
      refine List.filterMap_eq_nil_iff.2 fun h hh => ?_
      simp only [Wave.begin, List.mem_map] at hh
      obtain ⟨q, -, rfl⟩ := hh
      rfl
    rw [hpast]
    exact .spawned p
  ofWave := by
    intro h hh
    simp only [Wave.begin, List.mem_map] at hh
    obtain ⟨p, hp, rfl⟩ := hh
    exact hp
  spawned := ⟨[], (List.append_nil _).symm, fun _ => List.not_mem_nil⟩
  noticed_iff := by simp [Wave.begin]
  cancelled_of_mem := by simp [Wave.begin]

theorem cancel (h : wave.Coherent settings members) : wave.cancel.Coherent settings members where
  providers := h.providers
  lived := by
    intro t ht
    rw [Wave.cancel, signalsOf_snoc (by simp)]
    exact h.lived t ht
  ofWave := ofWave_snoc h.ofWave trivial
  spawned := h.spawned.snoc (by simp)
  noticed_iff := by simpa [Wave.cancel] using h.noticed_iff
  cancelled_of_mem := fun _ => rfl

theorem notice (h : wave.Coherent settings members) : wave.notice.Coherent settings members := by
  unfold Wave.notice
  split
  · next hc =>
    simp only [Bool.and_eq_true, Bool.not_eq_true'] at hc
    exact {
      providers := h.providers
      lived := by
        intro t ht
        rw [signalsOf_snoc (by simp)]
        exact h.lived t ht
      ofWave := ofWave_snoc h.ofWave trivial
      spawned := h.spawned.snoc (by simp)
      noticed_iff := by simp
      cancelled_of_mem := fun _ => hc.1 }
  · exact h

theorem act (hnodup : members.Nodup) (h : wave.Coherent settings members) (place : Nat)
    (signal : Signal) : (wave.act settings place signal).value.Coherent settings members := by
  have hproviders := map_provider_act settings wave place signal
  unfold Wave.act at hproviders ⊢
  split
  · exact h
  next task htask =>
  simp only [htask] at hproviders
  split
  · exact h
  next hnext =>
  rw [if_neg hnext] at hproviders
  obtain ⟨phase, hphase⟩ : ∃ phase, task.next? settings signal = some phase :=
    Option.ne_none_iff_exists'.1 (by simpa using hnext)
  have hmem : task ∈ wave.tasks := List.mem_of_getElem? htask
  refine { providers := hproviders.trans h.providers, lived := ?_, ofWave := ?_,
           spawned := h.spawned.snoc (by simp), noticed_iff := ?_, cancelled_of_mem := ?_ }
  · intro t ht
    obtain ⟨i, hi⟩ := List.mem_iff_getElem?.1 ht
    rw [List.getElem?_set] at hi
    split at hi
    · -- the task itself has learnt one thing more
      split at hi
      · obtain rfl := Option.some.inj hi
        rw [Task.provider_step, signalsOf_append]
        simpa using (h.lived task hmem).step hphase
      · simp at hi
    · -- no other task has the same provider
      next hplace =>
      have hne : task.provider ≠ t.provider := by
        intro heq
        have hlt : place < (wave.tasks.map (·.provider)).length := by
          simpa using (List.getElem?_eq_some_iff.1 htask).1
        refine hplace ((List.getElem?_inj hlt (h.providers ▸ hnodup)).1 ?_)
        simp [htask, hi, heq]
      rw [signalsOf_append, signalsOf_signalled_cons, if_neg hne, signalsOf_nil, List.append_nil]
      exact h.lived t (List.mem_of_getElem? hi)
  · refine ofWave_snoc h.ofWave ?_
    show task.provider ∈ members
    rw [← h.providers]
    exact List.mem_map_of_mem hmem
  · simpa using h.noticed_iff
  · simpa using h.cancelled_of_mem

theorem step (hnodup : members.Nodup) (h : wave.Coherent settings members) (event : WaveEvent) :
    (wave.step settings event).value.Coherent settings members := by
  cases event with
  | act place signal => exact h.act hnodup place signal
  | cancel => exact h.cancel
  | notice => exact h.notice

theorem run (hnodup : members.Nodup) (h : wave.Coherent settings members)
    (events : List WaveEvent) : (wave.run settings events).value.Coherent settings members := by
  induction events generalizing wave with
  | nil => exact h
  | cons event events ih => exact ih (h.step hnodup event)

/-! ## What a settled wave has done -/

/-- Every member has a task, and it has lived what is told of the member. -/
theorem exists_lived (h : wave.Coherent settings members) {p : Provider} (hp : p ∈ members) :
    ∃ t ∈ wave.tasks, t.provider = p ∧ t.Lived settings (signalsOf p wave.history) := by
  rw [← h.providers, List.mem_map] at hp
  obtain ⟨t, ht, rfl⟩ := hp
  exact ⟨t, ht, rfl, h.lived t ht⟩

/-- A provider is started when its task is up or has been given up with the provider launched. -/
theorem mem_started_iff {p : Provider} :
    p ∈ wave.started ↔
      ∃ t ∈ wave.tasks, t.provider = p ∧ (Wave.fate wave.noticed t).isStarted = true := by
  simp only [Wave.started, Wave.fates, List.mem_map, List.mem_filter]
  constructor
  · rintro ⟨_, ⟨⟨t, ht, rfl⟩, hfate⟩, rfl⟩
    exact ⟨t, ht, rfl, hfate⟩
  · rintro ⟨t, ht, rfl, hfate⟩
    exact ⟨_, ⟨⟨t, ht, rfl⟩, hfate⟩, rfl⟩

/-- What has to be stopped by the orchestrator has been launched. -/
theorem launched_mem_of_started (h : wave.Coherent settings members) {p : Provider}
    (hp : p ∈ wave.started) : .signalled p .launched ∈ wave.history := by
  obtain ⟨t, ht, rfl, hfate⟩ := mem_started_iff.1 hp
  have hlived := h.lived t ht
  refine mem_signalsOf.1 (hlived.launched_mem ?_)
  unfold Wave.fate at hfate
  split at hfate
  · -- a task that is up
    next hout => exact hlived.launched_of_running hout
  · simp [Fate.isStarted] at hfate
  · -- a task that has been given up
    split at hfate
    · simp [Fate.isStarted] at hfate
    · split at hfate
      · assumption
      · simp [Fate.isStarted] at hfate

/-- A task that is being checked when the wave is settled has been given up. -/
theorem isStarted_of_up (hset : wave.isSettled = true) {t : Task} (ht : t ∈ wave.tasks)
    (hl : t.launched = true) (hup : t.phase = .polling ∨ t.phase = .finished .running) :
    (Wave.fate wave.noticed t).isStarted = true := by
  rcases hup with hup | hup
  · have hout : t.outcome? = none := by simp [Task.outcome?, hup]
    have hnoticed : wave.noticed = true := by
      simp only [Wave.isSettled, Bool.or_eq_true, List.all_eq_true] at hset
      rcases hset with hset | hset
      · exact hset
      · simpa [hout] using hset t ht
    simp [Wave.fate, hout, hnoticed, hl, Fate.isStarted]
  · simp [Wave.fate, Task.outcome?, hup, Fate.isStarted]

/-- Whoever has returned from its start is stopped by its own task or is left to the
orchestrator, unless the task has died. -/
theorem overdue_or_started (h : wave.Coherent settings members) (hset : wave.isSettled = true)
    {p : Provider} {before after : List Happening}
    (hsplit : wave.history = before ++ .signalled p .launched :: after)
    (hdied : .signalled p .died ∉ wave.history) :
    .signalled p .overdue ∈ after ∨ p ∈ wave.started := by
  have hp : p ∈ members := h.ofWave (.signalled p .launched) (by simp [hsplit])
  obtain ⟨t, ht, rfl, hlived⟩ := h.exists_lived hp
  have hafter : Signal.died ∉ signalsOf t.provider after := by
    rw [mem_signalsOf]
    intro hmem
    exact hdied (by simp [hsplit, hmem])
  rw [hsplit, signalsOf_append, signalsOf_signalled_cons, if_pos rfl] at hlived
  rcases hlived.overdue_or_up hafter with hoverdue | ⟨hl, hup⟩
  · exact .inl (mem_signalsOf.1 hoverdue)
  · exact .inr (mem_started_iff.2 ⟨t, ht, rfl, isStarted_of_up hset ht hl hup⟩)

/-- A task calls a stop only after the provider has returned from its start. -/
theorem launched_before_overdue (h : wave.Coherent settings members) {p : Provider}
    {before after : List Happening}
    (hsplit : wave.history = before ++ .signalled p .overdue :: after) :
    .signalled p .launched ∈ before := by
  have hp : p ∈ members := h.ofWave (.signalled p .overdue) (by simp [hsplit])
  obtain ⟨t, ht, rfl, hlived⟩ := h.exists_lived hp
  rw [hsplit, signalsOf_append, signalsOf_signalled_cons, if_pos rfl] at hlived
  exact mem_signalsOf.1 hlived.launched_mem_of_overdue

/-- In a wave that has not failed, every member has come up. -/
theorem signalsOf_of_failure?_none (h : wave.Coherent settings members)
    (hfail : wave.failure? = none) {p : Provider} (hp : p ∈ members) :
    signalsOf p wave.history = [.called, .launched, .healthy] := by
  obtain ⟨t, ht, rfl, hlived⟩ := h.exists_lived hp
  unfold Wave.failure? at hfail
  split at hfail
  · simp at hfail
  next hnoticed =>
  have hfate : (Wave.fate wave.noticed t).failure? = none := by
    rw [List.findSome?_eq_none_iff] at hfail
    exact hfail _ (List.mem_map_of_mem ht)
  refine hlived.eq_of_running ?_
  unfold Wave.fate at hfate
  split at hfate
  · assumption
  · simp [Fate.failure?] at hfate
  · simp [hnoticed, Fate.failure?] at hfate

/-- A task learns nothing twice, so that only members learn anything, and once. -/
theorem count_signalled_le (h : wave.Coherent settings members) (p : Provider) (signal : Signal) :
    wave.history.count (.signalled p signal) ≤ members.count p := by
  by_cases hp : p ∈ members
  · obtain ⟨t, -, -, hlived⟩ := h.exists_lived hp
    rw [count_signalled]
    exact Nat.le_trans (List.nodup_iff_count.1 hlived.nodup signal) (List.count_pos_iff.2 hp)
  · have hnot : .signalled p signal ∉ wave.history := fun hmem => hp (h.ofWave _ hmem)
    rw [List.count_eq_zero_of_not_mem hnot]
    exact Nat.zero_le _

/-- In a wave that has not been given up, every task has come to its end. -/
theorem ended (h : wave.Coherent settings members) (hset : wave.isSettled = true)
    (hnoticed : .noticed ∉ wave.history) {p : Provider} (hp : p ∈ members) :
    Ended p wave.history := by
  obtain ⟨t, ht, rfl, hlived⟩ := h.exists_lived hp
  simp only [Wave.isSettled, Bool.or_eq_true, List.all_eq_true] at hset
  rcases hset with hset | hset
  · exact absurd (h.noticed_iff.1 hset) hnoticed
  · obtain ⟨signal, hmem, hlast⟩ := hlived.isSome_outcome?_iff.1 (hset t ht)
    exact ⟨signal, mem_signalsOf.1 hmem, hlast⟩

/-- A task that has been given up or has failed does not fail with the cancellation. -/
theorem failure?_fate_ne_cancelled (h : wave.Coherent settings members) {t : Task}
    (ht : t ∈ wave.tasks) (noticed : Bool) : (Wave.fate noticed t).failure? ≠ some .cancelled := by
  unfold Wave.fate
  split
  · simp [Fate.failure?]
  · next failure hout =>
    simpa [Fate.failure?] using (h.lived t ht).failure_ne_cancelled hout
  · split
    · simp [Fate.failure?]
    · split <;> simp [Fate.failure?]

/-- The failure of a wave is the cancellation just when the orchestrator has noticed it. -/
theorem failure?_eq_cancelled_iff (h : wave.Coherent settings members) :
    wave.failure? = some .cancelled ↔ .noticed ∈ wave.history := by
  rw [← h.noticed_iff, Wave.failure?]
  by_cases hnoticed : wave.noticed = true
  · simp [hnoticed]
  · refine ⟨fun hfail => ?_, fun hn => absurd hn hnoticed⟩
    rw [if_neg hnoticed] at hfail
    obtain ⟨⟨p, fate⟩, hmem, hfailure⟩ := List.exists_of_findSome?_eq_some hfail
    obtain ⟨t, ht, hfate⟩ := List.mem_map.1 hmem
    obtain ⟨-, rfl⟩ := Prod.mk.inj hfate
    exact absurd hfailure (h.failure?_fate_ne_cancelled ht wave.noticed)

end Coherent

end Wave

end LocalCloud
