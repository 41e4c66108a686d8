import LocalCloud.Startup.Clock
import Mathlib.Algebra.Order.Ring.Nat

/-!
# How often a provider is asked for its health

A provider is asked at once when its start has returned, and again one poll interval after each
answer that was not good, so that its health checks begin at even distances (`checksFrom`).

* When the first check that comes out true ends before the health timeout is over, or just then, it
  is the last one (`poll_of_inTime`).
* Otherwise checks begin as long as the health timeout is not over, one at its very end included,
  and then the task gives the provider up (`poll_of_overdue`).

So the settings and the delays of a provider say how a task ends that is not given up, and how many
checks it takes (`wave_polls`).
-/

namespace LocalCloud

namespace Script

variable {settings : OrchestratorSettings} {s : Script} {deadline t past n : Nat}

/-- The time from the beginning of one health check to that of the next one. -/
def period (settings : OrchestratorSettings) (s : Script) : Nat :=
  s.healthDelay + settings.healthPollInterval

/-- The first `n` health checks when the very first one begins at `t`. -/
def checksFrom (settings : OrchestratorSettings) (s : Script) (t n : Nat) : List (Nat × Beat) :=
  (List.range n).map fun i => (t + i * s.period settings, .checked)

/-- The checks behind the first one, counted from the second one on. -/
theorem begin_succ (t i period : Nat) : t + (i + 1) * period = t + period + i * period := by
  rw [Nat.succ_mul]
  omega

theorem checksFrom_succ (n : Nat) : s.checksFrom settings t (n + 1) =
    (t, .checked) :: s.checksFrom settings (t + s.period settings) n := by
  simp only [checksFrom, List.range_succ_eq_map, List.map_cons, List.map_map, Nat.zero_mul,
    Nat.add_zero]
  exact congrArg _ (List.map_congr_left fun i _ => congrArg (·, Beat.checked) (begin_succ t i _))

/-! ## One check -/

theorem isHealthyAfter_iff :
    s.isHealthyAfter past = true ↔ s.neverHealthy = false ∧ s.unhealthyChecks ≤ past := by
  simp [isHealthyAfter]

theorem lt_unhealthyChecks {later : Nat} (h : s.isHealthyAfter past = false)
    (hlater : s.isHealthyAfter later = true) : past < s.unhealthyChecks := by
  by_contra hle
  have htrue := isHealthyAfter_iff.2 ⟨(isHealthyAfter_iff.1 hlater).1, Nat.not_lt.1 hle⟩
  simp [h] at htrue

/-- A check that comes out true in time is the last one. -/
theorem poll_of_healthy (hcheck : s.isHealthyAfter past = true)
    (hdue : t + s.healthDelay ≤ deadline) : s.poll settings deadline t past =
      [(t, .checked), (t + s.healthDelay, .signal .healthy)] := by
  rw [poll, if_neg (Nat.not_lt.2 hdue), if_pos hcheck]

/-- After a check that came out false the next one begins, if there is time for it. -/
theorem poll_of_unhealthy (hcheck : s.isHealthyAfter past = false)
    (hnext : t + s.period settings ≤ deadline)
    (hprogress : 0 < settings.healthPollInterval ∨ past < s.unhealthyChecks) :
    s.poll settings deadline t past =
      (t, .checked) :: s.poll settings deadline (t + s.period settings) (past + 1) := by
  have hsum : t + s.healthDelay + settings.healthPollInterval = t + s.period settings :=
    Nat.add_assoc _ _ _
  have hdue : ¬ deadline < t + s.healthDelay := by omega
  rw [poll, if_neg hdue, if_neg (Bool.not_eq_true _ ▸ hcheck), dif_pos (by omega), hsum]

/-- Without time for another one, a check that does not come out true in time is the last one. -/
theorem poll_of_late (hcheck : t + s.healthDelay ≤ deadline → s.isHealthyAfter past = false)
    (hlast : deadline < t + s.period settings) :
    s.poll settings deadline t past = (t, .checked) :: s.giveUp settings deadline := by
  have hsum : t + s.healthDelay + settings.healthPollInterval = t + s.period settings :=
    Nat.add_assoc _ _ _
  rw [poll]
  split
  · rfl
  · next hdue =>
    rw [if_neg (Bool.not_eq_true _ ▸ hcheck (Nat.not_lt.1 hdue)), dif_neg (by omega)]

/-! ## All checks -/

/-- When `n` more checks come out false and the next one comes out true in time, that one is the
last. -/
theorem poll_of_inTime (hearlier : ∀ i < n, s.isHealthyAfter (past + i) = false)
    (hcheck : s.isHealthyAfter (past + n) = true)
    (htime : t + n * s.period settings + s.healthDelay ≤ deadline) :
    s.poll settings deadline t past = s.checksFrom settings t (n + 1) ++
      [(t + n * s.period settings + s.healthDelay, .signal .healthy)] := by
  induction n generalizing t past with
  | zero =>
    rw [Nat.add_zero] at hcheck
    rw [Nat.zero_mul, Nat.add_zero] at htime ⊢
    rw [poll_of_healthy hcheck htime, checksFrom_succ]
    rfl
  | succ n ih =>
    have hshift : ∀ i, past + (i + 1) = past + 1 + i := by omega
    have hfirst : s.isHealthyAfter past = false := hearlier 0 (Nat.succ_pos n)
    have hprogress : past < s.unhealthyChecks := lt_unhealthyChecks hfirst hcheck
    rw [begin_succ] at htime ⊢
    have hrest : s.poll settings deadline (t + s.period settings) (past + 1) = _ := ih
      (fun i hi => hshift i ▸ hearlier (i + 1) (Nat.succ_lt_succ hi)) (hshift n ▸ hcheck) htime
    rw [poll_of_unhealthy hfirst (by omega) (.inr hprogress), checksFrom_succ, List.cons_append,
      hrest]

/-- When no check comes out true in time, checks begin until the timeout is over. -/
theorem poll_of_overdue (hinterval : 0 < settings.healthPollInterval)
    (hchecks : ∀ i ≤ n, t + i * s.period settings + s.healthDelay ≤ deadline →
      s.isHealthyAfter (past + i) = false)
    (hbegin : t + n * s.period settings ≤ deadline)
    (hlast : deadline < t + (n + 1) * s.period settings) :
    s.poll settings deadline t past =
      s.checksFrom settings t (n + 1) ++ s.giveUp settings deadline := by
  have hfirst : t + s.healthDelay ≤ deadline → s.isHealthyAfter past = false := by
    simpa using hchecks 0 (Nat.zero_le n)
  induction n generalizing t past with
  | zero =>
    rw [Nat.zero_add, Nat.one_mul] at hlast
    rw [poll_of_late hfirst hlast, checksFrom_succ]
    rfl
  | succ n ih =>
    have hshift : ∀ i, past + (i + 1) = past + 1 + i := by omega
    have hsum : s.period settings = s.healthDelay + settings.healthPollInterval := rfl
    rw [begin_succ] at hbegin hlast
    have hlater : ∀ i ≤ n,
        t + s.period settings + i * s.period settings + s.healthDelay ≤ deadline →
        s.isHealthyAfter (past + 1 + i) = false := by
      intro i hi hdue
      rw [← begin_succ] at hdue
      rw [← hshift]
      exact hchecks (i + 1) (Nat.succ_le_succ hi) hdue
    have hrest : s.poll settings deadline (t + s.period settings) (past + 1) = _ :=
      ih hlater hbegin hlast (by simpa using hlater 0 (Nat.zero_le n))
    rw [poll_of_unhealthy (hfirst (by omega)) (by omega) (.inl hinterval), checksFrom_succ,
      List.cons_append, hrest]

/-- Whether a provider turns out to be healthy before the health timeout is over: the checks that
come out false with the intervals behind them, and then the one that comes out true, take no
longer. -/
def HealthyInTime (settings : OrchestratorSettings) (s : Script) : Prop :=
  s.neverHealthy = false ∧
    s.unhealthyChecks * (s.healthDelay + settings.healthPollInterval) + s.healthDelay ≤
      settings.healthTimeout

theorem poll_of_healthyInTime (h : s.HealthyInTime settings) (t : Nat) :
    s.poll settings (t + settings.healthTimeout) t 0 =
      s.checksFrom settings t (s.unhealthyChecks + 1) ++
        [(t + s.unhealthyChecks * s.period settings + s.healthDelay, .signal .healthy)] := by
  obtain ⟨hhealthy, htime⟩ := h
  have hsum : s.period settings = s.healthDelay + settings.healthPollInterval := rfl
  rw [← hsum] at htime
  refine poll_of_inTime (fun i hi => ?_) (isHealthyAfter_iff.2 ⟨hhealthy, by omega⟩) (by omega)
  rw [← Bool.not_eq_true, isHealthyAfter_iff]
  omega

theorem poll_of_not_healthyInTime (hinterval : 0 < settings.healthPollInterval)
    (h : ¬ s.HealthyInTime settings) (t : Nat) :
    s.poll settings (t + settings.healthTimeout) t 0 =
      s.checksFrom settings t (settings.healthTimeout / s.period settings + 1) ++
        s.giveUp settings (t + settings.healthTimeout) := by
  have hperiod : 0 < s.period settings := Nat.add_pos_right _ hinterval
  refine poll_of_overdue hinterval (fun i _ hdue => ?_) ?_ ?_
  · rw [Nat.zero_add, ← Bool.not_eq_true, isHealthyAfter_iff]
    rintro ⟨hhealthy, hpast⟩
    have hearlier : s.unhealthyChecks * s.period settings ≤ i * s.period settings :=
      Nat.mul_le_mul_right _ hpast
    refine h ⟨hhealthy, ?_⟩
    show s.unhealthyChecks * s.period settings + s.healthDelay ≤ settings.healthTimeout
    omega
  · exact Nat.add_le_add_left (Nat.div_mul_le_self _ _) t
  · exact Nat.add_lt_add_left (Nat.lt_mul_of_div_lt (Nat.lt_succ_self _) hperiod) t

/-! ## What a task does -/

/-- How many health checks begin. -/
def checks (beats : List (Nat × Beat)) : Nat := beats.countP (·.2 = .checked)

/-- When a stop of the provider is called. -/
def stopCalls (beats : List (Nat × Beat)) : List Nat :=
  beats.filterMap fun
    | (t, .signal .overdue) | (t, .stopCalled) => some t
    | _ => none

/-- When and how a stop call ends. -/
def stopEnds (beats : List (Nat × Beat)) : List (Nat × StopEnd) :=
  beats.filterMap fun
    | (t, .signal (.stopEnded ending)) | (t, .stopEnded ending) => some (t, ending)
    | _ => none

section Append

variable (first rest : List (Nat × Beat))

@[simp] theorem signals_append : signals (first ++ rest) = signals first ++ signals rest :=
  List.filterMap_append

@[simp] theorem checks_append : checks (first ++ rest) = checks first + checks rest :=
  List.countP_append

@[simp] theorem stopCalls_append : stopCalls (first ++ rest) = stopCalls first ++ stopCalls rest :=
  List.filterMap_append

@[simp] theorem stopEnds_append : stopEnds (first ++ rest) = stopEnds first ++ stopEnds rest :=
  List.filterMap_append

end Append

section Checks

variable (settings s t n)

theorem eq_checked_of_mem_checksFrom {beat : Nat × Beat} (h : beat ∈ s.checksFrom settings t n) :
    beat.2 = .checked := by
  obtain ⟨_, -, rfl⟩ := List.mem_map.1 h
  rfl

@[simp] theorem checks_checksFrom : checks (s.checksFrom settings t n) = n := by
  have hall : ∀ beat ∈ s.checksFrom settings t n, decide (beat.2 = .checked) = true := fun _ h =>
    decide_eq_true (eq_checked_of_mem_checksFrom settings s t n h)
  rw [checks, List.countP_eq_length.2 hall, checksFrom, List.length_map, List.length_range]

@[simp] theorem signals_checksFrom : signals (s.checksFrom settings t n) = [] := by
  refine List.filterMap_eq_nil_iff.2 fun beat h => ?_
  rw [eq_checked_of_mem_checksFrom settings s t n h]
  rfl

@[simp] theorem stopCalls_checksFrom : stopCalls (s.checksFrom settings t n) = [] := by
  simp [stopCalls, checksFrom, List.filterMap_map]

@[simp] theorem stopEnds_checksFrom : stopEnds (s.checksFrom settings t n) = [] := by
  simp [stopEnds, checksFrom, List.filterMap_map]

end Checks

/-- What a task does up to the return of the start, when it returns without an error. -/
def lead (s : Script) (t : Nat) : List (Nat × Beat) :=
  (t, .startCalled) :: (if s.cancels then [(t + s.startDelay, .cancels)] else []) ++
    [(t + s.startDelay, .signal .launched)]

theorem timeline_of_launches (hlives : s.dies = false) (hstarts : s.startError? = none) (t : Nat) :
    s.timeline settings t = s.lead t ++
      s.poll settings (t + s.startDelay + settings.healthTimeout) (t + s.startDelay) 0 := by
  simp [timeline, lead, hlives, hstarts]

section Lead

variable (s : Script) (t : Nat)

@[simp] theorem signals_lead : signals (s.lead t) = [.called, .launched] := by
  cases h : s.cancels <;> simp [signals, lead, h, Beat.signal?]

@[simp] theorem checks_lead : checks (s.lead t) = 0 := by
  cases h : s.cancels <;> simp [checks, lead, h]

@[simp] theorem stopCalls_lead : stopCalls (s.lead t) = [] := by
  cases h : s.cancels <;> simp [stopCalls, lead, h]

@[simp] theorem stopEnds_lead : stopEnds (s.lead t) = [] := by
  cases h : s.cancels <;> simp [stopEnds, lead, h]

end Lead

/-- A stop call takes no longer than the stop timeout. -/
theorem stopEnd_le (settings : OrchestratorSettings) (s : Script) (t : Nat) :
    (s.stopEnd settings t).1 ≤ t + settings.stopTimeout := by
  unfold stopEnd
  split
  · next hle => exact Nat.add_le_add_left hle t
  · exact Nat.le_refl _

/-- Nothing behind the return of the start cancels it. -/
theorem cancels_not_mem_poll (settings : OrchestratorSettings) (s : Script)
    (deadline t past : Nat) : ∀ beat ∈ s.poll settings deadline t past, beat.2 ≠ .cancels := by
  have hgiveUp : ∀ beat ∈ s.giveUp settings deadline, beat.2 ≠ .cancels := by simp [giveUp]
  fun_induction poll settings s deadline t past with
  | case1 t past next ih =>
    refine List.forall_mem_cons.2 ⟨by simp, ?_⟩
    split
    · exact hgiveUp
    · next hdue =>
      split
      · simp
      · split
        · next h => exact ih hdue h
        · exact hgiveUp

theorem cancels_not_mem_timeline (h : s.cancels = false) (settings : OrchestratorSettings)
    (t : Nat) : ∀ beat ∈ s.timeline settings t, beat.2 ≠ .cancels := by
  simp only [timeline, h, Bool.false_eq_true, if_false, List.cons_append, List.nil_append]
  refine List.forall_mem_cons.2 ⟨by simp, ?_⟩
  split
  · simp
  · split
    · simp
    · exact List.forall_mem_cons.2 ⟨by simp, cancels_not_mem_poll settings s _ _ _⟩

/-- What a task has done when it is over: what it has learned, how many health checks have begun,
and which stop calls it has made. -/
structure Took (beats : List (Nat × Beat)) (learned : List Signal) (count : Nat)
    (called : List Nat) (ended : List (Nat × StopEnd)) : Prop where
  signals : signals beats = learned
  checks : checks beats = count
  stopCalls : stopCalls beats = called
  stopEnds : stopEnds beats = ended

theorem took_of_poll (hlives : s.dies = false) (hstarts : s.startError? = none)
    {beats : List (Nat × Beat)}
    (h : s.poll settings (t + s.startDelay + settings.healthTimeout) (t + s.startDelay) 0 =
      s.checksFrom settings (t + s.startDelay) n ++ beats) (hchecks : checks beats = 0) :
    Took (s.timeline settings t) (.called :: .launched :: signals beats) n (stopCalls beats)
      (stopEnds beats) := by
  rw [timeline_of_launches hlives hstarts, h]
  constructor <;> simp [hchecks]

/-- The task of a provider that is healthy in time ends with the first check that comes out
true. -/
theorem took_of_healthyInTime (hlives : s.dies = false) (hstarts : s.startError? = none)
    (h : s.HealthyInTime settings) (t : Nat) :
    Took (s.timeline settings t) [.called, .launched, .healthy] (s.unhealthyChecks + 1) [] [] :=
  took_of_poll hlives hstarts (poll_of_healthyInTime h _) rfl

/-- Any other task makes a single stop call, when the health timeout is over. -/
theorem took_of_not_healthyInTime (hinterval : 0 < settings.healthPollInterval)
    (hlives : s.dies = false) (hstarts : s.startError? = none) (h : ¬ s.HealthyInTime settings)
    (t : Nat) :
    Took (s.timeline settings t)
      [.called, .launched, .overdue,
        .stopEnded (s.stopEnd settings (t + s.startDelay + settings.healthTimeout)).2]
      (settings.healthTimeout / s.period settings + 1)
      [t + s.startDelay + settings.healthTimeout]
      [s.stopEnd settings (t + s.startDelay + settings.healthTimeout)] :=
  took_of_poll hlives hstarts (poll_of_not_healthyInTime hinterval h _) rfl

end Script

open Script

namespace Clock

variable {c : Clock} {members : List Provider} {place : Nat} {provider : Provider}

/-- A wave is not cancelled from outside before its time, nor by members that do not do it. -/
theorem cancellation?_eq_none (hcancelAt : c.cancelAt? = none)
    (hcancels : ∀ p ∈ members, p.script.cancels = false) :
    c.cancellation? (c.moments members) = none := by
  have hwithin : (c.moments members).filterMap
      (fun m => if m.beat = .cancels then some m.time else none) = [] := by
    refine List.filterMap_eq_nil_iff.2 fun m hm => if_neg fun hbeat => ?_
    rw [moments, List.mem_mergeSort, List.mem_flatMap] at hm
    obtain ⟨⟨p, place⟩, hp, hm⟩ := hm
    obtain ⟨⟨time, beat⟩, htimeline, rfl⟩ := List.mem_map.1 hm
    have hlisted : p ∈ members := List.fst_mem_of_mem_zipIdx hp
    exact cancels_not_mem_timeline (hcancels p hlisted) _ _ _ htimeline hbeat
  simp [cancellation?, hwithin, hcancelAt]

/-- What the member at a place of a wave does while the wave is starting. -/
def beatsAt (c : Clock) (members : List Provider) (place : Nat) : List (Nat × Beat) :=
  (((c.wave members).2.journal.drop c.journal.length).filter (·.place = place)).map fun m =>
    (m.time, m.beat)

/-- How the task at a place of a wave has ended when the wave is over. -/
def outcomeAt? (c : Clock) (members : List Provider) (place : Nat) : Option TaskOutcome :=
  (((Wave.begin members false).run c.settings (c.wave members).1).value.tasks[place]?).bind
    (·.outcome?)

theorem beatsAt_of_uncancelled (hmember : members[place]? = some provider)
    (huncancelled : c.cancellation? (c.moments members) = none) :
    c.beatsAt members place = provider.script.timeline c.settings c.now := by
  have hjournal : (c.wave members).2.journal = c.journal ++ c.moments members := by
    simp only [wave, huncancelled]
  rw [beatsAt, hjournal, List.drop_left, c.filter_moments_of_getElem? hmember, momentsOf,
    List.map_map]
  exact List.map_id _

theorem outcomeAt?_of_uncancelled (hmember : members[place]? = some provider)
    (huncancelled : c.cancellation? (c.moments members) = none) :
    c.outcomeAt? members place =
      ((signals (provider.script.timeline c.settings c.now)).foldl (Task.step c.settings)
        { provider }).outcome? := by
  have hevents : (c.wave members).1 = (c.moments members).filterMap Moment.event? := by
    simp only [wave, huncancelled]
  have htask : (Wave.begin members false).tasks[place]? = some { provider } := by
    simp [Wave.begin, hmember]
  rw [outcomeAt?, Wave.getElem?_tasks_run, htask, hevents, signalsAt_filterMap_event?,
    c.filter_moments_of_getElem? hmember, momentsOf, List.filterMap_map]
  rfl

/-- In a wave that nobody cancels, whoever else is in it, the task of a provider whose start returns
without an error ends with the provider up exactly when the provider is healthy in time, and then
with the check that came out true.  Otherwise it ends with the health timeout, during which a check
has begun every so often, the first one at its beginning and perhaps one at its end, and with a
single stop call, which takes no longer than the stop timeout. -/
theorem wave_polls (hmember : members[place]? = some provider)
    (huncancelled : c.cancellation? (c.moments members) = none)
    (hinterval : 0 < c.settings.healthPollInterval) (hlives : provider.script.dies = false)
    (hstarts : provider.script.startError? = none) :
    (c.outcomeAt? members place = some .running ↔ provider.script.HealthyInTime c.settings) ∧
    (provider.script.HealthyInTime c.settings →
      checks (c.beatsAt members place) = provider.script.unhealthyChecks + 1 ∧
      stopCalls (c.beatsAt members place) = []) ∧
    (¬ provider.script.HealthyInTime c.settings →
      c.outcomeAt? members place =
        some (.failed (.unhealthy provider.name c.settings.healthTimeout)) ∧
      checks (c.beatsAt members place) = c.settings.healthTimeout /
        (provider.script.healthDelay + c.settings.healthPollInterval) + 1 ∧
      stopCalls (c.beatsAt members place) =
        [c.now + provider.script.startDelay + c.settings.healthTimeout] ∧
      ∃ ended ending, stopEnds (c.beatsAt members place) = [(ended, ending)] ∧
        ended ≤ c.now + provider.script.startDelay + c.settings.healthTimeout +
          c.settings.stopTimeout) := by
  rw [beatsAt_of_uncancelled hmember huncancelled, outcomeAt?_of_uncancelled hmember huncancelled]
  by_cases h : provider.script.HealthyInTime c.settings
  · have htook := took_of_healthyInTime hlives hstarts h c.now
    rw [htook.signals, htook.checks, htook.stopCalls]
    exact ⟨iff_of_true rfl h, fun _ => ⟨rfl, rfl⟩, absurd h⟩
  · have htook := took_of_not_healthyInTime hinterval hlives hstarts h c.now
    rw [htook.signals, htook.checks, htook.stopCalls, htook.stopEnds]
    have hfails : (some (TaskOutcome.failed (.unhealthy provider.name c.settings.healthTimeout)) :
        Option TaskOutcome) ≠ some .running := by simp
    exact ⟨iff_of_false hfails h, fun htime => absurd htime h, fun _ =>
      ⟨rfl, rfl, rfl, _, _, rfl, stopEnd_le c.settings provider.script _⟩⟩

/-- Virtual time with a health timeout at whose very end a check can come out or begin. -/
def tight : Clock where
  settings := { healthTimeout := 950, healthPollInterval := 250, stopTimeout := 100 }

/-- A table that is found healthy at the last moment, and a topic that never is and whose last check
begins at the last moment. -/
def lastMoment : List Provider :=
  [{ name := "orders", node := "Orders", script := { healthDelay := 50, unhealthyChecks := 3 } },
    { name := "mail", node := "Mail",
      script := { startDelay := 20, healthDelay := 225, neverHealthy := true, stopDelay := 500 } }]

theorem lastMoment_polls :
    tight.outcomeAt? lastMoment 0 = some .running ∧ checks (tight.beatsAt lastMoment 0) = 4 ∧
    stopCalls (tight.beatsAt lastMoment 0) = [] ∧
    tight.outcomeAt? lastMoment 1 = some (.failed (.unhealthy "mail" 950)) ∧
    checks (tight.beatsAt lastMoment 1) = 3 ∧ stopCalls (tight.beatsAt lastMoment 1) = [970] := by
  have huncancelled : tight.cancellation? (tight.moments lastMoment) = none :=
    cancellation?_eq_none rfl (by decide)
  have horders : lastMoment[0]? = some lastMoment[0] := rfl
  have hmail : lastMoment[1]? = some lastMoment[1] := rfl
  obtain ⟨hup, htable, -⟩ := wave_polls horders huncancelled (by decide) rfl rfl
  obtain ⟨-, -, htopic⟩ := wave_polls hmail huncancelled (by decide) rfl rfl
  obtain ⟨hchecks, hcalls⟩ := htable ⟨rfl, by decide⟩
  obtain ⟨houtcome, hchecks', hcalls', -⟩ := htopic fun h => absurd h.1 (by decide)
  exact ⟨hup.2 ⟨rfl, by decide⟩, hchecks, hcalls, houtcome, hchecks', hcalls'⟩

end Clock

end LocalCloud
