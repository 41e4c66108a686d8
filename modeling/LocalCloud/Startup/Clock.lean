import LocalCloud.Startup.Orchestrator

/-!
# A world on virtual time

Here providers run as their scripts say, on a clock that only moves when all of them are waiting,
and then straight to the next moment at which something is due.  What is due at the moment at
which a timeout ends is still in time, and whatever the tasks do at one moment they do before the
orchestrator reacts to anything that happened at that moment.
-/

namespace LocalCloud

/-- Something that a provider does at a moment. -/
inductive Beat where
  /-- Its start is called. -/
  | startCalled
  /-- It cancels the startup. -/
  | cancels
  /-- Its health is asked for. -/
  | checked
  /-- Its task learns something. -/
  | signal (signal : Signal)
  /-- The orchestrator calls its stop. -/
  | stopCalled
  /-- That call ends. -/
  | stopEnded (ending : StopEnd)
  deriving DecidableEq

/-- What the task of the provider learns by it. -/
def Beat.signal? : Beat → Option Signal
  | .startCalled => some .called
  | .signal learnt => some learnt
  | _ => none

namespace Script

variable (settings : OrchestratorSettings) (s : Script)

/-- When and how a stop call ends that begins at `t`. -/
def stopEnd (t : Nat) : Nat × StopEnd :=
  if s.stopDelay ≤ settings.stopTimeout then
    (t + s.stopDelay, match s.stopError? with
      | none => .stopped
      | some reason => .refused reason)
  else (t + settings.stopTimeout, .overdue)

/-- What a task does from the end of the health timeout on. -/
def giveUp (deadline : Nat) : List (Nat × Beat) :=
  let (t, ending) := s.stopEnd settings deadline
  [(deadline, .signal .overdue), (t, .signal (.stopEnded ending))]

/-- What a task does from a health check on that begins at `t`, after `past` checks that came out
false. -/
def poll (deadline t past : Nat) : List (Nat × Beat) :=
  let next := t + s.healthDelay + settings.healthPollInterval
  (t, .checked) ::
    if deadline < t + s.healthDelay then s.giveUp settings deadline
    else if s.isHealthyAfter past then [(t + s.healthDelay, .signal .healthy)]
    else if _ : next ≤ deadline ∧ (t < next ∨ past < s.unhealthyChecks) then
      poll deadline next (past + 1)
    else s.giveUp settings deadline
termination_by (deadline - t) + (s.unhealthyChecks - past)
decreasing_by omega

/-- What a task does whose start is called at `t`. -/
def timeline (t : Nat) : List (Nat × Beat) :=
  let back := t + s.startDelay
  (t, .startCalled) ::
    (if s.cancels then [(back, .cancels)] else []) ++
    if s.dies then [(back, .signal .died)]
    else match s.startError? with
      | some reason => [(back, .signal (.refused reason))]
      | none =>
        (back, .signal .launched) :: s.poll settings (back + settings.healthTimeout) back 0

/-! ## Timelines -/

/-- The signals of a task, in order. -/
def signals (beats : List (Nat × Beat)) : List Signal := beats.filterMap (·.2.signal?)

/-- Health checks come to an end: the provider is healthy or the task gives it up. -/
theorem foldl_signals_poll (settings' : OrchestratorSettings) (deadline t past : Nat) (task : Task)
    (hphase : task.phase = .polling) :
    ((signals (s.poll settings deadline t past)).foldl (Task.step settings') task).outcome?.isSome
      := by
  have hgiveUp : ((signals (s.giveUp settings deadline)).foldl (Task.step settings')
      task).outcome?.isSome := by
    simp [signals, giveUp, Beat.signal?, Task.step, Task.next?, hphase, Task.outcome?]
  fun_induction poll settings s deadline t past with
  | case1 t past next ih =>
    rw [signals, List.filterMap_cons_none rfl, ← signals]
    split
    · exact hgiveUp
    · next hdue =>
      split
      · simp [signals, Beat.signal?, Task.step, Task.next?, hphase, Task.outcome?]
      · split
        · next h => exact ih hdue h
        · exact hgiveUp

/-- A task comes to its end. -/
theorem foldl_signals_timeline (settings' : OrchestratorSettings) (t : Nat) (provider : Provider) :
    ((signals (s.timeline settings t)).foldl (Task.step settings') { provider }).outcome?.isSome
      := by
  have hstart : ∀ beats : List (Nat × Beat), signals ((t, .startCalled) ::
      ((if s.cancels then [(t + s.startDelay, .cancels)] else []) ++ beats)) =
        .called :: signals beats := by
    intro beats
    cases s.cancels <;> rfl
  simp only [timeline, List.cons_append]
  rw [hstart]
  split
  · rfl
  · split
    · rfl
    · exact foldl_signals_poll settings s settings' _ _ _
        { provider, phase := .polling, launched := true } rfl

theorem le_stopEnd (t : Nat) : t ≤ (s.stopEnd settings t).1 := by
  unfold stopEnd
  split <;> simp

/-- The beats come in order, and none before `t`. -/
def Ordered (t : Nat) (beats : List (Nat × Beat)) : Prop :=
  beats.Pairwise (fun a b => a.1 ≤ b.1) ∧ ∀ beat ∈ beats, t ≤ beat.1

theorem Ordered.cons {t u : Nat} {beat : Beat} {beats : List (Nat × Beat)} (h : Ordered u beats)
    (htu : t ≤ u) : Ordered t ((t, beat) :: beats) := by
  have hall : ∀ b ∈ beats, t ≤ b.1 := fun b hb => Nat.le_trans htu (h.2 b hb)
  exact ⟨List.pairwise_cons.2 ⟨hall, h.1⟩, List.forall_mem_cons.2 ⟨Nat.le_refl t, hall⟩⟩

theorem ordered_nil (t : Nat) : Ordered t [] := ⟨.nil, by simp⟩

theorem ordered_giveUp (deadline : Nat) : Ordered deadline (s.giveUp settings deadline) :=
  ((ordered_nil _).cons (Nat.le_refl _)).cons (s.le_stopEnd settings deadline)

theorem ordered_poll {deadline t : Nat} (past : Nat) (ht : t ≤ deadline) :
    Ordered t (s.poll settings deadline t past) := by
  fun_induction poll settings s deadline t past with
  | case1 t past next ih =>
    split
    · exact (s.ordered_giveUp settings deadline).cons ht
    · next hdue =>
      split
      · exact ((ordered_nil _).cons (Nat.le_refl _)).cons (Nat.le_add_right _ _)
      · split
        · next h => exact (ih hdue h h.1).cons (by omega)
        · exact (s.ordered_giveUp settings deadline).cons ht

theorem ordered_timeline (t : Nat) : Ordered t (s.timeline settings t) := by
  have hle : t ≤ t + s.startDelay := Nat.le_add_right _ _
  have hend : Ordered (t + s.startDelay)
      (if s.dies then [(t + s.startDelay, .signal .died)]
      else match s.startError? with
        | some reason => [(t + s.startDelay, .signal (.refused reason))]
        | none => (t + s.startDelay, .signal .launched) ::
          s.poll settings (t + s.startDelay + settings.healthTimeout) (t + s.startDelay) 0) := by
    split
    · exact (ordered_nil _).cons (Nat.le_refl _)
    · split
      · exact (ordered_nil _).cons (Nat.le_refl _)
      · exact (s.ordered_poll settings 0 (Nat.le_add_right _ _)).cons (Nat.le_refl _)
  simp only [timeline, List.cons_append]
  cases s.cancels
  · exact hend.cons hle
  · exact (hend.cons (Nat.le_refl _)).cons hle

end Script

/-- Something that happened to a provider, and when. -/
structure Moment where
  time : Nat
  /-- The place of the provider in its wave. -/
  place : Nat
  provider : Provider
  beat : Beat
  deriving DecidableEq

namespace Moment

/-- What the orchestrator can observe of a moment. -/
def event? (m : Moment) : Option WaveEvent :=
  match m.beat with
  | .cancels => some .cancel
  | beat => beat.signal?.map (.act m.place)

end Moment

/-- Virtual time. -/
structure Clock where
  settings : OrchestratorSettings
  now : Nat := 0
  /-- When the startup is going to be cancelled from outside. -/
  cancelAt? : Option Nat := none
  /-- All that has happened so far, in order. -/
  journal : List Moment := []

namespace Clock

variable (c : Clock)

/-- All that a member of a wave is going to do if nothing stops it, in order. -/
def momentsOf (provider : Provider) (place : Nat) : List Moment :=
  (provider.script.timeline c.settings c.now).map fun (time, beat) =>
    { time, place, provider, beat }

/-- All that the members of a wave are going to do if nothing stops them, in order. -/
def moments (members : List Provider) : List Moment :=
  (members.zipIdx.flatMap fun (provider, place) => c.momentsOf provider place).mergeSort
    fun a b => a.time ≤ b.time

/-- The first moment at which the startup is cancelled before all is over. -/
def cancellation? (moments : List Moment) : Option Nat :=
  let finish := moments.foldl (fun t m => max t m.time) c.now
  let within := moments.filterMap fun m => if m.beat = .cancels then some m.time else none
  ((c.cancelAt?.toList ++ within).filter (· ≤ finish)).min?

/-- Lets the members of a wave start, up to the moment at which the startup is cancelled. -/
def wave (members : List Provider) : List WaveEvent × Clock :=
  let moments := c.moments members
  match c.cancellation? moments with
  | none =>
    (moments.filterMap Moment.event?,
      { c with
        now := moments.foldl (fun t m => max t m.time) c.now
        journal := c.journal ++ moments })
  | some t =>
    let past := moments.filter (·.time ≤ t)
    (past.filterMap Moment.event? ++ [.cancel, .notice],
      { c with
        now := t
        cancelAt? := c.cancelAt?.filter (t < ·)
        journal := c.journal ++ past })

/-- Lets a stop call take its time. -/
def stop (provider : Provider) : (StopEnd × Bool) × Clock :=
  let (t, ending) := provider.script.stopEnd c.settings c.now
  ((ending, c.cancelAt?.any (· ≤ t)),
    { c with
      now := t
      cancelAt? := c.cancelAt?.filter (t < ·)
      journal := c.journal ++
        [{ time := c.now, place := 0, provider, beat := .stopCalled },
          { time := t, place := 0, provider, beat := .stopEnded ending }] })

/-! ## Every wave is settled -/

theorem place_of_mem_momentsOf {provider : Provider} {place : Nat} {m : Moment}
    (h : m ∈ c.momentsOf provider place) : m.place = place := by
  obtain ⟨_, _, rfl⟩ := List.mem_map.1 h
  rfl

/-- What the member at a place does is, among all moments, what stands at that place. -/
theorem filter_moments (before after : List Provider) (provider : Provider) :
    (c.moments (before ++ provider :: after)).filter (·.place = before.length) =
      c.momentsOf provider before.length := by
  have hunsorted : ((before ++ provider :: after).zipIdx.flatMap fun (provider, place) =>
      c.momentsOf provider place).filter (·.place = before.length) =
        c.momentsOf provider before.length := by
    have hown : (c.momentsOf provider before.length).filter (·.place = before.length) =
        c.momentsOf provider before.length :=
      List.filter_eq_self.2 fun m hm => by simp [c.place_of_mem_momentsOf hm]
    have hother : ∀ (members : List Provider) (k : Nat),
        (before.length < k ∨ k + members.length ≤ before.length) →
          ((members.zipIdx k).flatMap fun (provider, place) =>
            c.momentsOf provider place).filter (·.place = before.length) = [] := by
      intro members k hk
      refine List.filter_eq_nil_iff.2 fun m hm => ?_
      obtain ⟨⟨p, i⟩, hmem, hm⟩ := List.mem_flatMap.1 hm
      have hi := List.mem_zipIdx hmem
      have := c.place_of_mem_momentsOf hm
      simp only [decide_eq_true_eq]
      omega
    rw [List.zipIdx_append, List.zipIdx_cons, List.flatMap_append, List.flatMap_cons,
      List.filter_append, List.filter_append, hother before 0 (by omega),
      hother after _ (by omega)]
    simpa using hown
  have hsorted : (c.momentsOf provider before.length).Pairwise fun a b =>
      decide (a.time ≤ b.time) := by
    refine List.pairwise_map.2 ?_
    simpa using (provider.script.ordered_timeline c.settings c.now).1
  have hsub : (c.momentsOf provider before.length).Sublist
      (c.moments (before ++ provider :: after)) := by
    refine List.sublist_mergeSort (fun a b c => by simpa using Nat.le_trans)
      (fun a b => by simpa using Nat.le_total _ _) hsorted ?_
    rw [← hunsorted]
    exact List.filter_sublist
  have hsub' := hsub.filter (·.place = before.length)
  have hlen := ((List.mergeSort_perm ((before ++ provider :: after).zipIdx.flatMap
    fun (provider, place) => c.momentsOf provider place)
      fun a b => a.time ≤ b.time).filter (·.place = before.length)).length_eq
  rw [List.filter_eq_self.2 fun m hm => by simp [c.place_of_mem_momentsOf hm]] at hsub'
  exact (hsub'.eq_of_length (by rw [← hunsorted]; exact hlen.symm)).symm

theorem filter_moments_of_getElem? {members : List Provider} {place : Nat} {provider : Provider}
    (h : members[place]? = some provider) :
    (c.moments members).filter (·.place = place) = c.momentsOf provider place := by
  obtain ⟨hlt, rfl⟩ := List.getElem?_eq_some_iff.1 h
  have hsplit : members = members.take place ++ members[place] :: members.drop (place + 1) := by simp
  have hlen : (members.take place).length = place := List.length_take_of_le (Nat.le_of_lt hlt)
  have hmoments := c.filter_moments (members.take place) (members.drop (place + 1)) members[place]
  rwa [← hsplit, hlen] at hmoments

/-- The signals of the task at a place are those of the moments at that place. -/
theorem signalsAt_filterMap_event? (place : Nat) (moments : List Moment) :
    Wave.signalsAt place (moments.filterMap Moment.event?) =
      (moments.filter (·.place = place)).filterMap (·.beat.signal?) := by
  induction moments with
  | nil => rfl
  | cons m rest ih =>
    obtain ⟨time, place', provider, beat⟩ := m
    unfold Wave.signalsAt at ih ⊢
    by_cases h : place' = place <;> cases beat <;>
      simp [Moment.event?, Beat.signal?, List.filterMap_cons, h, ih]

/-- Whatever the members of a wave do, the wave is settled in the end. -/
theorem isSettled_wave (settings : OrchestratorSettings) (cancelled : Bool)
    (members : List Provider) :
    ((Wave.begin members cancelled).run settings (c.wave members).1).value.isSettled := by
  unfold wave
  dsimp only
  split
  · rw [Wave.isSettled, Bool.or_eq_true, List.all_eq_true]
    refine Or.inr fun task htask => ?_
    obtain ⟨i, hi⟩ := List.mem_iff_getElem?.1 htask
    rw [Wave.getElem?_tasks_run, Wave.begin, List.getElem?_map] at hi
    obtain ⟨_, hbegin, rfl⟩ := Option.map_eq_some_iff.1 hi
    obtain ⟨provider, hprovider, rfl⟩ := Option.map_eq_some_iff.1 hbegin
    rw [signalsAt_filterMap_event?, c.filter_moments_of_getElem? hprovider, momentsOf,
      List.filterMap_map]
    exact Script.foldl_signals_timeline c.settings _ settings _ _
  · rw [Wave.isSettled, Wave.noticed_run_cancel_notice, Bool.true_or]

/-- The world on virtual time. -/
def world : World Clock where
  wave c members := c.wave members
  stop c provider := c.stop provider
  isSettled_wave settings cancelled c members := c.isSettled_wave settings cancelled members

end Clock

end LocalCloud
