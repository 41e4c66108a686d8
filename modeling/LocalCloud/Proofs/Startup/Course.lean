import LocalCloud.Proofs.Startup.Coherence
import LocalCloud.Proofs.Startup.Stopping

/-!
# The course of a start

A start goes through its waves in one of a few ways (`Course`): it brings up one wave after
another, and either it comes to the end or it is rolled back, because a wave has failed or because
the startup has been cancelled.  `startWaves` goes through the waves in one of these ways in every
world (`course_startWaves`), so that what holds of all courses is proved by induction on them.
-/

namespace LocalCloud.Orchestrator

variable {σ : Type}

/-- What bringing up a wave has done, if this is the wave as it was in the end. -/
structure BroughtUp (o : Orchestrator) (members : List Provider) (wave : Wave)
    (passage : Passage σ StartFailure) : Prop where
  coherent : wave.Coherent o.settings members
  settled : wave.isSettled = true
  result : passage.result =
    match wave.failure? with
    | none => .ok ()
    | some failure => .error failure
  settings : passage.orchestrator.settings = o.settings
  running : passage.orchestrator.running = o.running
  started : passage.orchestrator.started = o.started ++ wave.started
  token : passage.orchestrator.token = o.token
  cancelled : passage.orchestrator.cancelled = wave.cancelled
  history : passage.history = wave.history
  quiet : o.cancelled = false → wave.Quiet
  statuses : o.Restated (wave.fates.map fun x => (x.1.name, x.2.status)) passage.orchestrator

/-- The ways in which an orchestrator can go through waves. -/
inductive Course : Orchestrator → List (List Provider) → Passage σ StartFailure → Prop
  /-- All waves are up. -/
  | finished (o : Orchestrator) (world : σ) :
    Course o [] { result := .ok (), orchestrator := { o with running := true }, world }
  /-- The startup has been cancelled before a wave. -/
  | givenUp {o : Orchestrator} {members : List Provider} {rest : List (List Provider)}
    {back : Passage σ StartFailure} (cancelled : o.cancelled = true)
    (hback : RolledBack o .cancelled back) :
    Course o (members :: rest) { back with history := .noticed :: back.history }
  /-- A wave has no members. -/
  | skipped {o : Orchestrator} {rest : List (List Provider)} {next : Passage σ StartFailure}
    (cancelled : o.cancelled = false) (hnext : Course o rest next) : Course o ([] :: rest) next
  /-- A wave has failed. -/
  | failed {o : Orchestrator} {members : List Provider} {rest : List (List Provider)}
    {wave : Wave} {first back : Passage σ StartFailure} {failure : StartFailure}
    (cancelled : o.cancelled = false) (hfirst : BroughtUp o members wave first)
    (hfailure : wave.failure? = some failure)
    (hback : RolledBack first.orchestrator failure back) :
    Course o (members :: rest) { back with history := first.history ++ back.history }
  /-- A wave is up. -/
  | passed {o : Orchestrator} {members : List Provider} {rest : List (List Provider)}
    {wave : Wave} {first next : Passage σ StartFailure}
    (cancelled : o.cancelled = false) (hfirst : BroughtUp o members wave first)
    (hfailure : wave.failure? = none) (hnext : Course first.orchestrator rest next) :
    Course o (members :: rest) { next with history := first.history ++ next.history }

variable (w : World σ)

/-- A wave as it is in the end. -/
def settledWave (o : Orchestrator) (s : σ) (members : List Provider) : Wave :=
  ((Wave.begin members o.cancelled).run o.settings (w.wave s members).1).value

/-- The orchestrator with the statuses of members that are starting. -/
def allStarting (o : Orchestrator) (members : List Provider) : Orchestrator :=
  members.foldl (fun o p => o.setStatus p.name .starting) o

/-- The orchestrator with the statuses that the fates of a wave stand for. -/
def allSettled (o : Orchestrator) (wave : Wave) : Orchestrator :=
  wave.fates.foldl (fun o (p, fate) => o.setStatus p.name fate.status) o

theorem alike_allStarting (o : Orchestrator) (members : List Provider) :
    o.Alike (o.allStarting members) ∧ (o.allStarting members).cancelled = o.cancelled :=
  alike_foldl_setStatus (fun p : Provider => p.name) (fun _ => .starting) members o

theorem alike_allSettled (o : Orchestrator) (wave : Wave) : o.Alike (o.allSettled wave) :=
  (alike_foldl_setStatus (fun x : Provider × Wave.Fate => x.1.name) (fun x => x.2.status)
    wave.fates o).1

/-- In the end each member has the status of its fate. -/
theorem restated_allSettled {o : Orchestrator} {members : List Provider} {wave : Wave}
    (h : wave.Coherent o.settings members) :
    o.Restated (wave.fates.map fun x => (x.1.name, x.2.status))
      ((o.allStarting members).allSettled wave) := by
  have hstarting := restated_foldl_setStatus (fun p : Provider => p.name) (fun _ => .starting)
    members o
  have hsettled := restated_foldl_setStatus (fun x : Provider × Wave.Fate => x.1.name)
    (fun x => x.2.status) wave.fates (o.allStarting members)
  refine (hstarting.trans hsettled).of_overwritten fun x hx => ?_
  obtain ⟨p, hp, rfl⟩ := List.mem_map.1 hx
  obtain ⟨t, ht, rfl, -⟩ := h.exists_lived hp
  rw [List.map_map]
  exact List.mem_map.2 ⟨_, List.mem_map_of_mem ht, rfl⟩

/-- What bringing up a wave gives, in terms of the wave as it is in the end. -/
theorem value_startWave (o : Orchestrator) (s : σ) (members : List Provider) :
    (startWave w o s members).value =
      let wave := settledWave w o s members
      let o := (o.allStarting members).allSettled wave
      { result := match wave.failure? with
          | none => .ok ()
          | some failure => .error failure
        orchestrator :=
          { o with started := o.started ++ wave.started, cancelled := wave.cancelled }
        world := (w.wave s members).2
        history := wave.history } := by
  obtain ⟨⟨hsettings, -, -, -⟩, hcancelled⟩ := alike_allStarting o members
  have hwave : settledWave w o s members = settledWave w (o.allStarting members) s members := by
    rw [settledWave, settledWave, hcancelled, hsettings]
  rw [hwave]
  rfl

/-- Bringing up a wave is to run it until it is settled. -/
theorem broughtUp_startWave (o : Orchestrator) (s : σ) {members : List Provider}
    (hnodup : members.Nodup) :
    BroughtUp o members (settledWave w o s members) (startWave w o s members).value := by
  obtain ⟨hsettings, hrunning, hstarted, htoken⟩ :=
    (alike_allStarting o members).1.trans (alike_allSettled _ (settledWave w o s members))
  have hcoherent : (settledWave w o s members).Coherent o.settings members :=
    (Wave.Coherent.begin members o.cancelled).run hnodup _
  rw [value_startWave]
  exact {
    coherent := hcoherent
    settled := w.isSettled_wave o.settings o.cancelled s members
    result := rfl
    settings := hsettings
    running := hrunning
    started := congrArg (· ++ _) hstarted
    token := htoken
    cancelled := rfl
    history := rfl
    quiet := fun hcancelled => by
      rw [settledWave, hcancelled]
      exact (Wave.quiet_begin members).run o.settings _
    statuses := restated_allSettled hcoherent }

/-- In every world a start goes through its waves in one of the ways. -/
theorem course_startWaves (o : Orchestrator) (s : σ) (number : Nat)
    (lists : List (List Provider)) (hnodup : ∀ members ∈ lists, members.Nodup) :
    Course o lists (startWaves w o s number lists).value := by
  induction lists generalizing o s number with
  | nil => exact .finished o s
  | cons members rest ih =>
    obtain ⟨hmembers, hrest⟩ := List.forall_mem_cons.1 hnodup
    unfold startWaves
    split
    · next hcancelled => exact .givenUp hcancelled (rolledBack_rollback w o s .cancelled)
    next hcancelled =>
    rw [Bool.not_eq_true] at hcancelled
    split
    · next hempty =>
      rw [List.isEmpty_iff.1 hempty]
      exact .skipped hcancelled (ih o s (number + 1) hrest)
    have hfirst := broughtUp_startWave w o s hmembers
    generalize settledWave w o s members = wave at hfirst
    have hresult := hfirst.result
    cases hfailure : wave.failure? with
    | none =>
      rw [hfailure] at hresult
      have hnext := ih (startWave w o s members).value.orchestrator
        (startWave w o s members).value.world (number + 1) hrest
      simpa [hresult] using Course.passed hcancelled hfirst hfailure hnext
    | some failure =>
      rw [hfailure] at hresult
      have hback := rolledBack_rollback w (startWave w o s members).value.orchestrator
        (startWave w o s members).value.world failure
      have hcourse : Course o (members :: rest) _ :=
        .failed hcancelled hfirst hfailure hback
      by_cases hf : failure = .cancelled <;> simpa [hresult, hf] using hcourse

end LocalCloud.Orchestrator
