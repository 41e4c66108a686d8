import LocalCloud.Proofs.Startup.Cancellation
import LocalCloud.Proofs.Startup.Cleanup
import LocalCloud.Proofs.Startup.Statuses

/-!
# Who finishes first does not matter

Tasks of one wave come to their ends in any order, and are joined in any order.  As long as nobody
cancels the startup, all that counts is how each of them ends: a wave does the same to its members
in every order (`Wave.settle_collect`, `BroughtUp.foretold`), and so does the whole start, down to
which providers are rolled back in which order (`Course.foretold`, `start_interleaving`).
-/

namespace LocalCloud

/-! ## How tasks end -/

/-- How the task of a provider ends with a signal, if it does. -/
def Signal.outcome? (settings : OrchestratorSettings) (p : Provider) : Signal → Option TaskOutcome
  | healthy => some .running
  | refused reason => some (.failed (.refused p.name reason))
  | stopEnded _ => some (.failed (.unhealthy p.name settings.healthTimeout))
  | died => some .died
  | called | launched | overdue => none

/-- What becomes of a provider whose task ends like this in a wave that is not given up. -/
def TaskOutcome.fate (p : Provider) : TaskOutcome → Wave.Fate
  | running => .running
  | failed failure => .failed failure
  | died => .failed (.died p.name)

theorem Task.Lived.exists_signal {settings : OrchestratorSettings} {t : Task} {past : List Signal}
    {outcome : TaskOutcome} (h : t.Lived settings past) (hout : t.outcome? = some outcome) :
    ∃ signal ∈ past, signal.outcome? settings t.provider = some outcome := by
  cases h <;> simp_all [outcome?, Signal.outcome?]

theorem Wave.fate_of_outcome? {t : Task} {outcome : TaskOutcome}
    (hout : t.outcome? = some outcome) : Wave.fate false t = outcome.fate t.provider := by
  cases outcome <;> simp [Wave.fate, hout, TaskOutcome.fate]

/-- Whether something that happens agrees with how tasks are to end: nobody cancels the startup,
and whatever task comes to its end does so as it is to. -/
def Happening.Keeps (settings : OrchestratorSettings) (ends : Provider → TaskOutcome) :
    Happening → Prop
  | cancelled => False
  | signalled p signal =>
    signal.outcome? settings p = none ∨ signal.outcome? settings p = some (ends p)
  | spawned _ | noticed | stopCalled _ | stopEnded _ _ => True

instance (settings : OrchestratorSettings) (ends : Provider → TaskOutcome) :
    (h : Happening) → Decidable (h.Keeps settings ends)
  | .cancelled => inferInstanceAs (Decidable False)
  | .signalled _ _ => inferInstanceAs (Decidable (_ ∨ _))
  | .spawned _ | .noticed | .stopCalled _ | .stopEnded _ _ => inferInstanceAs (Decidable True)

/-- Whether something that happens agrees with how the stop calls of the orchestrator are to end. -/
def Happening.KeepsStop (stops : Provider → Option StopFailure) : Happening → Prop
  | stopEnded p failure? => failure? = stops p
  | spawned _ | signalled _ _ | cancelled | noticed | stopCalled _ => True

instance (stops : Provider → Option StopFailure) :
    (h : Happening) → Decidable (h.KeepsStop stops)
  | .stopEnded _ _ => inferInstanceAs (Decidable (_ = _))
  | .spawned _ | .signalled _ _ | .cancelled | .noticed | .stopCalled _ =>
    inferInstanceAs (Decidable True)

/-! ## One wave -/

section Foresight

variable (ends : Provider → TaskOutcome)

/-- Whether a provider comes up. -/
def comesUp (p : Provider) : Bool := ends p = .running

/-- What becomes of members whose tasks end like this. -/
def fatesOf (members : List Provider) : List (Provider × Wave.Fate) :=
  members.map fun p => (p, (ends p).fate p)

/-- The failure of the first of the members that does not come up. -/
def firstFailure? (members : List Provider) : Option StartFailure :=
  members.findSome? fun p => ((ends p).fate p).failure?

/-- The result of members whose tasks end like this: success when all of them come up, else the
failure of the first one that does not. -/
def resultOf (members : List Provider) : Except StartFailure Unit :=
  match firstFailure? ends members with
  | none => .ok ()
  | some failure => .error failure

variable {ends} {members : List Provider}

theorem failure?_fate_eq_none_iff {p : Provider} :
    ((ends p).fate p).failure? = none ↔ ends p = .running := by
  cases ends p <;> simp [TaskOutcome.fate, Wave.Fate.failure?]

theorem isStarted_fate (p : Provider) : ((ends p).fate p).isStarted = comesUp ends p := by
  unfold comesUp
  cases ends p <;> simp [TaskOutcome.fate, Wave.Fate.isStarted]

theorem status_fate (p : Provider) :
    ((ends p).fate p).status = if ends p = .running then .running else .error := by
  cases ends p <;> simp [TaskOutcome.fate, Wave.Fate.status]

theorem firstFailure?_eq_none_iff :
    firstFailure? ends members = none ↔ ∀ p ∈ members, ends p = .running := by
  simp only [firstFailure?, List.findSome?_eq_none_iff, failure?_fate_eq_none_iff]

theorem filter_comesUp (h : firstFailure? ends members = none) :
    members.filter (comesUp ends) = members := by
  refine List.filter_eq_self.2 fun p hp => ?_
  simpa [comesUp] using firstFailure?_eq_none_iff.1 h p hp

end Foresight

namespace Wave

variable {settings : OrchestratorSettings} {members : List Provider} {wave : Wave}
  {ends : Provider → TaskOutcome}

/-- A wave that is over and has not been given up does to its members what the ends of their tasks
stand for. -/
theorem Coherent.fates_eq (h : wave.Coherent settings members) (hset : wave.isSettled = true)
    (hnoticed : wave.noticed = false) (hkeeps : ∀ x ∈ wave.history, x.Keeps settings ends) :
    wave.fates = fatesOf ends members := by
  rw [fatesOf, ← h.providers, List.map_map]
  refine List.map_congr_left fun t ht => ?_
  rw [Function.comp_apply, hnoticed]
  rw [Wave.isSettled, hnoticed, Bool.false_or, List.all_eq_true] at hset
  obtain ⟨outcome, hout⟩ := Option.isSome_iff_exists.1 (hset t ht)
  obtain ⟨signal, hsignal, hlast⟩ := (h.lived t ht).exists_signal hout
  have hkept := hkeeps _ (mem_signalsOf.1 hsignal)
  rw [Happening.Keeps, hlast, Option.some.injEq] at hkept
  obtain rfl := hkept.resolve_left (by simp)
  rw [fate_of_outcome? hout]

/-! ### Joining the tasks -/

/-- What is known of the tasks of a wave when one more of them has been joined: how it has ended is
kept at its place, and nothing is known of one that has died. -/
def join (known : List (Option TaskOutcome)) : Nat × TaskOutcome → List (Option TaskOutcome)
  | (_, .died) => known
  | (place, outcome) => known.set place (some outcome)

/-- What is known of the tasks of members that have been joined in this order. -/
def collect (members : List Provider) (joined : List (Nat × TaskOutcome)) :
    List (Option TaskOutcome) :=
  joined.foldl join (members.map fun _ => none)

/-- What becomes of members of whose tasks this is known. -/
def settle (members : List Provider) (known : List (Option TaskOutcome)) :
    List (Provider × Fate) :=
  members.zipWith (fun p outcome? => (p, (outcome?.getD .died).fate p)) known

/-- How each task ends, with its place. -/
def placed (ends : Provider → TaskOutcome) (members : List Provider) : List (Nat × TaskOutcome) :=
  members.zipIdx.map fun (p, place) => (place, ends p)

theorem getElem?_join (known : List (Option TaskOutcome)) (place i : Nat)
    (outcome : TaskOutcome) : (join known (place, outcome))[i]? =
      if place = i ∧ outcome ≠ .died then known[i]?.map fun _ => some outcome else known[i]? := by
  by_cases hi : place = i
  · subst hi
    cases outcome <;> simp [join, List.getElem?_set, Option.map]
    all_goals split <;> simp_all
  · cases outcome <;> simp [join, hi]

theorem getElem?_foldl_join_of_not_mem {joined : List (Nat × TaskOutcome)} {place : Nat}
    (h : place ∉ joined.map (·.1)) (known : List (Option TaskOutcome)) :
    (joined.foldl join known)[place]? = known[place]? := by
  induction joined generalizing known with
  | nil => rfl
  | cons x rest ih =>
    obtain ⟨i, outcome⟩ := x
    rw [List.map_cons, List.mem_cons, not_or] at h
    rw [List.foldl_cons, ih h.2, getElem?_join, if_neg fun hi => h.1 hi.1.symm]

/-- Each place holds the end of its own task, however the tasks were joined. -/
theorem getElem?_foldl_join {joined : List (Nat × TaskOutcome)} {place : Nat}
    {outcome : TaskOutcome} (hnodup : (joined.map (·.1)).Nodup)
    (hmem : (place, outcome) ∈ joined) (known : List (Option TaskOutcome)) :
    (joined.foldl join known)[place]? =
      if outcome ≠ .died then known[place]?.map fun _ => some outcome else known[place]? := by
  induction joined generalizing known with
  | nil => simp at hmem
  | cons x rest ih =>
    rw [List.map_cons, List.nodup_cons] at hnodup
    rw [List.foldl_cons]
    rcases List.mem_cons.1 hmem with rfl | hrest
    · rw [getElem?_foldl_join_of_not_mem hnodup.1, getElem?_join]
      simp
    · obtain ⟨i, other⟩ := x
      have hne : i ≠ place := by
        rintro rfl
        exact hnodup.1 (List.mem_map.2 ⟨_, hrest, rfl⟩)
      have hjoin := getElem?_join known i place other
      rw [if_neg fun hi => hne hi.1] at hjoin
      rw [ih hnodup.2 hrest, hjoin]

/-- Whichever way the tasks of a wave are joined, the same becomes of its members. -/
theorem settle_collect {joined : List (Nat × TaskOutcome)}
    (hperm : joined.Perm (placed ends members)) :
    settle members (collect members joined) = fatesOf ends members := by
  have hfst : (placed ends members).map (·.1) = List.range' 0 members.length := by
    rw [placed, List.map_map]
    exact List.zipIdx_map_snd 0 members
  have hplaces : (joined.map (·.1)).Nodup := by
    rw [(hperm.map (·.1)).nodup_iff, hfst]
    exact List.nodup_range'
  refine List.ext_getElem? fun i => ?_
  rw [settle, fatesOf, List.getElem?_zipWith, List.getElem?_map]
  cases hp : members[i]? with
  | none => simp
  | some p =>
    have hmem : (i, ends p) ∈ joined := by
      refine hperm.mem_iff.2 (List.mem_map.2 ⟨(p, i), ?_, rfl⟩)
      exact List.mk_mem_zipIdx_iff_getElem?.2 hp
    have hknown : (collect members joined)[i]? =
        some (if ends p ≠ .died then some (ends p) else none) := by
      rw [collect, getElem?_foldl_join hplaces hmem, List.getElem?_map, hp]
      by_cases hdied : ends p = .died <;> simp [hdied]
    rw [hknown]
    by_cases hdied : ends p = .died <;> simp [hdied]

end Wave

namespace Orchestrator

variable {σ : Type} {o : Orchestrator} {members : List Provider} {lists : List (List Provider)}
  {passage : Passage σ StartFailure} {ends : Provider → TaskOutcome}

/-- The name of a member and the status that the end of its task stands for. -/
def statusOf (ends : Provider → TaskOutcome) (p : Provider) : String × ProviderStatus :=
  (p.name, ((ends p).fate p).status)

/-- The orchestrator stops nobody while a wave is brought up. -/
theorem BroughtUp.stopsOf_eq_nil {wave : Wave} (h : BroughtUp o members wave passage) :
    stopsOf passage.history = [] := by
  refine List.eq_nil_iff_forall_not_mem.2 fun p hp => ?_
  rw [mem_stopsOf, h.history] at hp
  exact h.coherent.ofWave _ hp

section BroughtUp

variable {wave : Wave} (h : BroughtUp o members wave passage) (ho : o.cancelled = false)
  (hkeeps : ∀ x ∈ passage.history, x.Keeps o.settings ends)

include h ho hkeeps

theorem BroughtUp.uncancelled : wave.cancelled = false ∧ wave.noticed = false := by
  refine h.quiet ho fun hmem => ?_
  rw [← h.history] at hmem
  exact hkeeps _ hmem

theorem BroughtUp.fates_eq : wave.fates = fatesOf ends members := by
  have hkeeps' := hkeeps
  rw [h.history] at hkeeps'
  exact h.coherent.fates_eq h.settled (h.uncancelled ho hkeeps).2 hkeeps'

theorem BroughtUp.failure?_eq : wave.failure? = firstFailure? ends members := by
  rw [Wave.failure?, (h.uncancelled ho hkeeps).2, if_neg Bool.false_ne_true,
    h.fates_eq ho hkeeps, fatesOf, List.findSome?_map]
  rfl

/-- The members that come up have to be stopped later on, in the order of the wave. -/
theorem BroughtUp.started_eq :
    passage.orchestrator.started = o.started ++ members.filter (comesUp ends) := by
  rw [h.started, Wave.started, h.fates_eq ho hkeeps, fatesOf, List.filter_map, List.map_map]
  have hsame : ((·.2.isStarted) ∘ fun p => (p, (ends p).fate p)) = comesUp ends :=
    funext isStarted_fate
  rw [hsame]
  exact congrArg (_ ++ ·) (List.map_id _)

theorem BroughtUp.restated : o.Restated (members.map (statusOf ends)) passage.orchestrator := by
  have hstatuses := h.statuses
  rw [h.fates_eq ho hkeeps, fatesOf, List.map_map] at hstatuses
  exact hstatuses

end BroughtUp

/-! ## Whole starts -/

/-- The members of the waves that begin: the waves up to the first one with a member that does not
come up. -/
def begun (ends : Provider → TaskOutcome) : List (List Provider) → List Provider
  | [] => []
  | members :: rest =>
    if firstFailure? ends members = none then members ++ begun ends rest else members

/-- The providers that are rolled back, in this order, when `started` was started before. -/
def undone (ends : Provider → TaskOutcome) (started : List Provider)
    (lists : List (List Provider)) : List Provider :=
  if firstFailure? ends lists.flatten = none then []
  else (started ++ (begun ends lists).filter (comesUp ends)).reverse

/-- The name of a provider and the status that the end of its stop call stands for. -/
def statusAfterStop (stops : Provider → Option StopFailure) (p : Provider) :
    String × ProviderStatus :=
  (p.name, if stops p = none then .stopped else .error)

/-- A start through these waves does what the ends of the tasks stand for. -/
structure Foretold (o : Orchestrator) (ends : Provider → TaskOutcome)
    (lists : List (List Provider)) (passage : Passage σ StartFailure) : Prop where
  result : passage.result = resultOf ends lists.flatten
  running : passage.orchestrator.running = (firstFailure? ends lists.flatten).isNone
  started : passage.orchestrator.started =
    if firstFailure? ends lists.flatten = none then o.started ++ lists.flatten else []
  stops : stopsOf passage.history = undone ends o.started lists
  statuses : ∀ stops, (∀ x ∈ passage.history, x.KeepsStop stops) →
    o.Restated ((begun ends lists).map (statusOf ends) ++
      (undone ends o.started lists).map (statusAfterStop stops)) passage.orchestrator

theorem firstFailure?_append (first rest : List Provider) :
    firstFailure? ends (first ++ rest) =
      (firstFailure? ends first).or (firstFailure? ends rest) :=
  List.findSome?_append

/-- A rollback leaves the statuses that the ends of its stop calls stand for. -/
theorem RolledBack.restated {failure : StartFailure} (h : RolledBack o failure passage)
    {stops : Provider → Option StopFailure} (hstops : ∀ x ∈ passage.history, x.KeepsStop stops) :
    o.Restated (o.started.reverse.map (statusAfterStop stops)) passage.orchestrator := by
  obtain ⟨calls, hcalls, hstopped⟩ := h.stopped
  have hstatuses := hstopped.statuses
  have hsame : calls.map (fun x => (x.1.name, x.2.status)) =
      o.started.reverse.map (statusAfterStop stops) := by
    rw [← hcalls, List.map_map]
    refine List.map_congr_left fun x hx => ?_
    have hended : .stopEnded x.1 (x.2.failure? o.settings x.1) ∈ passage.history := by
      have hmem : .stopEnded x.1 (x.2.failure? o.settings x.1) ∈
          calls.flatMap (stopCall o.settings) :=
        List.mem_flatMap.2 ⟨x, hx, by simp [stopCall]⟩
      rw [← hstopped.calls] at hmem
      exact (List.mem_filter.1 hmem).1
    have hkept : x.2.failure? o.settings x.1 = stops x.1 := hstops _ hended
    rw [Function.comp_apply, statusAfterStop, ← hkept]
    cases x.2 <;> simp [StopEnd.failure?, StopEnd.status]
  rwa [hsame] at hstatuses

/-- A start that nobody cancels does what the ends of its tasks stand for. -/
theorem Course.foretold (h : Course o lists passage) (ho : o.cancelled = false)
    (hkeeps : ∀ x ∈ passage.history, x.Keeps o.settings ends) :
    Foretold o ends lists passage := by
  induction h with
  | finished o =>
    exact {
      result := rfl
      running := rfl
      started := (List.append_nil _).symm
      stops := rfl
      statuses := fun _ _ => Restated.refl o }
  | givenUp hcancelled =>
    rw [ho] at hcancelled
    contradiction
  | skipped _ _ ih =>
    obtain ⟨hresult, hrunning, hstarted, hstops, hstatuses⟩ := ih ho hkeeps
    exact {
      result := hresult
      running := hrunning
      started := hstarted
      stops := hstops
      statuses := hstatuses }
  | @failed o members rest wave first back failure _ hfirst hfailure hback =>
    obtain ⟨hwave, hrest⟩ := List.forall_mem_append.1 hkeeps
    have hfails : firstFailure? ends members = some failure := by
      rw [← hfirst.failure?_eq ho hwave, hfailure]
    have hfails' : firstFailure? ends (members :: rest).flatten = some failure := by
      rw [List.flatten_cons, firstFailure?_append, hfails]
      rfl
    have hundone : undone ends o.started (members :: rest) =
        first.orchestrator.started.reverse := by
      rw [undone, hfails', begun, hfails, hfirst.started_eq ho hwave]
      simp
    exact {
      result := by rw [hback.result, resultOf, hfails']
      running := by rw [hback.running, hfails']; rfl
      started := by rw [hback.started, hfails']; simp
      stops := by
        rw [stopsOf_append, hfirst.stopsOf_eq_nil, List.nil_append, hback.stops, hundone]
      statuses := by
        intro stops hkept
        obtain ⟨-, hkept⟩ := List.forall_mem_append.1 hkept
        rw [hundone, begun, hfails, if_neg (by simp)]
        exact (hfirst.restated ho hwave).trans (hback.restated hkept) }
  | @passed o members rest wave first next _ hfirst hfailure _ ih =>
    obtain ⟨hwave, hrest⟩ := List.forall_mem_append.1 hkeeps
    have hup : firstFailure? ends members = none := by
      rw [← hfirst.failure?_eq ho hwave, hfailure]
    have hflatten : firstFailure? ends (members :: rest).flatten =
        firstFailure? ends rest.flatten := by
      rw [List.flatten_cons, firstFailure?_append, hup]
      rfl
    have hstarted : first.orchestrator.started = o.started ++ members := by
      rw [hfirst.started_eq ho hwave, filter_comesUp hup]
    have hcancelled : first.orchestrator.cancelled = false := by
      rw [hfirst.cancelled, (hfirst.uncancelled ho hwave).1]
    rw [← hfirst.settings] at hrest
    have hnext := ih hcancelled hrest
    have hundone : undone ends o.started (members :: rest) =
        undone ends first.orchestrator.started rest := by
      rw [undone, undone, hflatten, begun, if_pos hup, hstarted, List.filter_append,
        filter_comesUp hup, List.append_assoc]
    exact {
      result := by rw [hnext.result, resultOf, resultOf, hflatten]
      running := by rw [hnext.running, hflatten]
      started := by rw [hnext.started, hflatten, hstarted, List.flatten_cons, List.append_assoc]
      stops := by
        rw [stopsOf_append, hfirst.stopsOf_eq_nil, List.nil_append, hnext.stops, hundone]
      statuses := by
        intro stops hkept
        obtain ⟨-, hkept⟩ := List.forall_mem_append.1 hkept
        rw [hundone, begun, if_pos hup, List.map_append, List.append_assoc]
        exact (hfirst.restated ho hwave).trans (hnext.statuses stops hkept) }

/-- Two starts through the same waves leave the same behind when their tasks end alike. -/
theorem Foretold.agree {τ : Type} {other : Passage τ StartFailure}
    (h : Foretold o ends lists passage) (h' : Foretold o ends lists other) :
    passage.result = other.result ∧
    passage.orchestrator.running = other.orchestrator.running ∧
    passage.orchestrator.started = other.orchestrator.started ∧
    stopsOf passage.history = stopsOf other.history ∧
    ∀ stops : Provider → Option StopFailure, (∀ x ∈ passage.history, x.KeepsStop stops) →
      (∀ x ∈ other.history, x.KeepsStop stops) →
      ∀ name, passage.orchestrator.status? name = other.orchestrator.status? name := by
  refine ⟨h.result.trans h'.result.symm, h.running.trans h'.running.symm,
    h.started.trans h'.started.symm, h.stops.trans h'.stops.symm, ?_⟩
  intro stops hstops hstops' name
  rw [h.statuses stops hstops name, h'.statuses stops hstops' name]

variable (w : World σ)

/-- A start that is accepted and that nobody cancels does what the ends of its tasks stand for. -/
theorem start_foretold (s : σ) {graph : Graph} {providers : List Provider} {order : List String}
    {waves : List (List String)} (haccept : o.accept graph providers order = .ok waves)
    (ho : o.cancelled = false)
    (hkeeps : ∀ x ∈ (start w o s graph providers order).value.history, x.Keeps o.settings ends) :
    Foretold (o.cleared providers) ends (membersOf providers waves)
      (start w o s graph providers order).value :=
  (course_start w o s haccept).foretold ho hkeeps

/-- Who finishes first does not matter as long as nobody cancels the startup.  A wave succeeds when
all of its tasks do, else it fails with the first of its members that does; those that come up have
to be stopped, in the order of the wave, and have the status for it, and the tasks may be joined in
any order.  So two starts whose tasks end alike have the same result, roll back the same providers
in the same order and, if the stop calls end alike, leave the same statuses, in whatever worlds they
take place. -/
theorem start_interleaving {τ : Type} (w' : World τ) (o : Orchestrator) (s : σ) (s' : τ)
    (ends : Provider → TaskOutcome) (ho : o.cancelled = false) :
    (∀ members : List Provider, (members.map (·.name)).Nodup →
      (∀ x ∈ (startWave w o s members).value.history, x.Keeps o.settings ends) →
      (startWave w o s members).value.result = resultOf ends members ∧
      (startWave w o s members).value.orchestrator.started =
        o.started ++ members.filter (comesUp ends) ∧
      (∀ p ∈ members, (startWave w o s members).value.orchestrator.status? p.name =
        some (if ends p = .running then .running else .error)) ∧
      (∀ name, name ∉ members.map (·.name) →
        (startWave w o s members).value.orchestrator.status? name = o.status? name) ∧
      ∀ joined, joined.Perm (Wave.placed ends members) →
        (settledWave w o s members).fates =
          Wave.settle members (Wave.collect members joined)) ∧
    ∀ graph providers order,
      (∀ x ∈ (start w o s graph providers order).value.history, x.Keeps o.settings ends) →
      (∀ x ∈ (start w' o s' graph providers order).value.history, x.Keeps o.settings ends) →
      (start w o s graph providers order).value.result =
        (start w' o s' graph providers order).value.result ∧
      (start w o s graph providers order).value.orchestrator.running =
        (start w' o s' graph providers order).value.orchestrator.running ∧
      (start w o s graph providers order).value.orchestrator.started =
        (start w' o s' graph providers order).value.orchestrator.started ∧
      stopsOf (start w o s graph providers order).value.history =
        stopsOf (start w' o s' graph providers order).value.history ∧
      ∀ stops : Provider → Option StopFailure,
        (∀ x ∈ (start w o s graph providers order).value.history, x.KeepsStop stops) →
        (∀ x ∈ (start w' o s' graph providers order).value.history, x.KeepsStop stops) →
        ∀ name, (start w o s graph providers order).value.orchestrator.status? name =
          (start w' o s' graph providers order).value.orchestrator.status? name := by
  constructor
  · intro members hnames hkeeps
    have hwave := broughtUp_startWave w o s (hnames.of_map _)
    have hstatuses := hwave.restated ho hkeeps
    have hfst : (members.map (statusOf ends)).map (·.1) = members.map (·.name) := by
      rw [List.map_map]
      rfl
    refine ⟨?_, hwave.started_eq ho hkeeps, fun p hp => ?_, fun name hname => ?_, ?_⟩
    · rw [hwave.result, hwave.failure?_eq ho hkeeps]
      rfl
    · rw [← status_fate]
      exact hstatuses.status?_of_mem (hfst ▸ hnames) (List.mem_map_of_mem hp)
    · exact hstatuses.status?_of_not_mem (hfst ▸ hname)
    · intro joined hperm
      rw [Wave.settle_collect hperm, hwave.fates_eq ho hkeeps]
  · intro graph providers order hkeeps hkeeps'
    cases haccept : o.accept graph providers order with
    | error failure => simp [start_of_refused w o s haccept, start_of_refused w' o s' haccept]
    | ok waves =>
      exact (start_foretold w s haccept ho hkeeps).agree (start_foretold w' s' haccept ho hkeeps')

/-- A world in which the second of two members refuses to start before the first one is called. -/
def hurriedWorld : World Unit where
  wave _ members :=
    match members with
    | [_, _] =>
      ([.act 1 .called, .act 1 (.refused "no port"), .act 0 .called, .act 0 .launched,
        .act 0 .healthy], ())
    | _ => ([.cancel, .notice], ())
  stop _ _ := ((.stopped, false), ())
  isSettled_wave := by
    intro settings cancelled _ members
    split
    · rfl
    · exact congrArg (· || _) (Wave.noticed_run_cancel_notice settings _ [])

/-- The database comes up, and the service refuses to start. -/
def noPort (p : Provider) : TaskOutcome :=
  if p.name = "service" then .failed (.refused "service" "no port") else .running

/-- Whether the service refuses before or after the database is up, the database is rolled back. -/
theorem refusal_any_time :
    (start hurriedWorld {} () {} pair ["Table", "Function"]).value.result =
      .error (.refused "service" "no port") ∧
    (start refusingWorld {} () {} pair ["Table", "Function"]).value.result =
      (start hurriedWorld {} () {} pair ["Table", "Function"]).value.result ∧
    stopsOf (start refusingWorld {} () {} pair ["Table", "Function"]).value.history =
      stopsOf (start hurriedWorld {} () {} pair ["Table", "Function"]).value.history ∧
    (start refusingWorld {} () {} pair ["Table", "Function"]).value.orchestrator.status?
        "database" =
      (start hurriedWorld {} () {} pair ["Table", "Function"]).value.orchestrator.status?
        "database" ∧
    (startWave refusingWorld {} () pair).value.orchestrator.started =
      [{ name := "database", node := "Table" }] ∧
    (settledWave refusingWorld {} () pair).fates =
      Wave.settle pair
        (Wave.collect pair [(1, .failed (.refused "service" "no port")), (0, .running)]) := by
  obtain ⟨hwave, hstart⟩ := start_interleaving refusingWorld hurriedWorld {} () () noPort rfl
  obtain ⟨-, hstarted, -, -, hjoined⟩ := hwave pair (by decide) (by decide +kernel)
  obtain ⟨hresult, -, -, hstops, hstatuses⟩ := hstart {} pair ["Table", "Function"]
    (by decide +kernel) (by decide +kernel)
  refine ⟨by decide +kernel, hresult, hstops, ?_, hstarted, hjoined _ (List.Perm.swap _ _ _)⟩
  exact hstatuses (fun _ => none) (by decide +kernel) (by decide +kernel) "database"

end Orchestrator

end LocalCloud
