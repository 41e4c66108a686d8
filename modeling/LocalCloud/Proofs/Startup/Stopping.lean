import LocalCloud.Startup.Orchestrator

/-!
# Stopping

The orchestrator stops what it has started, the last one first, whatever becomes of each call.
`stopsOf` reads the stop calls of the orchestrator off a history; all else that can happen while
it stops is that calls end and that somebody cancels the startup.
-/

namespace LocalCloud

/-- The provider whose stop the orchestrator calls when something happens. -/
def Happening.stopFor? : Happening → Option Provider
  | .stopCalled p => some p
  | _ => none

/-- The providers whose stops the orchestrator has called, in order. -/
def stopsOf (history : List Happening) : List Provider := history.filterMap Happening.stopFor?

theorem stopsOf_append (first rest : List Happening) :
    stopsOf (first ++ rest) = stopsOf first ++ stopsOf rest :=
  List.filterMap_append ..

theorem mem_stopsOf {p : Provider} {history : List Happening} :
    p ∈ stopsOf history ↔ .stopCalled p ∈ history := by
  rw [stopsOf, List.mem_filterMap]
  constructor
  · rintro ⟨h, hmem, heq⟩
    cases h with
    | stopCalled q =>
      obtain rfl := Option.some.inj heq
      exact hmem
    | _ => simp [Happening.stopFor?] at heq
  · intro hmem
    exact ⟨_, hmem, rfl⟩

/-- Whether the orchestrator calls a stop, or such a call ends. -/
def Happening.isStopping : Happening → Bool
  | .stopCalled _ | .stopEnded _ _ => true
  | _ => false

/-- Where a provider is once a stop call has ended like this. -/
def StopEnd.status : StopEnd → ProviderStatus
  | stopped => .stopped
  | refused _ | overdue => .error

/-- What the stop call of a provider that ends like this leaves in a history. -/
def stopCall (settings : OrchestratorSettings) (x : Provider × StopEnd) : List Happening :=
  [.stopCalled x.1, .stopEnded x.1 (x.2.failure? settings x.1)]

/-- What can happen while the orchestrator stops providers. -/
def Happening.OfStop : Happening → Prop
  | .stopCalled _ | .stopEnded _ _ | .cancelled => True
  | .spawned _ | .signalled _ _ | .noticed => False

namespace Orchestrator

variable {σ : Type} (w : World σ)

/-! ## What stays as it is -/

/-- Two orchestrators that differ in nothing but their statuses and whether the token is
cancelled. -/
def Alike (o o' : Orchestrator) : Prop :=
  o'.settings = o.settings ∧ o'.running = o.running ∧ o'.started = o.started ∧ o'.token = o.token

theorem Alike.refl (o : Orchestrator) : o.Alike o := ⟨rfl, rfl, rfl, rfl⟩

theorem Alike.trans {o₁ o₂ o₃ : Orchestrator} (h : o₁.Alike o₂) (h' : o₂.Alike o₃) :
    o₁.Alike o₃ := by
  obtain ⟨hsettings, hrunning, hstarted, htoken⟩ := h
  obtain ⟨hsettings', hrunning', hstarted', htoken'⟩ := h'
  exact ⟨hsettings'.trans hsettings, hrunning'.trans hrunning, hstarted'.trans hstarted,
    htoken'.trans htoken⟩

theorem alike_setStatus (o : Orchestrator) (name : String) (status : ProviderStatus) :
    o.Alike (o.setStatus name status) := ⟨rfl, rfl, rfl, rfl⟩

/-- Changing statuses changes nothing else. -/
theorem alike_foldl_setStatus {α : Type} (name : α → String) (status : α → ProviderStatus)
    (xs : List α) (o : Orchestrator) :
    o.Alike (xs.foldl (fun o x => o.setStatus (name x) (status x)) o) ∧
      (xs.foldl (fun o x => o.setStatus (name x) (status x)) o).cancelled = o.cancelled := by
  induction xs generalizing o with
  | nil => exact ⟨Alike.refl o, rfl⟩
  | cons x xs ih =>
    obtain ⟨halike, hcancelled⟩ := ih (o.setStatus (name x) (status x))
    exact ⟨(alike_setStatus o _ _).trans halike, hcancelled⟩

/-! ## What becomes of statuses -/

theorem status?_setStatus (o : Orchestrator) (name other : String) (status : ProviderStatus) :
    (o.setStatus name status).status? other =
      if other = name then some status else o.status? other := by
  by_cases h : other = name
  · simp [status?, setStatus, h]
  · have hfilter : ∀ statuses : List (String × ProviderStatus),
        (statuses.filter (·.1 != name)).lookup other = statuses.lookup other := by
      intro statuses
      induction statuses with
      | nil => rfl
      | cons x rest ih =>
        obtain ⟨key, old⟩ := x
        by_cases hkey : key = name
        · have hother : (other == key) = false := by simpa [hkey] using h
          rw [List.filter_cons_of_neg (by simp [hkey]), ih, List.lookup_cons, hother]
        · rw [List.filter_cons_of_pos (by simp [hkey]), List.lookup_cons, List.lookup_cons, ih]
    have hother : (other == name) = false := by simpa using h
    simp [status?, setStatus, List.lookup_cons, hother, hfilter, h]

/-- The statuses after some changes: of two changes of a name the later one counts, and all other
names keep their statuses. -/
def Restated (o : Orchestrator) (changes : List (String × ProviderStatus)) (o' : Orchestrator) :
    Prop :=
  ∀ name, o'.status? name = (changes.reverse.lookup name).or (o.status? name)

theorem Restated.refl (o : Orchestrator) : o.Restated [] o := fun _ => rfl

theorem Restated.setStatus (o : Orchestrator) (name : String) (status : ProviderStatus) :
    o.Restated [(name, status)] (o.setStatus name status) := by
  intro other
  rw [status?_setStatus]
  by_cases h : other = name
  · simp [h]
  · have hother : (other == name) = false := by simpa using h
    simp [h, List.lookup_cons, hother]

theorem Restated.trans {o₁ o₂ o₃ : Orchestrator} {first rest : List (String × ProviderStatus)}
    (h : o₁.Restated first o₂) (h' : o₂.Restated rest o₃) : o₁.Restated (first ++ rest) o₃ := by
  intro name
  rw [h' name, h name, List.reverse_append, List.lookup_append, Option.or_assoc]

theorem restated_foldl_setStatus {α : Type} (name : α → String) (status : α → ProviderStatus)
    (xs : List α) (o : Orchestrator) :
    o.Restated (xs.map fun x => (name x, status x))
      (xs.foldl (fun o x => o.setStatus (name x) (status x)) o) := by
  induction xs generalizing o with
  | nil => exact Restated.refl o
  | cons x xs ih => exact (Restated.setStatus o (name x) (status x)).trans (ih _)

section Restated

variable {o o' : Orchestrator} {changes : List (String × ProviderStatus)} {name : String}
  {status : ProviderStatus}

theorem lookup_reverse_eq_none (hname : name ∉ changes.map (·.1)) :
    changes.reverse.lookup name = none := by
  refine List.lookup_eq_none_iff.2 fun x hx => ?_
  have hne : name ≠ x.1 := fun heq =>
    hname (List.mem_map.2 ⟨x, List.mem_reverse.1 hx, heq.symm⟩)
  simpa using hne

/-- A name that is not changed keeps its status. -/
theorem Restated.status?_of_not_mem (h : o.Restated changes o')
    (hname : name ∉ changes.map (·.1)) : o'.status? name = o.status? name := by
  rw [h name, lookup_reverse_eq_none hname]
  rfl

/-- When every name is changed once, each change counts. -/
theorem Restated.status?_of_mem (h : o.Restated changes o')
    (hnodup : (changes.map (·.1)).Nodup) (hmem : (name, status) ∈ changes) :
    o'.status? name = some status := by
  obtain ⟨before, after, rfl⟩ := List.append_of_mem hmem
  rw [List.map_append, List.map_cons, List.nodup_append] at hnodup
  have hafter : name ∉ after.map (·.1) := (List.nodup_cons.1 hnodup.2.1).1
  rw [h name, List.reverse_append, List.reverse_cons, List.append_assoc, List.lookup_append,
    lookup_reverse_eq_none hafter]
  simp

/-- A status has been changed to what it is, or it has not been changed. -/
theorem Restated.cases (h : o.Restated changes o') (hstatus : o'.status? name = some status) :
    (name, status) ∈ changes ∨ name ∉ changes.map (·.1) ∧ o.status? name = some status := by
  by_cases hname : name ∈ changes.map (·.1)
  · rw [h name, Option.or_eq_some_iff] at hstatus
    rcases hstatus with hchanged | ⟨hnone, -⟩
    · obtain ⟨before, after, heq, -⟩ := List.lookup_eq_some_iff.1 hchanged
      exact .inl (List.mem_reverse.1 (by simp [heq]))
    · obtain ⟨x, hx, rfl⟩ := List.mem_map.1 hname
      simpa using List.lookup_eq_none_iff.1 hnone x (List.mem_reverse.2 hx)
  · exact .inr ⟨hname, h.status?_of_not_mem hname ▸ hstatus⟩

/-- What is changed again does not count. -/
theorem Restated.of_overwritten {first rest : List (String × ProviderStatus)}
    (h : o.Restated (first ++ rest) o')
    (hrest : ∀ x ∈ first, x.1 ∈ rest.map (·.1)) : o.Restated rest o' := by
  intro other
  rw [h other, List.reverse_append, List.lookup_append, Option.or_assoc]
  cases hlast : rest.reverse.lookup other with
  | some status => rfl
  | none =>
    have hother : other ∉ first.map (·.1) := by
      intro hmem
      obtain ⟨x, hx, rfl⟩ := List.mem_map.1 hmem
      obtain ⟨y, hy, heq⟩ := List.mem_map.1 (hrest x hx)
      simpa [heq] using List.lookup_eq_none_iff.1 hlast y (List.mem_reverse.2 hy)
    rw [lookup_reverse_eq_none hother]
    rfl

end Restated

/-! ## One stop after another -/

/-- How the stop calls of providers end that are stopped one after another. -/
def stopEnds (s : σ) : List Provider → List (Provider × StopEnd)
  | [] => []
  | p :: rest => (p, (w.stop s p).1.1) :: stopEnds (w.stop s p).2 rest

theorem map_fst_stopEnds (s : σ) (providers : List Provider) :
    (stopEnds w s providers).map (·.1) = providers := by
  induction providers generalizing s with
  | nil => rfl
  | cons p rest ih => rw [stopEnds, List.map_cons, ih]

/-- What stopping providers one after another has done, when their calls have ended like this:
each call has ended before the next one, and the statuses tell how. -/
structure StoppedEach (o : Orchestrator) (ends : List (Provider × StopEnd))
    (history : List Happening) (o' : Orchestrator) : Prop where
  calls : history.filter (·.isStopping) = ends.flatMap (stopCall o.settings)
  statuses : o.Restated (ends.map fun x => (x.1.name, x.2.status)) o'

theorem value_stopEach_cons (o : Orchestrator) (s : σ) (p : Provider) (rest : List Provider) :
    (stopEach w o s (p :: rest)).value =
      let first := stopOne w o s p
      let others := (stopEach w first.orchestrator first.world rest).value
      { others with
        result := match first.result with
          | .ok _ => others.result
          | .error failure => .error failure
        history := first.history ++ others.history } := by
  rcases hfirst : (stopOne w o s p).result with failure | _ <;> simp [stopEach, hfirst]

/-- A token that is cancelled stays so while providers are stopped. -/
theorem cancelled_stopEach (o : Orchestrator) (s : σ) (providers : List Provider)
    (hcancelled : o.cancelled = true) :
    (stopEach w o s providers).value.orchestrator.cancelled = true := by
  induction providers generalizing o s with
  | nil => exact hcancelled
  | cons p rest ih =>
    rw [value_stopEach_cons]
    refine ih _ _ ?_
    simp [stopOne, setStatus, hcancelled]

theorem alike_stopOne (o : Orchestrator) (s : σ) (p : Provider) :
    o.Alike (stopOne w o s p).orchestrator := ⟨rfl, rfl, rfl, rfl⟩

theorem alike_stopEach (o : Orchestrator) (s : σ) (providers : List Provider) :
    o.Alike (stopEach w o s providers).value.orchestrator := by
  induction providers generalizing o s with
  | nil => exact Alike.refl o
  | cons p rest ih =>
    rw [value_stopEach_cons]
    exact (alike_stopOne w o s p).trans (ih _ _)

theorem stopsOf_stopOne (o : Orchestrator) (s : σ) (p : Provider) :
    stopsOf (stopOne w o s p).history = [p] := by
  rcases hstop : w.stop s p with ⟨⟨ending, cancelled⟩, s'⟩
  cases cancelled <;> simp [stopOne, hstop, stopsOf, Happening.stopFor?]

/-- Each of the providers is stopped once, in the order given. -/
theorem stopsOf_stopEach (o : Orchestrator) (s : σ) (providers : List Provider) :
    stopsOf (stopEach w o s providers).value.history = providers := by
  induction providers generalizing o s with
  | nil => rfl
  | cons p rest ih =>
    rw [value_stopEach_cons]
    show stopsOf (_ ++ _) = _
    rw [stopsOf_append, stopsOf_stopOne, ih]
    rfl

theorem stoppedEach_stopOne (o : Orchestrator) (s : σ) (p : Provider) :
    StoppedEach o [(p, (w.stop s p).1.1)] (stopOne w o s p).history
      (stopOne w o s p).orchestrator where
  calls := by
    rcases hstop : w.stop s p with ⟨⟨ending, cancelled⟩, s'⟩
    cases cancelled <;> simp [stopOne, hstop, Happening.isStopping, stopCall]
  statuses := by
    rcases hstop : w.stop s p with ⟨⟨ending, cancelled⟩, s'⟩
    have hchange : o.Restated [(p.name, ending.status)]
        (setStatus { o with cancelled := o.cancelled || cancelled } p.name ending.status) :=
      Restated.setStatus _ p.name ending.status
    cases ending <;> simpa [stopOne, hstop, StopEnd.failure?, StopEnd.status] using hchange

theorem stoppedEach_stopEach (o : Orchestrator) (s : σ) (providers : List Provider) :
    StoppedEach o (stopEnds w s providers) (stopEach w o s providers).value.history
      (stopEach w o s providers).value.orchestrator := by
  induction providers generalizing o s with
  | nil => exact ⟨rfl, Restated.refl o⟩
  | cons p rest ih =>
    obtain ⟨hcalls, hstatuses⟩ := stoppedEach_stopOne w o s p
    obtain ⟨hcalls', hstatuses'⟩ := ih (stopOne w o s p).orchestrator (stopOne w o s p).world
    rw [value_stopEach_cons]
    refine ⟨?_, hstatuses.trans hstatuses'⟩
    rw [List.filter_append, hcalls, hcalls']
    rfl

theorem ofStop_stopOne (o : Orchestrator) (s : σ) (p : Provider) :
    ∀ h ∈ (stopOne w o s p).history, h.OfStop := by
  rcases hstop : w.stop s p with ⟨⟨ending, cancelled⟩, s'⟩
  cases cancelled <;> simp [stopOne, hstop, Happening.OfStop]

theorem ofStop_stopEach (o : Orchestrator) (s : σ) (providers : List Provider) :
    ∀ h ∈ (stopEach w o s providers).value.history, h.OfStop := by
  induction providers generalizing o s with
  | nil => simp [stopEach]
  | cons p rest ih =>
    rw [value_stopEach_cons]
    intro h hh
    rcases List.mem_append.1 hh with hh | hh
    · exact ofStop_stopOne w o s p h hh
    · exact ih _ _ h hh

/-! ## Rolling back -/

/-- What a rollback has done. -/
structure RolledBack (o : Orchestrator) (failure : StartFailure)
    (passage : Passage σ StartFailure) : Prop where
  result : passage.result = .error failure
  settings : passage.orchestrator.settings = o.settings
  running : passage.orchestrator.running = false
  started : passage.orchestrator.started = []
  token : passage.orchestrator.token = if failure = .cancelled then o.token + 1 else o.token
  fresh : failure = .cancelled → passage.orchestrator.cancelled = false
  cancelled : failure ≠ .cancelled → o.cancelled = true → passage.orchestrator.cancelled = true
  stops : stopsOf passage.history = o.started.reverse
  stopped : ∃ ends, ends.map (·.1) = o.started.reverse ∧
    StoppedEach o ends passage.history passage.orchestrator
  ofStop : ∀ h ∈ passage.history, h.OfStop

/-- No task learns anything during a rollback. -/
theorem RolledBack.signalled_not_mem {o : Orchestrator} {failure : StartFailure}
    {passage : Passage σ StartFailure} (h : RolledBack o failure passage) (p : Provider)
    (signal : Signal) : .signalled p signal ∉ passage.history := fun hmem => h.ofStop _ hmem

theorem value_rollback (o : Orchestrator) (s : σ) (failure : StartFailure) :
    (rollback w o s failure).value =
      let passage := (stopEach w o s o.started.reverse).value
      let stopped := { passage.orchestrator with running := false, started := [] }
      { passage with
        result := .error failure
        orchestrator :=
          if failure = .cancelled then
            { stopped with token := stopped.token + 1, cancelled := false }
          else stopped } := by
  rcases hstop : (stopEach w o s o.started.reverse).value.result with e | _ <;>
    simp [rollback, stop, hstop]

theorem rolledBack_rollback (o : Orchestrator) (s : σ) (failure : StartFailure) :
    RolledBack o failure (rollback w o s failure).value := by
  obtain ⟨hsettings, -, -, htoken⟩ := alike_stopEach w o s o.started.reverse
  rw [value_rollback]
  have hstops := stopsOf_stopEach w o s o.started.reverse
  have hofStop := ofStop_stopEach w o s o.started.reverse
  have hcancelled := cancelled_stopEach w o s o.started.reverse
  refine ⟨rfl, ?settings, ?running, ?started, ?token, ?fresh, ?cancelled, hstops, ?stopped,
    hofStop⟩
  case stopped =>
    obtain ⟨hcalls, hstatuses⟩ := stoppedEach_stopEach w o s o.started.reverse
    refine ⟨_, map_fst_stopEnds w s o.started.reverse, hcalls, fun name => ?_⟩
    rw [← hstatuses name]
    by_cases hf : failure = .cancelled <;> simp [hf, status?]
  case cancelled =>
    intro hf hc
    simpa [hf] using hcancelled hc
  all_goals by_cases hf : failure = .cancelled <;> simp [hf, hsettings, htoken]

end Orchestrator

end LocalCloud
