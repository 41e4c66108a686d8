import LocalCloud.Startup.Wave

/-!
# The lives of tasks

A history tells for each provider what its task has learnt, in order (`signalsOf`).  Since a task
only learns what fits its phase, there are few lives that it can have had (`Task.Lived`), and what
has to be known of a task later on can be read off its life.
-/

namespace LocalCloud

/-! ## What a task has learnt -/

/-- What the task of a provider learns when something happens. -/
def Happening.signalFor? (p : Provider) : Happening → Option Signal
  | .signalled q signal => if q = p then some signal else none
  | _ => none

/-- What the task of a provider has learnt, in order. -/
def signalsOf (p : Provider) (history : List Happening) : List Signal :=
  history.filterMap (Happening.signalFor? p)

@[simp] theorem signalsOf_nil (p : Provider) : signalsOf p [] = [] := rfl

@[simp] theorem signalsOf_append (p : Provider) (first rest : List Happening) :
    signalsOf p (first ++ rest) = signalsOf p first ++ signalsOf p rest :=
  List.filterMap_append ..

@[simp] theorem signalsOf_signalled_cons (p q : Provider) (signal : Signal)
    (rest : List Happening) : signalsOf p (.signalled q signal :: rest) =
      if q = p then signal :: signalsOf p rest else signalsOf p rest := by
  by_cases h : q = p <;> simp [signalsOf, Happening.signalFor?, h]

theorem signalsOf_cons_of_ne {p : Provider} {h : Happening} {rest : List Happening}
    (hp : ∀ signal, h ≠ .signalled p signal) : signalsOf p (h :: rest) = signalsOf p rest := by
  refine List.filterMap_cons_none ?_
  cases h with
  | signalled q signal =>
    have hq : q ≠ p := fun hq => hp signal (by rw [hq])
    simp [Happening.signalFor?, hq]
  | _ => rfl

@[simp] theorem mem_signalsOf {p : Provider} {signal : Signal} {history : List Happening} :
    signal ∈ signalsOf p history ↔ .signalled p signal ∈ history := by
  rw [signalsOf, List.mem_filterMap]
  constructor
  · rintro ⟨h, hmem, heq⟩
    cases h with
    | signalled q s =>
      simp only [Happening.signalFor?, Option.ite_none_right_eq_some, Option.some.injEq] at heq
      obtain ⟨rfl, rfl⟩ := heq
      exact hmem
    | _ => simp [Happening.signalFor?] at heq
  · intro hmem
    exact ⟨_, hmem, by simp [Happening.signalFor?]⟩

/-- What a task has learnt stands in the history in this order. -/
theorem map_signalled_sublist (p : Provider) (history : List Happening) :
    ((signalsOf p history).map (.signalled p)).Sublist history := by
  induction history with
  | nil => exact List.Sublist.refl _
  | cons h rest ih =>
    by_cases hp : ∃ signal, h = .signalled p signal
    · obtain ⟨signal, rfl⟩ := hp
      simpa using ih
    · rw [signalsOf_cons_of_ne fun signal hs => hp ⟨signal, hs⟩]
      exact ih.cons h

/-- How often a task has learnt something can be counted in the history. -/
theorem count_signalled (p : Provider) (signal : Signal) (history : List Happening) :
    history.count (.signalled p signal) = (signalsOf p history).count signal := by
  induction history with
  | nil => rfl
  | cons h rest ih =>
    by_cases hp : ∃ s, h = .signalled p s
    · obtain ⟨s, rfl⟩ := hp
      simp [List.count_cons, ih]
    · rw [signalsOf_cons_of_ne fun s hs => hp ⟨s, hs⟩,
        List.count_cons_of_ne fun hs => hp ⟨signal, hs⟩, ih]

/-- Something in a history that goes on is in its first part or in the rest. -/
theorem append_split {first rest before after : List Happening} {h : Happening}
    (hsplit : first ++ rest = before ++ h :: after) :
    (∃ mid, first = before ++ h :: mid ∧ after = mid ++ rest) ∨
      ∃ mid, before = first ++ mid ∧ rest = mid ++ h :: after := by
  rcases List.append_eq_append_iff.1 hsplit with ⟨mid, hbefore, hrest⟩ | ⟨mid, hfirst, hafter⟩
  · exact .inr ⟨mid, hbefore, hrest⟩
  · cases mid with
    | nil => exact .inr ⟨[], by simpa using hfirst.symm, by simpa using hafter.symm⟩
    | cons x mid =>
      obtain ⟨rfl, htail⟩ := List.cons.inj hafter
      exact .inl ⟨mid, hfirst, htail⟩

/-! ## Lives -/

/-- Whether a task is over once it has learnt this. -/
def Signal.isLast : Signal → Bool
  | .refused _ | .died | .healthy | .stopEnded _ => true
  | .called | .launched | .overdue => false

/-- Whether the task of a provider has come to its end. -/
def Ended (p : Provider) (history : List Happening) : Prop :=
  ∃ signal, .signalled p signal ∈ history ∧ signal.isLast = true

theorem Ended.mono {p : Provider} {history history' : List Happening} (h : Ended p history)
    (hsub : history ⊆ history') : Ended p history' := by
  obtain ⟨signal, hmem, hlast⟩ := h
  exact ⟨signal, hsub hmem, hlast⟩

namespace Task

variable {settings : OrchestratorSettings} {t : Task} {past : List Signal}

/-- The lives that a task can have had: the task, and all that it has learnt so far. -/
inductive Lived (settings : OrchestratorSettings) : Task → List Signal → Prop
  | spawned (p : Provider) : Lived settings ⟨p, .spawned, false⟩ []
  | starting (p : Provider) : Lived settings ⟨p, .starting, false⟩ [.called]
  | refused (p : Provider) (reason : String) :
    Lived settings ⟨p, .finished (.failed (.refused p.name reason)), false⟩
      [.called, .refused reason]
  | diedStarting (p : Provider) : Lived settings ⟨p, .finished .died, false⟩ [.called, .died]
  | polling (p : Provider) : Lived settings ⟨p, .polling, true⟩ [.called, .launched]
  | running (p : Provider) :
    Lived settings ⟨p, .finished .running, true⟩ [.called, .launched, .healthy]
  | diedPolling (p : Provider) :
    Lived settings ⟨p, .finished .died, true⟩ [.called, .launched, .died]
  | stopping (p : Provider) : Lived settings ⟨p, .stopping, true⟩ [.called, .launched, .overdue]
  | unhealthy (p : Provider) (ending : StopEnd) :
    Lived settings ⟨p, .finished (.failed (.unhealthy p.name settings.healthTimeout)),
      launchedAfter true (.stopEnded ending)⟩ [.called, .launched, .overdue, .stopEnded ending]
  | diedStopping (p : Provider) :
    Lived settings ⟨p, .finished .died, true⟩ [.called, .launched, .overdue, .died]

/-- A signal that a task can learn continues its life. -/
theorem Lived.step {signal : Signal} {phase : Phase} (h : t.Lived settings past)
    (hnext : t.next? settings signal = some phase) :
    (t.step settings signal).Lived settings (past ++ [signal]) := by
  rw [Task.step, hnext]
  cases h with
  | spawned p =>
    cases signal <;> simp only [next?, Option.some.injEq, reduceCtorEq] at hnext
    subst hnext
    exact .starting p
  | starting p =>
    cases signal <;> simp only [next?, Option.some.injEq, reduceCtorEq] at hnext <;> subst hnext
    · exact .polling p
    · exact .refused p _
    · exact .diedStarting p
  | polling p =>
    cases signal <;> simp only [next?, Option.some.injEq, reduceCtorEq] at hnext <;> subst hnext
    · exact .diedPolling p
    · exact .running p
    · exact .stopping p
  | stopping p =>
    cases signal <;> simp only [next?, Option.some.injEq, reduceCtorEq] at hnext <;> subst hnext
    · exact .diedStopping p
    · exact .unhealthy p _
  | _ => simp [next?] at hnext

/-- No task learns anything twice. -/
theorem Lived.nodup (h : t.Lived settings past) : past.Nodup := by
  cases h <;> simp

/-- A provider that is launched has once returned from its start. -/
theorem Lived.launched_mem (h : t.Lived settings past) (hl : t.launched = true) :
    .launched ∈ past := by
  cases h <;> simp_all

/-- A task that is up has launched its provider. -/
theorem Lived.launched_of_running (h : t.Lived settings past) (hr : t.outcome? = some .running) :
    t.launched = true := by
  cases h <;> simp_all [outcome?]

/-- A task that is up has called the start, has seen it return and has found its provider
healthy. -/
theorem Lived.eq_of_running (h : t.Lived settings past) (hr : t.outcome? = some .running) :
    past = [.called, .launched, .healthy] := by
  cases h <;> simp_all [outcome?]

/-- The cancellation is never the failure of a task. -/
theorem Lived.failure_ne_cancelled (h : t.Lived settings past) {failure : StartFailure}
    (hf : t.outcome? = some (.failed failure)) : failure ≠ .cancelled := by
  cases h <;> simp [outcome?] at hf <;> simp [← hf]

/-- A task is over when it has learnt a last signal. -/
theorem Lived.isSome_outcome?_iff (h : t.Lived settings past) :
    t.outcome?.isSome ↔ ∃ signal ∈ past, signal.isLast = true := by
  cases h <;> simp [outcome?, Signal.isLast]

/-- Nothing but the call of the start comes before its return. -/
theorem Lived.eq_of_launched {before after : List Signal}
    (h : t.Lived settings (before ++ .launched :: after)) : before = [.called] := by
  have hnodup := h.nodup
  generalize hpast : before ++ .launched :: after = past at h
  rcases before with _ | ⟨first, _ | ⟨second, before⟩⟩
  · cases h <;> simp at hpast
  · cases h <;> simp_all
  · have hsecond : second ≠ .launched := by
      rintro rfl
      simp at hnodup
    cases h <;> simp_all

/-- After its start has returned a provider is being checked or is up, unless its task has called
its stop or has died. -/
theorem Lived.overdue_or_up {before after : List Signal}
    (h : t.Lived settings (before ++ .launched :: after)) (hdied : .died ∉ after) :
    .overdue ∈ after ∨
      t.launched = true ∧ (t.phase = .polling ∨ t.phase = .finished .running) := by
  obtain rfl := h.eq_of_launched
  generalize hpast : [.called] ++ .launched :: after = past at h
  cases h <;> simp_all

/-- A task calls the stop of its provider only after the start has returned. -/
theorem Lived.launched_mem_of_overdue {before after : List Signal}
    (h : t.Lived settings (before ++ .overdue :: after)) : .launched ∈ before := by
  generalize hpast : before ++ .overdue :: after = past at h
  rcases before with _ | ⟨first, _ | ⟨second, before⟩⟩
  · cases h <;> simp at hpast
  · cases h <;> simp at hpast
  · cases h <;> simp_all

end Task

end LocalCloud
