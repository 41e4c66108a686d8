import LocalCloud.Warning

/-!
# Computations that warn

What kinds of warnings a computation gives is settled step by step (`Noted.Warns`), and so is what
comes of an attempt: the lemmas here are for loops over lists.
-/

namespace LocalCloud

/-! ## Kinds of warnings -/

/-- All warnings of a computation are of a kind. -/
def Noted.Warns {α : Type} (P : Warning → Prop) (x : Noted α) : Prop := ∀ v ∈ x.warnings, P v

namespace Noted.Warns

variable {α β : Type} {P : Warning → Prop}

theorem pure (a : α) : (Pure.pure a : Noted α).Warns P := by simp [Warns]

theorem warn {v : Warning} (h : P v) : (Noted.warn v).Warns P := by
  simpa [Warns, Noted.warn] using h

theorem bind {x : Noted α} {f : α → Noted β} (hx : x.Warns P) (hf : ∀ a, (f a).Warns P) :
    (x >>= f).Warns P := by
  intro v hv
  rcases List.mem_append.1 hv with hv | hv
  · exact hx v hv
  · exact hf _ v hv

theorem foldlM {f : β → α → Noted β} (hf : ∀ b a, (f b a).Warns P) (xs : List α) (b : β) :
    (xs.foldlM f b).Warns P := by
  induction xs generalizing b with
  | nil => exact pure b
  | cons x xs ih => exact (hf b x).bind ih

theorem mapM {f : α → Noted β} (hf : ∀ a, (f a).Warns P) (xs : List α) : (xs.mapM f).Warns P := by
  induction xs with
  | nil => exact pure []
  | cons x xs ih =>
    rw [List.mapM_cons]
    exact (hf x).bind fun _ => ih.bind fun _ => pure _

end Noted.Warns

/-! ## Attempts one after another -/

namespace Attempt

variable {ε α β : Type}

theorem value_warn (w : Warning) : (Attempt.warn w : Attempt ε Unit).run.value = .ok () := rfl

/-- Of what follows a computation only what follows its value counts. -/
theorem bind_congr_of_value {x : Attempt ε α} {f g : α → Attempt ε β}
    (h : ∀ a, x.run.value = .ok a → f a = g a) : x >>= f = x >>= g := by
  refine ExceptT.ext ?_
  rw [ExceptT.run_bind, ExceptT.run_bind]
  refine Noted.ext ?_ ?_
  · rw [Noted.value_bind, Noted.value_bind]
    cases hx : x.run.value with
    | error e => rfl
    | ok a => simp only [h a hx]
  · rw [Noted.warnings_bind, Noted.warnings_bind]
    cases hx : x.run.value with
    | error e => rfl
    | ok a => simp only [h a hx]

theorem mem_of_filterMapM {f : α → Attempt ε (Option β)} {xs : List α} {ys : List β}
    (h : (xs.filterMapM f).run.value = .ok ys) {y : β} :
    y ∈ ys ↔ ∃ x ∈ xs, (f x).run.value = .ok (some y) := by
  induction xs generalizing ys with
  | nil =>
    obtain rfl : [] = ys := Except.ok.inj h
    simp
  | cons x xs ih =>
    rw [List.filterMapM_cons] at h
    obtain ⟨first?, hfirst, h⟩ := bind_eq_ok.1 h
    cases first? with
    | none => simpa [hfirst] using ih h
    | some first =>
      obtain ⟨rest, hrest, h⟩ := bind_eq_ok.1 h
      obtain rfl : first :: rest = ys := Except.ok.inj h
      simp [hfirst, ih hrest, eq_comm]

theorem value_filterMapM_map {γ : Type} {f : α → Attempt ε (Option β)} {g : γ → α} {r : γ → β}
    {xs : List γ} (h : ∀ x ∈ xs, (f (g x)).run.value = .ok (some (r x))) :
    ((xs.map g).filterMapM f).run.value = .ok (xs.map r) := by
  induction xs with
  | nil => rfl
  | cons x xs ih =>
    rw [List.map_cons, List.filterMapM_cons]
    have hrest := ih fun y hy => h y (List.mem_cons_of_mem x hy)
    exact bind_eq_ok.2 ⟨_, h x List.mem_cons_self, bind_eq_ok.2 ⟨_, hrest, rfl⟩⟩

/-- When each step treats two states alike, so do all. -/
theorem value_foldlM_map {φ : β → β} {f : β → α → Attempt ε β}
    (hf : ∀ b a, (f (φ b) a).run.value = (f b a).run.value.map φ) (xs : List α) (b : β) :
    (xs.foldlM f (φ b)).run.value = (xs.foldlM f b).run.value.map φ := by
  induction xs generalizing b with
  | nil => rfl
  | cons x xs ih =>
    rw [List.foldlM_cons, List.foldlM_cons, value_bind, value_bind, hf]
    cases (f b x).run.value with
    | error e => rfl
    | ok next => exact ih next

/-- In a loop that ends well so does the step for each element. -/
theorem exists_step_of_foldlM {f : β → α → Attempt ε β} {xs : List α} {b b' : β} {x : α}
    (h : (xs.foldlM f b).run.value = .ok b') (hx : x ∈ xs) :
    ∃ before after, (f before x).run.value = .ok after := by
  induction xs generalizing b with
  | nil => contradiction
  | cons y xs ih =>
    obtain ⟨next, hnext, hrest⟩ := bind_eq_ok.1 h
    rcases List.mem_cons.1 hx with rfl | hx
    · exact ⟨b, next, hnext⟩
    · exact ih hrest hx

theorem value_forM_warn (w : α → Warning) (xs : List α) :
    (xs.forM fun x => (Attempt.warn (w x) : Attempt ε Unit)).run.value = .ok () := by
  induction xs with
  | nil => rfl
  | cons x xs ih =>
    have hcons : ((x :: xs).forM fun x => (Attempt.warn (w x) : Attempt ε Unit)) =
        (Attempt.warn (w x) >>= fun _ => xs.forM fun x => Attempt.warn (w x)) := rfl
    rw [hcons, value_bind]
    exact ih

end Attempt

end LocalCloud
