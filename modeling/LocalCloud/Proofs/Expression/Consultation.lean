import LocalCloud.Expression.Condition
import LocalCloud.Proofs.Expression.Coverage

/-!
# The conditions that evaluating a condition looks up

An expression consults the conditions that it names, under either spelling, and those that its
operands choose branches by (`consulted`).  In two contexts that differ in nothing but conditions it
has the same value when these conditions have (`evaluate_congr`).
-/

namespace LocalCloud.Expression

mutual

/-- The conditions that evaluating an expression looks up, whichever of its parts are needed. -/
def consulted : Json → List String
  | .object [(key, argument)] =>
    match Intrinsic.shortName key, argument with
    | "Equals", .array [a, b] => choices a ++ choices b
    | "Not", .array [c] => consulted c
    | "And", .array cs => consultedInItems cs
    | "Or", .array cs => consultedInItems cs
    | "Condition", .string name => [name]
    | _, _ => []
  | _ => []

/-- The conditions of this kind in the items of a list. -/
def consultedInItems : List Json → List String
  | [] => []
  | item :: rest => consulted item ++ consultedInItems rest

end

theorem mem_consultedInItems {name : String} {items : List Json} :
    name ∈ consultedInItems items ↔ ∃ item ∈ items, name ∈ consulted item := by
  induction items with
  | nil => simp [consultedInItems]
  | cons item rest ih => simp [consultedInItems, ih]

/-- Two contexts that differ in nothing but conditions. -/
structure SameNames (ctx ctx' : Context) : Prop where
  resources : ctx.resources = ctx'.resources
  types : ctx.types = ctx'.types
  stack : ctx.stack = ctx'.stack

theorem SameNames.refl (ctx : Context) : SameNames ctx ctx := ⟨rfl, rfl, rfl⟩

theorem SameNames.symm {ctx ctx' : Context} (h : SameNames ctx ctx') : SameNames ctx' ctx :=
  ⟨h.resources.symm, h.types.symm, h.stack.symm⟩

theorem SameNames.trans {ctx₁ ctx₂ ctx₃ : Context} (h : SameNames ctx₁ ctx₂)
    (h' : SameNames ctx₂ ctx₃) : SameNames ctx₁ ctx₃ :=
  ⟨h.resources.trans h'.resources, h.types.trans h'.types, h.stack.trans h'.stack⟩

section Congruence

variable {ctx ctx' : Context} (hnames : SameNames ctx ctx')

include hnames

theorem SameNames.agree {v : Json}
    (h : ∀ name ∈ choices v, ctx.condition? name = ctx'.condition? name) : Agree ctx ctx' v where
  names := fun id _ => by
    rw [AgreeOn, Context.resource?, Context.resource?, Context.type?, Context.type?,
      hnames.resources, hnames.types]
    exact ⟨rfl, rfl⟩
  choices := h

omit hnames in
theorem allM_congr {cs : List Json} {f g : Json → Noted Bool} (h : ∀ c ∈ cs, f c = g c) :
    cs.allM f = cs.allM g := by
  induction cs with
  | nil => rfl
  | cons c cs ih =>
    obtain ⟨hc, hcs⟩ := List.forall_mem_cons.1 h
    rw [List.allM, List.allM, hc, ih hcs]

omit hnames in
theorem anyM_congr {cs : List Json} {f g : Json → Noted Bool} (h : ∀ c ∈ cs, f c = g c) :
    cs.anyM f = cs.anyM g := by
  induction cs with
  | nil => rfl
  | cons c cs ih =>
    obtain ⟨hc, hcs⟩ := List.forall_mem_cons.1 h
    rw [List.anyM, List.anyM, hc, ih hcs]

theorem evaluateCall_congr {inner inner' : Json → Noted Bool} {levels : Nat} {key : String}
    {argument : Json}
    (hinner : ∀ c, (∀ name ∈ consulted c, ctx.condition? name = ctx'.condition? name) →
      inner c = inner' c)
    (h : ∀ name ∈ consulted (.object [(key, argument)]),
      ctx.condition? name = ctx'.condition? name) :
    evaluateCall inner (resolveWithin ctx levels) ctx (Intrinsic.shortName key) argument =
      evaluateCall inner' (resolveWithin ctx' levels) ctx' (Intrinsic.shortName key) argument := by
  rw [consulted.eq_def] at h
  unfold evaluateCall
  split
  · next a b hkey =>
    simp only [hkey, List.forall_mem_append] at h
    rw [resolveWithin_of_agree hnames.stack levels (hnames.agree h.1),
      resolveWithin_of_agree hnames.stack levels (hnames.agree h.2)]
  · next c hkey =>
    simp only [hkey] at h
    rw [hinner c h]
  · next cs hkey =>
    simp only [hkey] at h
    refine allM_congr fun c hc => hinner c fun name hname => ?_
    exact h name (mem_consultedInItems.2 ⟨c, hc, hname⟩)
  · next cs hkey =>
    simp only [hkey] at h
    refine anyM_congr fun c hc => hinner c fun name hname => ?_
    exact h name (mem_consultedInItems.2 ⟨c, hc, hname⟩)
  · next name hkey =>
    simp only [hkey] at h
    rw [Context.holds, h name (by simp), ← Context.holds]
  · rfl
  · rfl

theorem evaluateWithin_congr (levels : Nat) {e : Json}
    (h : ∀ name ∈ consulted e, ctx.condition? name = ctx'.condition? name) :
    evaluateWithin ctx levels e = evaluateWithin ctx' levels e := by
  induction levels generalizing e with
  | zero => rfl
  | succ levels ih =>
    unfold evaluateWithin
    split
    · rfl
    · rfl
    · exact evaluateCall_congr hnames (fun c hc => ih hc) h
    · rfl

/-- The value of a condition depends, as far as conditions go, on those that it consults. -/
theorem evaluate_congr {e : Json}
    (h : ∀ name ∈ consulted e, ctx.condition? name = ctx'.condition? name) :
    evaluate ctx e = evaluate ctx' e := evaluateWithin_congr hnames (nestingLimit + 1) h

end Congruence

end LocalCloud.Expression
