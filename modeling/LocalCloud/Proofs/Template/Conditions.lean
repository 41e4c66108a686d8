import LocalCloud.Proofs.Expression.Consultation
import LocalCloud.Template.Context
import Mathlib.Logic.Relation

/-!
# The values of conditions do not depend on their order

The conditions of a template are evaluated in the order in which they are declared, each after those
that it names.  What counts for its value are those that it consults.  Where a condition names all
that it consults, and none of these leads back to it (`Orderly`), the context gives every condition
the value of its expression in that same context (`settled_context`).  Nothing else about the
context gives these values, so no order of the declarations gives others (`Settled.unique`).
-/

namespace LocalCloud

namespace Context

variable {ctx : Context} {name other : String} {value v : Bool}

theorem condition?_bindCondition :
    (ctx.bindCondition name value).condition? other =
      (ctx.condition? other).or (if other = name then some value else none) :=
  lookup_bindOnce ctx.conditions name other value

theorem condition?_bindCondition_of_ne (h : other ≠ name) :
    (ctx.bindCondition name value).condition? other = ctx.condition? other := by
  simp [condition?_bindCondition, h]

theorem condition?_bindCondition_self (h : ctx.condition? name = none) :
    (ctx.bindCondition name value).condition? name = some value := by
  simp [condition?_bindCondition, h]

theorem condition?_bindCondition_of_some (h : ctx.condition? other = some v) :
    (ctx.bindCondition name value).condition? other = some v := by
  simp [condition?_bindCondition, h]

end Context

namespace Template

open Expression (SameNames consulted evaluate evaluate_congr)
open Relation (ReflTransGen TransGen)

section

variable (t : Template)

/-- A condition that the template declares. -/
def Declares (name : String) : Prop := name ∈ t.conditions.map (·.1)

/-- Evaluating the first condition looks up the second. -/
def Consults (name other : String) : Prop :=
  ∃ e, t.conditions.lookup name = some e ∧ other ∈ consulted e

/-- The first condition names the second, which is then evaluated before it. -/
def Names (name other : String) : Prop :=
  ∃ e, t.conditions.lookup name = some e ∧ other ∈ namedConditions e

/-- Evaluating a condition after those that it names is evaluating it after those that it
consults. -/
structure Orderly : Prop where
  /-- A condition names the declared ones that it consults. -/
  named : ∀ {name other}, t.Consults name other → t.Declares other → t.Names name other
  /-- What a condition consults does not lead back to it. -/
  forward : ∀ {name other}, t.Consults name other → ¬ ReflTransGen t.Names other name

/-- Each declared condition has the value of its expression, and nothing else is bound. -/
structure Settled (ctx : Context) : Prop where
  names : SameNames t.baseContext ctx
  values : ∀ name, ctx.condition? name =
    (t.conditions.lookup name).map fun e => (evaluate ctx e).value

/-- Some conditions have been evaluated, each after those that it consults. -/
structure Bound (ctx : Context) : Prop where
  names : SameNames t.baseContext ctx
  /-- What a bound condition consults is bound too, and gives it its value. -/
  values : ∀ {name v}, ctx.condition? name = some v → ∃ e, t.conditions.lookup name = some e ∧
    v = (evaluate ctx e).value ∧
    ∀ other ∈ consulted e, t.Declares other → (ctx.condition? other).isSome
  /-- No settled context gives a bound condition another value. -/
  forced : ∀ {settled}, t.Settled settled → ∀ {name v}, ctx.condition? name = some v →
    settled.condition? name = some v

end

variable {t : Template} {ctx ctx' : Context} {visiting : List String} {name other : String}
  {e : Json} {v : Bool}

/-- If a condition names just what it consults, it is enough that no condition consults itself by way
of others. -/
theorem orderly_of_acyclic
    (hfound : ∀ name e, t.conditions.lookup name = some e → namedConditions e = consulted e)
    (hacyclic : ∀ name, ¬ TransGen t.Consults name name) : t.Orderly := by
  have hnames : t.Names = t.Consults := by
    ext name other
    refine exists_congr fun e => and_congr_right fun he => ?_
    rw [hfound name e he]
  refine ⟨fun h _ => hnames ▸ h, fun {name other} h hback => hacyclic name ?_⟩
  rw [hnames] at hback
  exact .head' h hback

theorem declares_of_lookup (h : t.conditions.lookup name = some e) : t.Declares name :=
  Json.key_mem_of_lookup h

theorem not_declares_of_lookup (h : t.conditions.lookup name = none) : ¬ t.Declares name := by
  rintro hname
  obtain ⟨declared, hmem, rfl⟩ := List.mem_map.1 hname
  simpa using List.lookup_eq_none_iff.1 h declared hmem

theorem lookup_of_not_declares (h : ¬ t.Declares name) : t.conditions.lookup name = none :=
  Option.eq_none_iff_forall_not_mem.2 fun _ he => h (declares_of_lookup he)

theorem Settled.condition?_of_not_declares (h : t.Settled ctx) (hname : ¬ t.Declares name) :
    ctx.condition? name = none := by
  rw [h.values, lookup_of_not_declares hname, Option.map_none]

namespace Bound

theorem declares (h : t.Bound ctx) (hv : ctx.condition? name = some v) : t.Declares name := by
  obtain ⟨e, he, -⟩ := h.values hv
  exact declares_of_lookup he

theorem condition?_of_not_declares (h : t.Bound ctx) (hname : ¬ t.Declares name) :
    ctx.condition? name = none :=
  Option.eq_none_iff_forall_not_mem.2 fun _ hv => hname (h.declares hv)

/-- All that an expression consults is bound, as far as it is declared: then every settled context
gives it the same value. -/
theorem evaluate_settled (h : t.Bound ctx) {settled : Context} (hsettled : t.Settled settled)
    (hneeds : ∀ other ∈ consulted e, t.Declares other → (ctx.condition? other).isSome) :
    evaluate ctx e = evaluate settled e := by
  refine evaluate_congr (h.names.symm.trans hsettled.names) fun other hother => ?_
  by_cases hdeclared : t.Declares other
  · obtain ⟨v, hv⟩ := Option.isSome_iff_exists.1 (hneeds other hother hdeclared)
    rw [hv, h.forced hsettled hv]
  · rw [h.condition?_of_not_declares hdeclared, hsettled.condition?_of_not_declares hdeclared]

theorem bindCondition (h : t.Bound ctx) (he : t.conditions.lookup name = some e)
    (hname : ctx.condition? name = none)
    (hneeds : ∀ other ∈ consulted e, t.Declares other → (ctx.condition? other).isSome) :
    t.Bound (ctx.bindCondition name (evaluate ctx e).value) := by
  set ctx' := ctx.bindCondition name (evaluate ctx e).value with hctx'
  have hnames : SameNames ctx ctx' := ⟨rfl, rfl, rfl⟩
  -- An expression whose conditions were bound before has kept its value, and they are still bound.
  have hkept : ∀ {e}, (∀ other ∈ consulted e, t.Declares other → (ctx.condition? other).isSome) →
      evaluate ctx e = evaluate ctx' e ∧
        ∀ other ∈ consulted e, t.Declares other → (ctx'.condition? other).isSome := by
    intro e hneeds
    have hsame : ∀ other ∈ consulted e, ctx'.condition? other = ctx.condition? other := by
      intro other hother
      refine Context.condition?_bindCondition_of_ne ?_
      rintro rfl
      simpa [hname] using hneeds other hother (declares_of_lookup he)
    refine ⟨evaluate_congr hnames fun other hother => (hsame other hother).symm, ?_⟩
    intro other hother hdeclared
    rw [hsame other hother]
    exact hneeds other hother hdeclared
  have hself : ctx'.condition? name = some (evaluate ctx e).value :=
    Context.condition?_bindCondition_self hname
  have hother : ∀ {other}, other ≠ name → ctx'.condition? other = ctx.condition? other :=
    Context.condition?_bindCondition_of_ne
  refine ⟨h.names.trans hnames, fun {other v} hv => ?_, fun {settled} hsettled {other v} hv => ?_⟩
  · by_cases hne : other = name
    · subst hne
      obtain rfl : (evaluate ctx e).value = v := Option.some_inj.1 (hself.symm.trans hv)
      obtain ⟨hvalue, hbound⟩ := hkept hneeds
      exact ⟨e, he, by rw [hvalue], hbound⟩
    · rw [hother hne] at hv
      obtain ⟨e', he', rfl, hneeds'⟩ := h.values hv
      obtain ⟨hvalue, hbound⟩ := hkept hneeds'
      exact ⟨e', he', by rw [hvalue], hbound⟩
  · by_cases hne : other = name
    · subst hne
      rw [← hv, hself, hsettled.values, he, Option.map_some, h.evaluate_settled hsettled hneeds]
    · rw [hother hne] at hv
      exact h.forced hsettled hv

theorem settled (h : t.Bound ctx) (hall : ∀ name, t.Declares name → (ctx.condition? name).isSome) :
    t.Settled ctx where
  names := h.names
  values := by
    intro name
    cases he : t.conditions.lookup name with
    | none => exact h.condition?_of_not_declares (not_declares_of_lookup he)
    | some e =>
      obtain ⟨v, hv⟩ := Option.isSome_iff_exists.1 (hall name (declares_of_lookup he))
      obtain ⟨e', he', rfl, -⟩ := h.values hv
      obtain rfl : e = e' := Option.some_inj.1 (he.symm.trans he')
      exact hv

end Bound

/-! ### One condition after another -/

/-- What evaluating conditions does to the context, while `visiting` have been begun. -/
structure Advances (t : Template) (visiting : List String) (ctx ctx' : Context) : Prop where
  bound : t.Bound ctx'
  grows : ∀ {name v}, ctx.condition? name = some v → ctx'.condition? name = some v
  untouched : ∀ {name}, name ∈ visiting → ctx'.condition? name = ctx.condition? name

namespace Advances

theorem refl (h : t.Bound ctx) : t.Advances visiting ctx ctx := ⟨h, id, fun _ => rfl⟩

theorem trans {ctx₁ ctx₂ ctx₃ : Context} (h : t.Advances visiting ctx₁ ctx₂)
    (h' : t.Advances visiting ctx₂ ctx₃) : t.Advances visiting ctx₁ ctx₃ where
  bound := h'.bound
  grows := fun hv => h'.grows (h.grows hv)
  untouched := fun hv => (h'.untouched hv).trans (h.untouched hv)

theorem isSome (h : t.Advances visiting ctx ctx') (hv : (ctx.condition? name).isSome) :
    (ctx'.condition? name).isSome := by
  obtain ⟨v, hv⟩ := Option.isSome_iff_exists.1 hv
  simp [h.grows hv]

/-- Finishing a condition whose evaluation had begun. -/
theorem finish (h : t.Advances (name :: visiting) ctx ctx') (hname : name ∉ visiting)
    (hfresh : ctx.condition? name = none) (he : t.conditions.lookup name = some e)
    (hneeds : ∀ other ∈ consulted e, t.Declares other → (ctx'.condition? other).isSome) :
    t.Advances visiting ctx (ctx'.bindCondition name (evaluate ctx' e).value) where
  bound := by
    refine h.bound.bindCondition he ?_ hneeds
    rw [h.untouched List.mem_cons_self, hfresh]
  grows := fun hv => Context.condition?_bindCondition_of_some (h.grows hv)
  untouched := by
    intro other hother
    rw [Context.condition?_bindCondition_of_ne (ne_of_mem_of_not_mem hother hname)]
    exact h.untouched (List.mem_cons_of_mem _ hother)

end Advances

/-- Evaluating `name` while `visiting` have been begun gives it a value, unless it has been begun
too. -/
def Evaluates (t : Template) (visiting : List String) (name : String) (ctx ctx' : Context) : Prop :=
  t.Advances visiting ctx ctx' ∧ (t.Declares name → name ∉ visiting → (ctx'.condition? name).isSome)

/-- Conditions evaluated one after another are all bound at the end. -/
theorem evaluates_foldl {names : List String} {f : Context → String → Context} (h : t.Bound ctx)
    (hf : ∀ ctx, t.Bound ctx → ∀ name ∈ names, t.Evaluates visiting name ctx (f ctx name)) :
    t.Advances visiting ctx (names.foldl f ctx) ∧
      ∀ name ∈ names, t.Declares name → name ∉ visiting →
        ((names.foldl f ctx).condition? name).isSome := by
  induction names generalizing ctx with
  | nil => exact ⟨.refl h, by simp⟩
  | cons first rest ih =>
    obtain ⟨hadvances, hfirst⟩ := hf ctx h first List.mem_cons_self
    obtain ⟨hrest, hall⟩ := ih hadvances.bound
      fun ctx h name hname => hf ctx h name (List.mem_cons_of_mem _ hname)
    refine ⟨hadvances.trans hrest, fun name hname hdeclared hvisiting => ?_⟩
    rcases List.mem_cons.1 hname with rfl | hname
    · exact hrest.isSome (hfirst hdeclared hvisiting)
    · exact hall name hname hdeclared hvisiting

/-- Every condition whose evaluation has begun leads to the one that is evaluated next. -/
theorem evaluates_bindNamed (ht : t.Orderly) (h : t.Bound ctx)
    (hpath : ∀ begun ∈ visiting, ReflTransGen t.Names begun name) :
    t.Evaluates visiting name ctx (t.bindNamed visiting ctx name).value := by
  fun_induction bindNamed t visiting ctx name with
  | case1 visiting ctx name hbound => exact ⟨.refl h, fun _ _ => hbound⟩
  | case2 visiting ctx name _ he =>
    exact ⟨.refl h, fun hdeclared => absurd hdeclared (not_declares_of_lookup he)⟩
  | case3 visiting ctx name _ e he hvisiting => exact ⟨.refl h, fun _ hnot => absurd hvisiting hnot⟩
  | case4 visiting ctx name hfresh e he hvisiting ih =>
    have hfresh : ctx.condition? name = none := by simpa using hfresh
    simp only [Noted.value_bind, Noted.value_pure, Noted.value_foldlM]
    have hnamed : ∀ ctx, t.Bound ctx → ∀ needed ∈ namedConditions e,
        t.Evaluates (name :: visiting) needed ctx
          (t.bindNamed (name :: visiting) ctx needed).value := by
      intro ctx h needed hneeded
      refine ih ctx needed h fun begun hbegun => ?_
      have hstep : t.Names name needed := ⟨e, he, hneeded⟩
      rcases List.mem_cons.1 hbegun with rfl | hbegun
      · exact .single hstep
      · exact (hpath begun hbegun).tail hstep
    obtain ⟨hadvances, hall⟩ := evaluates_foldl h hnamed
    set ctx' := (namedConditions e).foldl
      (fun ctx needed => (t.bindNamed (name :: visiting) ctx needed).value) ctx
    -- What it consults it names, and none of it has been begun: that would lead back to it.
    have hneeds : ∀ other ∈ consulted e, t.Declares other → (ctx'.condition? other).isSome := by
      intro other hother hdeclared
      have hconsults : t.Consults name other := ⟨e, he, hother⟩
      obtain ⟨e', he', hmem⟩ := ht.named hconsults hdeclared
      obtain rfl : e = e' := Option.some_inj.1 (he.symm.trans he')
      refine hall other hmem hdeclared fun hbegun => ?_
      rcases List.mem_cons.1 hbegun with rfl | hbegun
      · exact ht.forward hconsults .refl
      · exact ht.forward hconsults (hpath other hbegun)
    refine ⟨hadvances.finish hvisiting hfresh he hneeds, fun _ _ => ?_⟩
    rw [Context.condition?_bindCondition_self]
    · rfl
    · rw [hadvances.untouched List.mem_cons_self, hfresh]

/-! ### The context of a template -/

theorem conditions_foldl {α : Type} {f : Context → α → Context}
    (hf : ∀ ctx x, (f ctx x).conditions = ctx.conditions) (xs : List α) (ctx : Context) :
    (xs.foldl f ctx).conditions = ctx.conditions := by
  induction xs generalizing ctx with
  | nil => rfl
  | cons x xs ih => rw [List.foldl_cons, ih, hf]

theorem conditions_baseContext : t.baseContext.conditions = [] := by
  rw [baseContext, conditions_foldl, conditions_foldl]
  · rintro ctx ⟨name, _ | value⟩ <;> rfl
  · exact fun _ _ => rfl

theorem condition?_baseContext : t.baseContext.condition? name = none := by
  rw [Context.condition?, conditions_baseContext, List.lookup_nil]

theorem bound_baseContext : t.Bound t.baseContext where
  names := .refl _
  values := fun hv => by simp [condition?_baseContext] at hv
  forced := fun _ _ _ hv => by simp [condition?_baseContext] at hv

theorem bound_context (ht : t.Orderly) : t.Bound t.context.value ∧
    ∀ name, t.Declares name → (t.context.value.condition? name).isSome := by
  have hstep : ∀ ctx, t.Bound ctx → ∀ name ∈ t.conditions.map (·.1),
      t.Evaluates [] name ctx (t.bindNamed [] ctx name).value :=
    fun ctx h name _ => evaluates_bindNamed ht h (by simp)
  obtain ⟨hadvances, hall⟩ := evaluates_foldl bound_baseContext hstep
  rw [context, Noted.value_foldlM]
  exact ⟨hadvances.bound, fun name hname => hall name hname hname List.not_mem_nil⟩

/-- The context gives each condition the value of its expression. -/
theorem settled_context (ht : t.Orderly) : t.Settled t.context.value :=
  (bound_context ht).1.settled (bound_context ht).2

/-- Another context that does so gives all conditions the same values. -/
theorem Settled.condition?_eq (h : t.Settled ctx) (ht : t.Orderly) (name : String) :
    ctx.condition? name = t.context.value.condition? name := by
  by_cases hname : t.Declares name
  · obtain ⟨v, hv⟩ := Option.isSome_iff_exists.1 ((bound_context ht).2 name hname)
    rw [hv, (bound_context ht).1.forced h hv]
  · rw [h.condition?_of_not_declares hname,
      (settled_context ht).condition?_of_not_declares hname]

/-! ### Reordered declarations -/

theorem lookup_eq_of_perm {α : Type} {xs ys : List (String × α)} (h : xs.Perm ys)
    (hnodup : (xs.map (·.1)).Nodup) (name : String) : xs.lookup name = ys.lookup name := by
  induction h with
  | nil => rfl
  | cons binding _ ih =>
    obtain ⟨key, value⟩ := binding
    rw [List.map_cons, List.nodup_cons] at hnodup
    rw [List.lookup_cons, List.lookup_cons, ih hnodup.2]
  | swap second first rest =>
    obtain ⟨key, value⟩ := first
    obtain ⟨key', value'⟩ := second
    have hne : key ≠ key' := by
      rintro rfl
      simp at hnodup
    by_cases hkey : name = key
    · subst hkey
      simp [List.lookup_cons, beq_eq_false_iff_ne.2 hne]
    · simp [List.lookup_cons, beq_eq_false_iff_ne.2 hkey]
  | trans h _ ih ih' => exact (ih hnodup).trans (ih' ((h.map _).nodup_iff.1 hnodup))

section Reordered

variable {conditions : Json.Fields}
  (hlookup : ∀ name, conditions.lookup name = t.conditions.lookup name)

include hlookup

theorem Settled.reordered (h : t.Settled ctx) : { t with conditions }.Settled ctx where
  names := h.names
  values := fun name => by rw [h.values, hlookup]

theorem Orderly.reordered (ht : t.Orderly)
    (hdeclares : ∀ name, { t with conditions }.Declares name → t.Declares name) :
    { t with conditions }.Orderly := by
  have hconsults : ∀ {name other}, { t with conditions }.Consults name other →
      t.Consults name other := by
    rintro name other ⟨e, he, hother⟩
    exact ⟨e, (hlookup name).symm.trans he, hother⟩
  have hnames : { t with conditions }.Names = t.Names := by
    ext name other
    simp only [Names, hlookup]
  constructor
  · intro name other h hdeclared
    rw [hnames]
    exact ht.named (hconsults h) (hdeclares other hdeclared)
  · intro name other h
    rw [hnames]
    exact ht.forward (hconsults h)

end Reordered

/-- In an orderly template every condition has the value of its expression in the context of the
template, and no order of the declarations changes the value of a condition or whether a resource
is included. -/
theorem conditions_order_irrelevant (t : Template) (ht : t.Orderly)
    (hnodup : (t.conditions.map (·.1)).Nodup) :
    (∀ name e, t.conditions.lookup name = some e →
      t.context.value.condition? name = some (evaluate t.context.value e).value) ∧
    ∀ conditions : Json.Fields, conditions.Perm t.conditions →
      (∀ name, { t with conditions }.context.value.condition? name =
        t.context.value.condition? name) ∧
      ∀ r : Resource, r.isIncluded { t with conditions }.context.value =
        r.isIncluded t.context.value := by
  have hsettled : t.Settled t.context.value := settled_context ht
  refine ⟨fun name e he => by rw [hsettled.values, he, Option.map_some], ?_⟩
  intro conditions hperm
  have hlookup : ∀ name, conditions.lookup name = t.conditions.lookup name := fun name =>
    (lookup_eq_of_perm hperm.symm hnodup name).symm
  have ht' : { t with conditions }.Orderly :=
    ht.reordered hlookup fun name hname => (hperm.map _).mem_iff.1 hname
  have hcondition : ∀ name, { t with conditions }.context.value.condition? name =
      t.context.value.condition? name := fun name =>
    ((hsettled.reordered hlookup).condition?_eq ht' name).symm
  refine ⟨hcondition, fun r => ?_⟩
  cases hr : r.condition with
  | none => simp only [Resource.isIncluded, hr]
  | some name => simp only [Resource.isIncluded, hr, Context.holds, hcondition]

/-! ### Two templates -/

theorem mem_of_lookup {α : Type} {xs : List (String × α)} {value : α}
    (h : xs.lookup name = some value) : (name, value) ∈ xs := by
  obtain ⟨before, after, rfl, -⟩ := List.lookup_eq_some_iff.1 h
  simp

theorem acyclic_of_single {first second : String} (hne : first ≠ second)
    (h : ∀ {name other}, t.Consults name other → name = first ∧ other = second) (name : String) :
    ¬ TransGen t.Consults name name := by
  intro hcycle
  obtain ⟨next, hnext, -⟩ := TransGen.head'_iff.1 hcycle
  obtain ⟨previous, -, hprevious⟩ := TransGen.tail'_iff.1 hcycle
  exact hne ((h hnext).1.symm.trans (h hprevious).2)

/-- A condition declared before the only one that it consults, and names. -/
def forwardReference : Template where
  stack := "Store"
  conditions :=
    [("Archive", .object [("Fn::And", .array [.object [("Condition", .string "Production")]])]),
      ("Production", .object [("Fn::Equals", .array [.string "dev", .string "prod"])])]

theorem forwardReference_orderly : forwardReference.Orderly := by
  have hcases : ∀ {name e}, forwardReference.conditions.lookup name = some e →
      namedConditions e = consulted e ∧
        (name = "Archive" ∧ consulted e = ["Production"] ∨ consulted e = []) := by
    intro name e he
    have hmem := mem_of_lookup he
    simp only [forwardReference, List.mem_cons, Prod.mk.injEq, List.not_mem_nil, or_false] at hmem
    rcases hmem with ⟨rfl, rfl⟩ | ⟨rfl, rfl⟩
    · exact ⟨by decide +kernel, .inl ⟨rfl, by decide +kernel⟩⟩
    · exact ⟨by decide +kernel, .inr (by decide +kernel)⟩
  have hconsults : ∀ {name other}, forwardReference.Consults name other →
      name = "Archive" ∧ other = "Production" := by
    rintro name other ⟨e, he, hother⟩
    rcases (hcases he).2 with ⟨hname, hconsulted⟩ | hconsulted
    · exact ⟨hname, by simpa [hconsulted] using hother⟩
    · simp [hconsulted] at hother
  exact orderly_of_acyclic (fun _ _ he => (hcases he).1) (acyclic_of_single (by decide) hconsults)

theorem forwardReference_reordered :
    forwardReference.Orderly ∧ (forwardReference.conditions.map (·.1)).Nodup ∧
    forwardReference.context.value.condition? "Archive" = some false ∧
    Context.condition? { forwardReference with
        conditions := forwardReference.conditions.reverse }.context.value "Archive" =
      forwardReference.context.value.condition? "Archive" := by
  have hnodup : (forwardReference.conditions.map (·.1)).Nodup := by decide
  obtain ⟨hvalues, hreordered⟩ :=
    conditions_order_irrelevant forwardReference forwardReference_orderly hnodup
  refine ⟨forwardReference_orderly, hnodup, ?_, ?_⟩
  · rw [hvalues "Archive" _ rfl]
    decide +kernel
  · exact (hreordered _ (List.reverse_perm _)).1 "Archive"

/-- A condition that consults another one without naming it, as the other spelling is not looked
for. -/
def longSpelling : Template where
  stack := "Store"
  conditions :=
    [("Archive", .object [("Fn::Condition", .string "Production")]),
      ("Production", .object [("Fn::Equals", .array [.string "dev", .string "prod"])])]

/-- It is not enough that no condition consults itself by way of others. -/
theorem longSpelling_misses_reference :
    ¬ ∀ t : Template, (∀ name, ¬ TransGen t.Consults name name) →
      ∀ name e, t.conditions.lookup name = some e →
        t.context.value.condition? name = some (evaluate t.context.value e).value := by
  intro h
  have hconsults : ∀ {name other}, longSpelling.Consults name other →
      name = "Archive" ∧ other = "Production" := by
    rintro name other ⟨e, he, hother⟩
    have hmem := mem_of_lookup he
    simp only [longSpelling, List.mem_cons, Prod.mk.injEq, List.not_mem_nil, or_false] at hmem
    rcases hmem with ⟨rfl, rfl⟩ | ⟨rfl, rfl⟩
    · have hconsulted : consulted (.object [("Fn::Condition", .string "Production")]) =
          ["Production"] := by decide +kernel
      rw [hconsulted] at hother
      exact ⟨rfl, List.mem_singleton.1 hother⟩
    · have hconsulted :
          consulted (.object [("Fn::Equals", .array [.string "dev", .string "prod"])]) = [] := by
        decide +kernel
      simp [hconsulted] at hother
  have hacyclic : ∀ name, ¬ TransGen longSpelling.Consults name name :=
    acyclic_of_single (by decide) hconsults
  have hbound : longSpelling.context.value.condition? "Archive" = some true := by decide +kernel
  have hvalue : (evaluate longSpelling.context.value
      (.object [("Fn::Condition", .string "Production")])).value = false := by decide +kernel
  have hclaimed := h longSpelling hacyclic "Archive" _ rfl
  rw [hbound, hvalue] at hclaimed
  exact absurd hclaimed (by decide)

end Template

end LocalCloud
