import LocalCloud.Proofs.Template.Conditions

/-!
# Evaluating conditions that refer to each other

Before a condition is evaluated those that it names are, and a set of the conditions that have been
begun keeps this from going round in circles.  Here the set is part of a state, as is every binding
that has been made (`Evaluation`), and evaluation is a relation between states (`BindsEach`), which
says nothing about its ending.  It ends from every state, in one way (`exists_bindsEach`,
`BindsEach.unique`), since fewer and fewer conditions are left to begin; what it leaves behind is
told by `Leaves`, and it leads to the context of the template (`BindsEach.ctx_eq`).

A condition that has been begun counts as true until it has a value.  That is how the relation has
it, in the context that an expression is evaluated in (`Context.assuming`); the context of the
template comes by it because nothing but its truth is ever asked of a condition
(`Expression.evaluate_of_holds`).
-/

namespace LocalCloud

/-! ## What is asked of conditions -/

namespace Expression

variable {ctx : Context} {conditions : List (String × Bool)}

section Holds

variable (h : ∀ name, Context.holds { ctx with conditions } name = ctx.holds name)

include h

theorem resolveCall_of_holds (inner deeper : Json → Noted Json) (i : Intrinsic) (argument : Json) :
    resolveCall inner deeper { ctx with conditions } i argument =
      resolveCall inner deeper ctx i argument := by
  cases i with
  | ifElse => simp only [resolveCall, resolveIf, h]
  | _ => rfl

theorem step_of_holds (inner deeper : Json → Noted Json) (v : Json) :
    step inner deeper { ctx with conditions } v = step inner deeper ctx v := by
  unfold step
  split
  · split
    · exact resolveCall_of_holds h inner deeper _ _
    · rfl
  · rfl
  · rfl

theorem resolveWithin_of_holds (levels : Nat) :
    resolveWithin { ctx with conditions } levels = resolveWithin ctx levels := by
  funext v
  match levels with
  | 0 => rfl
  | 1 => exact step_of_holds h _ _ v
  | levels + 2 =>
    simp only [resolveWithin, resolveWithin_of_holds (levels + 1), resolveWithin_of_holds levels]
    exact step_of_holds h _ _ v

theorem evaluateWithin_of_holds (levels : Nat) :
    evaluateWithin { ctx with conditions } levels = evaluateWithin ctx levels := by
  induction levels with
  | zero => rfl
  | succ levels ih =>
    funext e
    unfold evaluateWithin
    rw [ih, resolveWithin_of_holds h levels]
    simp only [evaluateCall, h]

/-- Nothing but its truth is ever asked of a condition. -/
theorem evaluate_of_holds (e : Json) : evaluate { ctx with conditions } e = evaluate ctx e :=
  congrFun (evaluateWithin_of_holds h (nestingLimit + 1)) e

end Holds

end Expression

namespace Context

variable {ctx : Context} {names : List String}

/-- The context in which some conditions are true, whatever is known of them. -/
def assuming (ctx : Context) (names : List String) : Context :=
  { ctx with conditions := names.map (·, true) ++ ctx.conditions }

/-- A condition without a value is true already. -/
theorem holds_assuming (h : ∀ name ∈ names, ctx.condition? name = none) (name : String) :
    (ctx.assuming names).holds name = ctx.holds name := by
  induction names with
  | nil => rfl
  | cons first rest ih =>
    obtain ⟨hfirst, hrest⟩ := List.forall_mem_cons.1 h
    by_cases hname : name = first
    · subst hname
      rw [holds, holds, hfirst]
      simp [condition?, assuming]
    · rw [← ih hrest]
      have hne : (name == first) = false := beq_false_of_ne hname
      simp [holds, condition?, assuming, List.lookup_cons, hne]

end Context

/-! ## Evaluation as a relation -/

/-- The evaluation of conditions under way. -/
structure Evaluation where
  /-- The conditions that have been begun and are not over. -/
  visiting : List String := []
  ctx : Context
  /-- All bindings that have been made, in this order. -/
  bound : List (String × Bool) := []

namespace Evaluation

/-- The evaluation of a condition has begun. -/
def start (s : Evaluation) (name : String) : Evaluation :=
  { s with visiting := name :: s.visiting }

/-- The evaluation of a condition is over. -/
def finish (s : Evaluation) (name : String) (value : Bool) : Evaluation :=
  { visiting := s.visiting.erase name
    ctx := s.ctx.bindCondition name value
    bound := s.bound ++ [(name, value)] }

end Evaluation

namespace Template

/-- Evaluating conditions one after another leads from one state to another, and gives these values.
A condition that has no value is evaluated after those that it names, in a context in which all that
have been begun are true, itself among them. -/
inductive BindsEach (t : Template) :
    Evaluation → List String → List Bool → Evaluation → Prop
  | done {s : Evaluation} : BindsEach t s [] [] s
  | known {s s' : Evaluation} {name : String} {rest : List String} {value : Bool}
    {values : List Bool} (hvalue : s.ctx.condition? name = some value)
    (hrest : BindsEach t s rest values s') :
    BindsEach t s (name :: rest) (value :: values) s'
  | undeclared {s s' : Evaluation} {name : String} {rest : List String} {values : List Bool}
    (hfresh : s.ctx.condition? name = none) (he : t.conditions.lookup name = none)
    (hrest : BindsEach t s rest values s') :
    BindsEach t s (name :: rest) (true :: values) s'
  | begun {s s' : Evaluation} {name : String} {rest : List String} {values : List Bool} {e : Json}
    (hfresh : s.ctx.condition? name = none) (he : t.conditions.lookup name = some e)
    (hbegun : name ∈ s.visiting) (hrest : BindsEach t s rest values s') :
    BindsEach t s (name :: rest) (true :: values) s'
  | evaluated {s s₁ s' : Evaluation} {name : String} {rest : List String} {value : Bool}
    {needed values : List Bool} {e : Json}
    (hfresh : s.ctx.condition? name = none) (he : t.conditions.lookup name = some e)
    (hnew : name ∉ s.visiting)
    (hneeded : BindsEach t (s.start name) (namedConditions e) needed s₁)
    (hvalue : (Expression.evaluate (s₁.ctx.assuming s₁.visiting) e).value = value)
    (hrest : BindsEach t (s₁.finish name value) rest values s') :
    BindsEach t s (name :: rest) (value :: values) s'

variable {t : Template} {s s' s₁ s₂ : Evaluation} {name : String} {names rest : List String}
  {values values₁ values₂ : List Bool} {value : Bool} {e : Json}

/-- What evaluating conditions leaves behind. -/
structure Leaves (t : Template) (s s' : Evaluation) : Prop where
  /-- What has been begun is over, or had been begun before. -/
  visiting : s'.visiting = s.visiting
  /-- The bindings that have been made are of declared conditions that were not under way, and each
  has given a condition a value that had none. -/
  added : ∃ added : List (String × Bool), s'.bound = s.bound ++ added ∧
    s'.ctx.conditions = s.ctx.conditions ++ added ∧
    ∀ b ∈ added, t.Declares b.1 ∧ b.1 ∉ s.visiting
  distinct : (s.ctx.conditions.map (·.1)).Nodup → (s'.ctx.conditions.map (·.1)).Nodup

namespace Leaves

theorem refl (t : Template) (s : Evaluation) : t.Leaves s s :=
  ⟨rfl, ⟨[], by simp⟩, id⟩

theorem trans (h : t.Leaves s s₁) (h' : t.Leaves s₁ s') : t.Leaves s s' where
  visiting := h'.visiting.trans h.visiting
  added := by
    obtain ⟨first, hbound, hconditions, hfirst⟩ := h.added
    obtain ⟨more, hbound', hconditions', hmore⟩ := h'.added
    refine ⟨first ++ more, by simp [hbound', hbound], by simp [hconditions', hconditions], ?_⟩
    intro b hb
    rcases List.mem_append.1 hb with hb | hb
    · exact hfirst b hb
    · exact h.visiting ▸ hmore b hb
  distinct := fun hs => h'.distinct (h.distinct hs)

/-- A value that a condition has is kept. -/
theorem grows (h : t.Leaves s s') (hvalue : s.ctx.condition? name = some value) :
    s'.ctx.condition? name = some value := by
  obtain ⟨added, -, hconditions, -⟩ := h.added
  rw [Context.condition?] at hvalue ⊢
  rw [hconditions, List.lookup_append, hvalue, Option.some_or]

/-- A condition that is under way gets no value. -/
theorem untouched (h : t.Leaves s s') (hname : name ∈ s.visiting) :
    s'.ctx.condition? name = s.ctx.condition? name := by
  obtain ⟨added, -, hconditions, hadded⟩ := h.added
  have hnone : added.lookup name = none := by
    refine List.lookup_eq_none_iff.2 fun b hb => ?_
    have hne : b.1 ≠ name := fun heq => (hadded b hb).2 (heq ▸ hname)
    simpa using hne.symm
  rw [Context.condition?, hconditions, List.lookup_append, hnone, Option.or_none]
  rfl

/-- The evaluation of a condition that had no value gives it one. -/
theorem finish (h : t.Leaves (s.start name) s₁) (hfresh : s.ctx.condition? name = none)
    (he : t.conditions.lookup name = some e) (hbegun : name ∉ s.visiting) :
    t.Leaves s (s₁.finish name value) := by
  have hstill : s₁.ctx.condition? name = none := (h.untouched List.mem_cons_self).trans hfresh
  have hconditions : (s₁.finish name value).ctx.conditions =
      s₁.ctx.conditions ++ [(name, value)] := by
    rw [Context.condition?] at hstill
    simp [Evaluation.finish, Context.bindCondition, bindOnce, hstill]
  obtain ⟨added, hbound, hadded, hdeclared⟩ := h.added
  refine ⟨?_, ⟨added ++ [(name, value)], ?_, ?_, fun b hb => ?_⟩, fun hs => ?_⟩
  · rw [Evaluation.finish, h.visiting]
    exact List.erase_cons_head name s.visiting
  · rw [← List.append_assoc]
    exact congrArg (· ++ [(name, value)]) hbound
  · rw [hconditions, hadded, List.append_assoc]
    rfl
  · rcases List.mem_append.1 hb with hb | hb
    · obtain ⟨hdeclares, hnot⟩ := hdeclared b hb
      exact ⟨hdeclares, fun hmem => hnot (List.mem_cons_of_mem _ hmem)⟩
    · obtain rfl : b = (name, value) := List.mem_singleton.1 hb
      exact ⟨declares_of_lookup he, hbegun⟩
  · rw [hconditions, List.map_append]
    refine List.nodup_append.2 ⟨h.distinct hs, by simp, fun first hfirst b hb => ?_⟩
    obtain ⟨bound, hmem, rfl⟩ := List.mem_map.1 hfirst
    obtain rfl : b = name := by simpa using hb
    have hne := List.lookup_eq_none_iff.1 hstill bound hmem
    exact fun heq => by simp [heq] at hne

end Leaves

theorem BindsEach.leaves (h : t.BindsEach s names values s') : t.Leaves s s' := by
  induction h with
  | done => exact .refl t _
  | known _ _ ih => exact ih
  | undeclared _ _ _ ih => exact ih
  | begun _ _ _ _ ih => exact ih
  | evaluated hfresh he hbegun _ _ _ ihneeded ihrest =>
    exact (ihneeded.finish hfresh he hbegun).trans ihrest

/-- What is evaluated has a value in the end, unless it is under way. -/
theorem BindsEach.isSome (h : t.BindsEach s names values s') (hname : name ∈ names)
    (hdeclared : t.Declares name) (hbegun : name ∉ s.visiting) :
    (s'.ctx.condition? name).isSome := by
  induction h with
  | done => contradiction
  | known hvalue hrest ih =>
    rcases List.mem_cons.1 hname with rfl | hname
    · simp [hrest.leaves.grows hvalue]
    · exact ih hname hbegun
  | undeclared _ he _ ih =>
    rcases List.mem_cons.1 hname with rfl | hname
    · exact absurd hdeclared (not_declares_of_lookup he)
    · exact ih hname hbegun
  | begun _ _ hvisiting _ ih =>
    rcases List.mem_cons.1 hname with rfl | hname
    · exact absurd hvisiting hbegun
    · exact ih hname hbegun
  | evaluated hfresh he hnot hneeded _ hrest _ ih =>
    rcases List.mem_cons.1 hname with rfl | hname
    · have hstill := (hneeded.leaves.untouched List.mem_cons_self).trans hfresh
      simp [hrest.leaves.grows (Context.condition?_bindCondition_self hstill)]
    · refine ih hname ?_
      rwa [(hneeded.leaves.finish hfresh he hnot).visiting]

/-! ## Evaluation ends, in one way -/

/-- No two rules apply to one condition. -/
theorem BindsEach.unique (h : t.BindsEach s names values₁ s₁)
    (h' : t.BindsEach s names values₂ s₂) : values₁ = values₂ ∧ s₁ = s₂ := by
  induction h generalizing values₂ s₂ with
  | done =>
    cases h'
    exact ⟨rfl, rfl⟩
  | known hvalue _ ih =>
    cases h' with
    | known hvalue' hrest' =>
      obtain rfl := Option.some_inj.1 (hvalue.symm.trans hvalue')
      obtain ⟨rfl, rfl⟩ := ih hrest'
      exact ⟨rfl, rfl⟩
    | undeclared | begun | evaluated => simp_all
  | undeclared hfresh he _ ih =>
    cases h' with
    | undeclared _ _ hrest' =>
      obtain ⟨rfl, rfl⟩ := ih hrest'
      exact ⟨rfl, rfl⟩
    | known | begun | evaluated => simp_all
  | begun hfresh he hbegun _ ih =>
    cases h' with
    | begun _ _ _ hrest' =>
      obtain ⟨rfl, rfl⟩ := ih hrest'
      exact ⟨rfl, rfl⟩
    | known | undeclared => simp_all
    | evaluated _ _ hnew' => exact absurd hbegun hnew'
  | evaluated hfresh he hnew _ hvalue _ ihneeded ihrest =>
    cases h' with
    | known | undeclared => simp_all
    | begun _ _ hbegun' => exact absurd hbegun' hnew
    | evaluated _ he' _ hneeded' hvalue' hrest' =>
      obtain rfl := Option.some_inj.1 (he.symm.trans he')
      obtain ⟨-, rfl⟩ := ihneeded hneeded'
      obtain rfl := hvalue.symm.trans hvalue'
      obtain ⟨rfl, rfl⟩ := ihrest hrest'
      exact ⟨rfl, rfl⟩

/-- Evaluation ends: beneath a condition that is begun fewer are left to begin. -/
theorem exists_bindsEach (t : Template) (s : Evaluation) (names : List String) :
    ∃ values s', t.BindsEach s names values s' := by
  induction hleft : unseen (t.conditions.map (·.1)) s.visiting using Nat.strong_induction_on
    generalizing s names with
  | _ left ihleft =>
    induction names generalizing s with
    | nil => exact ⟨[], s, .done⟩
    | cons name rest ih =>
      cases hvalue : s.ctx.condition? name with
      | some value =>
        obtain ⟨values, s', hrest⟩ := ih s hleft
        exact ⟨_, s', .known hvalue hrest⟩
      | none =>
        cases he : t.conditions.lookup name with
        | none =>
          obtain ⟨values, s', hrest⟩ := ih s hleft
          exact ⟨_, s', .undeclared hvalue he hrest⟩
        | some e =>
          by_cases hbegun : name ∈ s.visiting
          · obtain ⟨values, s', hrest⟩ := ih s hleft
            exact ⟨_, s', .begun hvalue he hbegun hrest⟩
          · have hless : unseen (t.conditions.map (·.1)) (s.start name).visiting < left :=
              hleft ▸ unseen_cons_lt (declares_of_lookup he) hbegun
            obtain ⟨_, s₁, hneeded⟩ := ihleft _ hless (s.start name) (namedConditions e) rfl
            obtain ⟨values, s', hrest⟩ := ih
              (s₁.finish name (Expression.evaluate (s₁.ctx.assuming s₁.visiting) e).value)
              (by rw [(hneeded.leaves.finish hvalue he hbegun).visiting, hleft])
            exact ⟨_, s', .evaluated hvalue he hbegun hneeded rfl hrest⟩

/-! ## The context of a template -/

section BindNamed

variable {visiting : List String} {ctx : Context}

theorem bindNamed_of_known (h : (ctx.condition? name).isSome) :
    t.bindNamed visiting ctx name = pure ctx := by
  rw [bindNamed, if_pos h]

theorem bindNamed_of_undeclared (he : t.conditions.lookup name = none) :
    t.bindNamed visiting ctx name = pure ctx := by
  rw [bindNamed]
  split
  · rfl
  · split
    · rfl
    · next he' => simp [he] at he'

theorem value_bindNamed_of_begun (hbegun : name ∈ visiting) :
    (t.bindNamed visiting ctx name).value = ctx := by
  rw [bindNamed]
  split
  · rfl
  · split
    · rfl
    · rfl

theorem value_bindNamed_of_new (hfresh : ctx.condition? name = none)
    (he : t.conditions.lookup name = some e) (hnew : name ∉ visiting) :
    (t.bindNamed visiting ctx name).value =
      let ctx' := (namedConditions e).foldl
        (fun ctx needed => (t.bindNamed (name :: visiting) ctx needed).value) ctx
      ctx'.bindCondition name (Expression.evaluate ctx' e).value := by
  rw [bindNamed, if_neg (by simp [hfresh])]
  split
  · next he' => simp [he] at he'
  · next e' he' =>
    obtain rfl : e = e' := Option.some_inj.1 (he.symm.trans he')
    rw [dif_neg hnew]
    simp only [Noted.value_bind, Noted.value_pure, Noted.value_foldlM]

end BindNamed

/-- Evaluation leads to the context that the template is given, from where no condition that has been
begun has a value. -/
theorem BindsEach.ctx_eq (h : t.BindsEach s names values s')
    (hs : ∀ name ∈ s.visiting, s.ctx.condition? name = none) :
    s'.ctx = names.foldl (fun ctx name => (t.bindNamed s.visiting ctx name).value) s.ctx := by
  induction h with
  | done => rfl
  | known hvalue _ ih =>
    rw [List.foldl_cons, bindNamed_of_known (by simp [hvalue])]
    exact ih hs
  | undeclared _ he _ ih =>
    rw [List.foldl_cons, bindNamed_of_undeclared he]
    exact ih hs
  | begun _ _ hbegun _ ih =>
    rw [List.foldl_cons, value_bindNamed_of_begun hbegun]
    exact ih hs
  | @evaluated s s₁ s' name rest value _ _ e hfresh he hnew hneeded hvalue _ ihneeded ihrest =>
    have hbegun : ∀ begun ∈ (s.start name).visiting, s.ctx.condition? begun = none :=
      List.forall_mem_cons.2 ⟨hfresh, hs⟩
    have hafter := hneeded.leaves
    have hunbound : ∀ begun ∈ s₁.visiting, s₁.ctx.condition? begun = none := by
      intro begun hmem
      rw [hafter.visiting] at hmem
      rw [hafter.untouched hmem]
      exact hbegun begun hmem
    -- what has been begun has no value, so that taking it for true changes nothing
    have hsame : Expression.evaluate (s₁.ctx.assuming s₁.visiting) e =
        Expression.evaluate s₁.ctx e :=
      Expression.evaluate_of_holds (Context.holds_assuming hunbound) e
    have hfinish : t.Leaves s (s₁.finish name value) := hafter.finish hfresh he hnew
    have hctx : (s₁.finish name value).ctx = (t.bindNamed s.visiting s.ctx name).value := by
      rw [value_bindNamed_of_new hfresh he hnew]
      dsimp only
      rw [Evaluation.finish, ← hvalue, hsame, ihneeded hbegun]
      rfl
    rw [List.foldl_cons, ← hctx, ihrest, hfinish.visiting]
    intro begun hmem
    rw [hfinish.visiting] at hmem
    rw [hfinish.untouched hmem, hs begun hmem]

/-- Evaluating the conditions of a template ends, however they refer to each other.

Evaluation ends from every state, in one way, with no more conditions under way than there were, and
no value that a condition had is lost.  What it leads to for all declared conditions is the context
of the template: the bindings made on the way are just its values, one for each declared
condition. -/
theorem context_binds_once (t : Template) :
    (∀ s names, ∃! r : List Bool × Evaluation, t.BindsEach s names r.1 r.2) ∧
    (∀ s names values s', t.BindsEach s names values s' → s'.visiting = s.visiting ∧
      ∀ name value, s.ctx.condition? name = some value →
        s'.ctx.condition? name = some value) ∧
    ∃ values s, t.BindsEach { ctx := t.baseContext } (t.conditions.map (·.1)) values s ∧
      s.visiting = [] ∧ s.ctx = t.context.value ∧ s.bound = t.context.value.conditions ∧
      (s.bound.map (·.1)).Nodup ∧ ∀ name, name ∈ s.bound.map (·.1) ↔ t.Declares name := by
  refine ⟨fun s names => ?_, fun s names values s' h => ?_, ?_⟩
  · obtain ⟨values, s', h⟩ := exists_bindsEach t s names
    refine ⟨(values, s'), h, fun r hr => ?_⟩
    obtain ⟨hvalues, hstate⟩ := hr.unique h
    exact Prod.ext hvalues hstate
  · exact ⟨h.leaves.visiting, fun _ _ => h.leaves.grows⟩
  · obtain ⟨values, s, h⟩ := exists_bindsEach t { ctx := t.baseContext } (t.conditions.map (·.1))
    obtain ⟨added, hbound, hconditions, hadded⟩ := h.leaves.added
    have hctx : s.ctx = t.context.value := by
      rw [h.ctx_eq (by simp), context, Noted.value_foldlM]
    have hlog : s.bound = s.ctx.conditions := by
      simp [hbound, hconditions, conditions_baseContext]
    refine ⟨values, s, h, h.leaves.visiting, hctx, hctx ▸ hlog, ?_, fun name => ⟨fun hname => ?_, ?_⟩⟩
    · rw [hlog]
      exact h.leaves.distinct (by simp [conditions_baseContext])
    · obtain ⟨b, hb, rfl⟩ := List.mem_map.1 hname
      exact (hadded b (by simpa [hbound] using hb)).1
    · intro hdeclared
      obtain ⟨value, hvalue⟩ := Option.isSome_iff_exists.1 (h.isSome hdeclared hdeclared (by simp))
      rw [hlog]
      exact List.mem_map.2 ⟨_, mem_of_lookup hvalue, rfl⟩

end Template

end LocalCloud
