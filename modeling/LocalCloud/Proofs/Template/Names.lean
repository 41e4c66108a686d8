import LocalCloud.Model.Projection
import LocalCloud.Proofs.Model.Projection
import LocalCloud.Template.Context

/-!
# The names that a context binds

Every resource of a template has a local identifier in the context of the template: its own, or the
default of a parameter that has the same name.  The evaluation of conditions binds none.
-/

namespace LocalCloud

namespace Template

variable {t : Template}

theorem resources_bindNamed (t : Template) (visiting : List String) (ctx : Context)
    (name : String) : (t.bindNamed visiting ctx name).value.resources = ctx.resources := by
  fun_induction bindNamed t visiting ctx name with
  | case1 => rfl
  | case2 => rfl
  | case3 => rfl
  | case4 visiting ctx name _ e _ _ ih =>
    simp only [Noted.value_bind, Noted.value_pure, Noted.value_foldlM]
    refine List.foldlRecOn
      (motive := fun ctx' : Context => ctx'.resources = ctx.resources) _ _ rfl ?_
    intro ctx' h needed _
    exact (ih ctx' needed).trans h

theorem resources_context (t : Template) : t.context.value.resources = t.baseContext.resources := by
  rw [context, Noted.value_foldlM]
  refine List.foldlRecOn
    (motive := fun ctx : Context => ctx.resources = t.baseContext.resources) _ _ rfl ?_
  intro ctx h name _
  exact (resources_bindNamed t [] ctx name).trans h

/-- A name that has been bound stays bound. -/
theorem isSome_resource?_foldl {α : Type} {f : Context → α → Context} {xs : List α} {id : String}
    (hf : ∀ ctx x, (ctx.resource? id).isSome → ((f ctx x).resource? id).isSome) {ctx : Context}
    (h : (ctx.resource? id).isSome) : ((xs.foldl f ctx).resource? id).isSome := by
  refine List.foldlRecOn (motive := fun ctx : Context => (ctx.resource? id).isSome) _ _ h ?_
  intro ctx h x _
  exact hf ctx x h

theorem isSome_resource?_bindResource {ctx : Context} {id other identifier : String} :
    ((ctx.bindResource other identifier).resource? id).isSome =
      ((ctx.resource? id).isSome || id = other) := by
  have hlookup : (ctx.bindResource other identifier).resource? id =
      (ctx.resource? id).or (if id = other then some identifier else none) :=
    lookup_bindOnce ctx.resources other id identifier
  rw [hlookup]
  by_cases h : id = other <;> simp [h]

theorem isSome_resource?_context {r : Resource} (hr : r ∈ t.resources) :
    (t.context.value.resource? r.logicalId).isSome := by
  rw [Context.resource?, resources_context, ← Context.resource?, baseContext]
  dsimp only
  obtain ⟨before, after, hsplit⟩ := List.append_of_mem hr
  rw [hsplit, List.foldl_append, List.foldl_cons]
  -- the resource itself binds its name, unless it is bound already
  refine isSome_resource?_foldl (fun ctx other h => ?_) ?_
  · show ((ctx.bindResource other.logicalId other.physicalId).resource? r.logicalId).isSome
    rw [isSome_resource?_bindResource, h, Bool.true_or]
  · show ((Context.bindResource _ r.logicalId r.physicalId).resource? r.logicalId).isSome
    rw [isSome_resource?_bindResource]
    simp

/-- The local identifier of a resource is what its logical id is bound to. -/
theorem resource?_nameOf {r : Resource} (hr : r ∈ t.resources) :
    t.context.value.resource? r.logicalId = some (t.projector.nameOf r) := by
  obtain ⟨name, hname⟩ := Option.isSome_iff_exists.1 (isSome_resource?_context hr)
  rw [Projector.nameOf, projector, hname]
  rfl

end Template

end LocalCloud
