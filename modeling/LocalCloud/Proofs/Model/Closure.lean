import LocalCloud.Model.Rules
import LocalCloud.Proofs.Model.Projection

/-!
# Assembled models link to nothing that is not there

The projections of any templates, merged in order, link to entries of the merged model only, and so
do the rules that are attached in the end: every id that a link names is the id of an entry.  The
graph of such a model can always be built, and none of the links of a template names a resource that
a condition of the template excludes (`ofTemplates_closed`).
-/

namespace LocalCloud

/-! ### What a template links to -/

/-- All ids that a projection links to, those of the rules that are left over among them. -/
def Projection.links (out : Projection) : List String :=
  out.model.links ++ out.detached.flatMap (·.rule.targets)

namespace Template

variable {t : Template} {id : String}

theorem linkable_of_mem_links (h : id ∈ t.projection.links) : t.projector.Linkable id := by
  have hsound := t.sound_projection
  rcases List.mem_append.1 h with hid | hid
  · exact hsound.links id hid
  · obtain ⟨d, hd, hid⟩ := List.mem_flatMap.1 hid
    exact hsound.detached d hd id hid

theorem mem_ids_of_mem_links (h : id ∈ t.projection.links) : id ∈ t.projection.model.ids :=
  t.sound_projection.ids id (linkable_of_mem_links h)

/-- A resource that its condition excludes is linked to from nowhere in its template. -/
theorem not_mem_links_of_excluded {logicalId : String} {r : Resource}
    (hr : t.resource? logicalId = some r) (hexcluded : r.isIncluded t.context.value = false) :
    t.stack ++ "/" ++ logicalId ∉ t.projection.links := by
  intro hid
  obtain ⟨r', hr', -, heq⟩ := linkable_of_mem_links hid
  obtain ⟨hfound, hincluded⟩ := Option.filter_eq_some_iff.1 hr'
  obtain rfl : logicalId = r'.logicalId := (String.append_right_inj _).1 heq
  obtain rfl : r = r' := Option.some_inj.1 (hr.symm.trans hfound)
  exact Bool.false_ne_true (hexcluded.symm.trans hincluded)

end Template

namespace Model

/-! ### Rules that are left over -/

theorem forall₂_putRule {R : Bus → Bus → Prop} (hrefl : ∀ b, R b b) (name : String) {rule : Rule}
    (hrule : ∀ b : Bus, R b { b with rules := b.rules ++ [rule] }) (buses : List Bus) :
    List.Forall₂ R buses (putRule name rule buses) := by
  induction buses with
  | nil => exact .nil
  | cons bus rest ih =>
    rw [putRule]
    split
    · exact .cons (hrule bus) (List.forall₂_same.2 fun b _ => hrefl b)
    · exact .cons (hrefl bus) ih

/-- A rule that is left over links to nothing but its targets, wherever it goes. -/
theorem extends_attachRule (m : Model) (d : DetachedRule) :
    m.Extends (· ∈ d.rule.targets) (m.attachRule d).value := by
  have hadded : ∀ rules : List Rule, ∀ rule ∈ rules ++ [d.rule],
      rule ∈ rules ∨ ∀ id ∈ rule.targets, id ∈ d.rule.targets := by
    intro rules rule hrule
    refine (List.mem_append.1 hrule).imp_right fun hrule => ?_
    obtain rfl := List.mem_singleton.1 hrule
    exact fun _ h => h
  rw [attachRule]
  split
  · exact .buses (forall₂_putRule (fun _ => ⟨rfl, fun _ => .inl⟩) _ (fun b => ⟨rfl, hadded b.rules⟩)
      m.buses)
  split
  · have hbus : ∀ id ∈ Model.links { buses := [implicitBus d.rule] }, id ∈ d.rule.targets := by
      simp [links, entries, implicitBus]
    have hmerge : { m with buses := m.buses ++ [implicitBus d.rule] } =
        m.merge { buses := [implicitBus d.rule] } := by simp [merge, Assets.merge]
    rw [Noted.value_pure, hmerge]
    exact .merge hbus
  · exact .refl m

theorem extends_attachRules (m : Model) (rules : List DetachedRule) :
    m.Extends (fun id => ∃ d ∈ rules, id ∈ d.rule.targets) (m.attachRules rules).value := by
  rw [attachRules, Noted.value_foldlM]
  exact .foldl (fun m d hd => (extends_attachRule m d).mono fun id hid => ⟨d, hd, hid⟩) m

/-! ### Models of templates -/

theorem mem_ids_foldl_merge {ms : List Model} {m : Model} {id : String} :
    id ∈ (ms.foldl merge m).ids ↔ id ∈ m.ids ∨ ∃ part ∈ ms, id ∈ part.ids := by
  induction ms generalizing m with
  | nil => simp
  | cons part rest ih => simp [ih, mem_ids_merge, or_assoc]

theorem mem_links_foldl_merge {ms : List Model} {m : Model} {id : String} :
    id ∈ (ms.foldl merge m).links ↔ id ∈ m.links ∨ ∃ part ∈ ms, id ∈ part.links := by
  induction ms generalizing m with
  | nil => simp
  | cons part rest ih => simp [ih, mem_links_merge, or_assoc]

/-- The projections of templates merged in order. -/
def merged (templates : List Template) : Model :=
  (templates.map (·.projection.model)).foldl merge {}

/-- The model of templates: the rules that are left over are attached once all are merged. -/
def ofTemplates (templates : List Template) : Model :=
  ((merged templates).attachRules (templates.flatMap (·.projection.detached))).value

variable {templates : List Template} {id : String}

/-- What the model of templates links to is what one of them links to. -/
theorem exists_mem_links_of_mem_links (h : id ∈ (ofTemplates templates).links) :
    ∃ t ∈ templates, id ∈ t.projection.links := by
  rcases (extends_attachRules _ _).links h with hid | ⟨d, hd, hid⟩
  · rcases mem_links_foldl_merge.1 hid with hid | ⟨part, hpart, hid⟩
    · exact absurd hid List.not_mem_nil
    · obtain ⟨t, ht, rfl⟩ := List.mem_map.1 hpart
      exact ⟨t, ht, List.mem_append_left _ hid⟩
  · obtain ⟨t, ht, hd⟩ := List.mem_flatMap.1 hd
    exact ⟨t, ht, List.mem_append_right _ (List.mem_flatMap.2 ⟨d, hd, hid⟩)⟩

theorem mem_ids_of_template {t : Template} (ht : t ∈ templates)
    (h : id ∈ t.projection.model.ids) : id ∈ (ofTemplates templates).ids :=
  (extends_attachRules _ _).ids
    (mem_ids_foldl_merge.2 (.inr ⟨_, List.mem_map_of_mem ht, h⟩))

/-- The graph of the model of any templates can be built. -/
theorem graph_ofTemplates (templates : List Template) :
    ∃ g, (ofTemplates templates).graph.run.value = .ok g := by
  refine graph_ok_iff.2 fun id hid => ?_
  obtain ⟨t, ht, hid⟩ := exists_mem_links_of_mem_links hid
  exact mem_ids_of_template ht (Template.mem_ids_of_mem_links hid)

/-- The model of any templates links to its own entries only, so that its graph can be built, and
no template has a link to a resource that its condition excludes. -/
theorem ofTemplates_closed (templates : List Template) :
    (∃ g, (ofTemplates templates).graph.run.value = .ok g) ∧
    (∀ id ∈ (ofTemplates templates).links, id ∈ (ofTemplates templates).ids) ∧
    ∀ t ∈ templates, ∀ logicalId r, t.resource? logicalId = some r →
      r.isIncluded t.context.value = false →
      t.stack ++ "/" ++ logicalId ∉ t.projection.links := by
  have hclosed : ∀ id ∈ (ofTemplates templates).links, id ∈ (ofTemplates templates).ids := by
    intro id hid
    obtain ⟨t, ht, hid⟩ := exists_mem_links_of_mem_links hid
    exact mem_ids_of_template ht (Template.mem_ids_of_mem_links hid)
  refine ⟨graph_ok_iff.2 hclosed, hclosed, ?_⟩
  intro t _ logicalId r hr hexcluded
  exact Template.not_mem_links_of_excluded hr hexcluded

/-- A worker that depends on a queue which its condition excludes, and that a rule without a bus of
its own starts. -/
def pausedOrders : Template where
  stack := "Shop"
  conditions := [("Live", .bool false)]
  resources :=
    [{ logicalId := "Orders", type := ResourceType.queue, properties := .null, dependsOn := [],
       condition := some "Live", metadata := [] },
     { logicalId := "Worker", type := ResourceType.function, properties := .null,
       dependsOn := ["Orders"], condition := none, metadata := [] },
     { logicalId := "Nightly", type := ResourceType.eventRule, dependsOn := [], condition := none,
       properties := .object [("Targets", .array [.object [("Arn",
         .object [("Fn::GetAtt", .array [.string "Worker", .string "Arn"])])]])],
       metadata := [] }]

theorem pausedOrders_closed :
    (∃ g, (ofTemplates [pausedOrders]).graph.run.value = .ok g) ∧
    (ofTemplates [pausedOrders]).links = ["Shop/Worker"] ∧
    (ofTemplates [pausedOrders]).ids = ["Shop/Worker", "default"] ∧
    (pausedOrders.resource? "Orders").map (·.isIncluded pausedOrders.context.value) = some false ∧
    "Shop/Orders" ∉ pausedOrders.projection.links := by
  obtain ⟨hgraph, -, hexcluded⟩ := ofTemplates_closed [pausedOrders]
  refine ⟨hgraph, by decide +kernel, by decide +kernel, by decide +kernel, ?_⟩
  exact hexcluded pausedOrders List.mem_cons_self "Orders" _ rfl (by decide +kernel)

end Model

end LocalCloud
