import LocalCloud.Model.Projection
import LocalCloud.Proofs.Model.Projection

/-!
# The paths of the resources of an API

A resource of an API names its parent, which is anything that a template says: another resource of the
API, something else, or a resource that leads back to the first one.  The ids that are come by on the
way up are an endless sequence (`climb`); the part of it that counts is a chain of resources that
ends before the first id which is of no such resource or has been met before (`ParentChain`).  There
is just one such chain (`ParentChain.unique`), and it is the one that the path is made of
(`exists_parentChain`).
-/

namespace LocalCloud.Projector

variable (p : Projector)

/-- The included resource of an API with a logical id. -/
def restResource? (id : String) : Option Resource :=
  (p.resource? id).filter (·.type == ResourceType.restResource)

/-- The id that is come by after a number of steps up from the first one, if there is one. -/
def climb (start : Option String) : Nat → Option String
  | 0 => start
  | k + 1 => do
    let r ← p.restResource? (← climb start k)
    firstReference? (r.property? "ParentId")

/-- The resources that are come by on the way up from an id, where `seen` have been met before. -/
structure ParentChain (seen : List String) (start : Option String) (chain : List Resource) :
    Prop where
  /-- Each is the resource that the way up leads to. -/
  climbs : ∀ k r, chain[k]? = some r → (p.climb start k).bind p.restResource? = some r
  /-- None of them is met twice. -/
  distinct : (chain.map (·.logicalId)).Nodup
  unseen : ∀ r ∈ chain, r.logicalId ∉ seen
  /-- Behind the last one there is nothing, or an id that is of no such resource or has been met. -/
  stops : ∀ id, p.climb start chain.length = some id →
    p.restResource? id = none ∨ id ∈ seen ∨ id ∈ chain.map (·.logicalId)

variable {p} {seen : List String} {start : Option String} {chain chain' : List Resource}
  {id : String} {r : Resource}

theorem logicalId_of_restResource? (h : p.restResource? id = some r) : r.logicalId = id := by
  obtain ⟨hr, -⟩ := Option.filter_eq_some_iff.1 h
  exact (resource?_eq_some hr).2.2

theorem climb_succ (h : p.restResource? id = some r) (k : Nat) :
    p.climb (some id) (k + 1) = p.climb (firstReference? (r.property? "ParentId")) k := by
  induction k with
  | zero => simp [climb, h]
  | succ k ih =>
    rw [climb, ih]
    rfl

namespace ParentChain

theorem nil (h : ∀ id, start = some id → p.restResource? id = none ∨ id ∈ seen) :
    p.ParentChain seen start [] where
  climbs := by simp
  distinct := List.nodup_nil
  unseen := by simp
  stops := fun id hid => (h id hid).imp_right .inl

theorem cons (hr : p.restResource? id = some r) (hid : id ∉ seen)
    (h : p.ParentChain (id :: seen) (firstReference? (r.property? "ParentId")) chain) :
    p.ParentChain seen (some id) (r :: chain) where
  climbs := by
    intro k node hnode
    cases k with
    | zero =>
      obtain rfl : r = node := by simpa using hnode
      exact hr
    | succ k =>
      rw [climb_succ hr]
      exact h.climbs k node (by simpa using hnode)
  distinct := by
    rw [List.map_cons, logicalId_of_restResource? hr, List.nodup_cons]
    refine ⟨fun hmem => ?_, h.distinct⟩
    obtain ⟨node, hnode, heq⟩ := List.mem_map.1 hmem
    exact h.unseen node hnode (heq ▸ List.mem_cons_self)
  unseen := by
    intro node hnode
    rcases List.mem_cons.1 hnode with rfl | hnode
    · rwa [logicalId_of_restResource? hr]
    · exact fun hmem => h.unseen node hnode (List.mem_cons_of_mem _ hmem)
  stops := by
    intro last hlast
    rw [List.length_cons, climb_succ hr] at hlast
    rw [List.map_cons, logicalId_of_restResource? hr, List.mem_cons]
    rcases h.stops last hlast with hnone | hmem | hmem
    · exact .inl hnone
    · rcases List.mem_cons.1 hmem with rfl | hmem
      · exact .inr (.inr (.inl rfl))
      · exact .inr (.inl hmem)
    · exact .inr (.inr (.inr hmem))

theorem climb_eq (h : p.ParentChain seen start chain) {k : Nat} (hr : chain[k]? = some r) :
    p.climb start k = some r.logicalId ∧ p.restResource? r.logicalId = some r := by
  obtain ⟨id, hid, hnode⟩ := Option.bind_eq_some_iff.1 (h.climbs k r hr)
  obtain rfl : r.logicalId = id := logicalId_of_restResource? hnode
  exact ⟨hid, hnode⟩

/-- Where one chain stops the other does not go on. -/
theorem length_le (h : p.ParentChain [] start chain) (h' : p.ParentChain [] start chain') :
    chain'.length ≤ chain.length := by
  by_contra hlonger
  rw [Nat.not_le] at hlonger
  obtain ⟨hid, hnode⟩ := h'.climb_eq (List.getElem?_eq_getElem hlonger)
  rcases h.stops _ hid with hnone | hmem | hmem
  · simp [hnode] at hnone
  · contradiction
  · -- the id has been met on the way, which is the same way for both
    obtain ⟨r, hr, hsame⟩ := List.mem_map.1 hmem
    obtain ⟨k, hk, hget⟩ := List.mem_iff_getElem.1 hr
    have hclimb := (h.climb_eq (List.getElem?_eq_some_iff.2 ⟨hk, hget⟩)).1
    have hclimb' := (h'.climb_eq (List.getElem?_eq_getElem (hk.trans hlonger))).1
    refine List.nodup_iff_getElem?_ne_getElem?.1 h'.distinct k chain.length hk
      (by simpa using hlonger) ?_
    rw [List.getElem?_map, List.getElem?_map, List.getElem?_eq_getElem hlonger,
      List.getElem?_eq_getElem (hk.trans hlonger), Option.map_some, Option.map_some, ← hsame,
      ← hclimb, hclimb']

/-- The way up from an id has one chain of parents. -/
theorem unique (h : p.ParentChain [] start chain) (h' : p.ParentChain [] start chain') :
    chain = chain' := by
  have hlength : chain.length = chain'.length := Nat.le_antisymm (h'.length_le h) (h.length_le h')
  refine List.ext_getElem hlength fun k hk hk' => ?_
  have hclimbs := h.climbs k _ (List.getElem?_eq_getElem hk)
  rw [h'.climbs k _ (List.getElem?_eq_getElem hk')] at hclimbs
  exact (Option.some.inj hclimbs).symm

end ParentChain

/-- The segments of a path are those of a chain of parents. -/
theorem exists_parentChain (p : Projector) (seen : List String) (start : Option String) :
    ∃ chain, p.ParentChain seen start chain ∧ (p.restSegments seen start).value =
      (chain.filterMap (·.property? "PathPart")).map
        fun part => (Expression.resolveText p.ctx part).value := by
  fun_induction restSegments p seen start with
  | case1 seen => exact ⟨[], .nil (by simp), rfl⟩
  | case2 seen id hnone => exact ⟨[], .nil (by simp [restResource?, hnone]), rfl⟩
  | case3 seen id node hnode htype =>
    have hnone : p.restResource? id = none := by
      rw [restResource?, hnode, Option.filter_some, if_neg (by simpa using htype)]
    exact ⟨[], .nil (by simp [hnone]), rfl⟩
  | case4 seen id node hnode htype hseen => exact ⟨[], .nil (by simp [hseen]), rfl⟩
  | case5 seen id node hnode htype hseen ih =>
    obtain ⟨chain, hchain, hsegments⟩ := ih
    have hr : p.restResource? id = some node := by
      rw [restResource?, hnode, Option.filter_some, if_pos (by simpa using htype)]
    refine ⟨node :: chain, hchain.cons hr hseen, ?_⟩
    simp only [Noted.value_bind, Noted.value_pure, Noted.value_mapM, hsegments]
    cases hpart : node.property? "PathPart" <;> simp [hpart]

/-- The path of a resource of an API is made of the segments of the resource and its parents up to
the first one that is missing or has been met before, the uppermost one first. -/
theorem restPath_of_parents (p : Projector) (resourceId : Option Json) :
    ∃ chain, p.ParentChain [] (firstReference? resourceId) chain ∧
      (∀ other, p.ParentChain [] (firstReference? resourceId) other → other = chain) ∧
      (p.restPath resourceId).value = "/" ++ Text.join "/"
        ((chain.filterMap (·.property? "PathPart")).map
          fun part => (Expression.resolveText p.ctx part).value).reverse := by
  obtain ⟨chain, hchain, hsegments⟩ := exists_parentChain p [] (firstReference? resourceId)
  refine ⟨chain, hchain, fun other hother => hother.unique hchain, ?_⟩
  rw [restPath, Noted.value_bind, Noted.value_pure, hsegments]

end LocalCloud.Projector
