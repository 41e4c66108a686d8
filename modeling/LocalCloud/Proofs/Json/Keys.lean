import LocalCloud.Json.Reader
import LocalCloud.Proofs.Json.Inside
import LocalCloud.Template.Basic
import Mathlib.Data.List.Nodup

/-!
# Keys that are read

Every object in a value that has been read has each key once (`keyed_of_read?`), and so a template
that has been read has each logical id once (`Template.nodup_of_read`).
-/

namespace LocalCloud

namespace Json

/-- Every object in the value has each key once. -/
def Keyed (v : Json) : Prop := ∀ fields : Fields, v.Contains (.object fields) →
  (fields.map (·.1)).Nodup

theorem keyed_array {items : List Json} (h : ∀ item ∈ items, item.Keyed) :
    (Json.array items).Keyed := by
  intro fields hfields
  cases hfields with
  | item hitem hinside => exact h _ hitem fields hinside

theorem keyed_object {fields : Fields} (hkeys : (fields.map (·.1)).Nodup)
    (h : ∀ field ∈ fields, field.2.Keyed) : (Json.object fields).Keyed := by
  intro inner hinner
  cases hinner with
  | self => exact hkeys
  | field hfield hinside => exact h _ hfield inner hinside

theorem keyed_empty : (Json.object []).Keyed := keyed_object List.Pairwise.nil nofun

theorem Keyed.nodup {fields : Fields} (h : (Json.object fields).Keyed) :
    (fields.map (·.1)).Nodup := h fields (.self _)

theorem Keyed.of_mem {fields : Fields} (h : (Json.object fields).Keyed) {field : String × Json}
    (hfield : field ∈ fields) : field.2.Keyed :=
  fun inner hinner => h inner (.field hfield hinner)

/-- There is nothing inside a value that is neither an array nor an object. -/
theorem keyed_of_scalar {v : Json} (harray : ∀ items, v ≠ .array items)
    (hobject : ∀ fields, v ≠ .object fields) : v.Keyed := by
  intro fields hfields
  cases hfields with
  | self => exact absurd rfl (hobject fields)
  | item => exact absurd rfl (harray _)
  | field => exact absurd rfl (hobject _)

/-! ### Reading -/

variable {key : String} {value : Json} {fields : Fields}

theorem keys_set : (fields.set key value).map (·.1) =
    if key ∈ fields.map (·.1) then fields.map (·.1) else fields.map (·.1) ++ [key] := by
  fun_induction Fields.set key value fields with
  | case1 => rfl
  | case2 k rest => simp
  | case3 k v rest hne ih =>
    rw [List.map_cons, ih, List.map_cons]
    simp only [List.mem_cons, Ne.symm hne, false_or]
    split <;> rfl

theorem mem_set {field : String × Json} (h : field ∈ fields.set key value) :
    field.2 = value ∨ field ∈ fields := by
  fun_induction Fields.set key value fields with
  | case1 =>
    obtain rfl := List.mem_singleton.1 h
    exact .inl rfl
  | case2 k rest =>
    rcases List.mem_cons.1 h with rfl | h
    · exact .inl rfl
    · exact .inr (List.mem_cons_of_mem _ h)
  | case3 k v rest hne ih =>
    rcases List.mem_cons.1 h with rfl | h
    · exact .inr List.mem_cons_self
    · exact (ih h).imp_right (List.mem_cons_of_mem _)

/-- A key that occurs again takes the later value and adds no second field. -/
theorem Keyed.set (h : (Json.object fields).Keyed) (hvalue : value.Keyed) :
    (Json.object (fields.set key value)).Keyed := by
  refine keyed_object ?_ fun field hfield => ?_
  · rw [keys_set]
    split
    · exact h.nodup
    · next hnew =>
      exact h.nodup.append (List.nodup_singleton key) (List.disjoint_singleton.2 hnew)
  · rcases mem_set hfield with heq | hmem
    · exact heq ▸ hvalue
    · exact h.of_mem hmem

/-- What is read with some fuel has each key once. -/
structure ReadsKeyed (fuel : Nat) : Prop where
  value : ∀ {depth text v rest}, readValue fuel depth text = some (v, rest) → v.Keyed
  items : ∀ {depth done text items rest}, (∀ item ∈ done, Json.Keyed item) →
    readItems fuel depth done text = some (items, rest) → ∀ item ∈ items, Json.Keyed item
  fields : ∀ {depth done text fields rest}, (Json.object done).Keyed →
    readFields fuel depth done text = some (fields, rest) → (Json.object fields).Keyed

/-- What is read is made into a value in which each key occurs once. -/
theorem keyed_of_map {α : Type} {make : α → Json} {read : Option (α × List Char)}
    {v : Json} {rest : List Char} (hmake : ∀ a rest, read = some (a, rest) → (make a).Keyed)
    (h : (read.map fun (a, rest) => (make a, rest)) = some (v, rest)) : v.Keyed := by
  obtain ⟨⟨a, rest⟩, hread, heq⟩ := Option.map_eq_some_iff.1 h
  obtain ⟨rfl, -⟩ := Prod.mk.inj heq
  exact hmake a rest hread

theorem readsKeyed (fuel : Nat) : ReadsKeyed fuel := by
  induction fuel with
  | zero => constructor <;> simp [readValue, readItems, readFields]
  | succ fuel ih =>
    constructor
    · intro depth text v rest h
      unfold readValue at h
      split at h
      · obtain ⟨rfl, -⟩ := Prod.mk.inj (Option.some.inj h)
        exact keyed_of_scalar nofun nofun
      · obtain ⟨rfl, -⟩ := Prod.mk.inj (Option.some.inj h)
        exact keyed_of_scalar nofun nofun
      · obtain ⟨rfl, -⟩ := Prod.mk.inj (Option.some.inj h)
        exact keyed_of_scalar nofun nofun
      · exact keyed_of_map (fun _ _ _ => keyed_of_scalar (by simp) (by simp)) h
      · exact keyed_of_map (fun _ _ _ => keyed_of_scalar (by simp) (by simp)) h
      · split at h
        · contradiction
        · obtain ⟨rfl, -⟩ := Prod.mk.inj (Option.some.inj h)
          exact keyed_array (by simp)
        · exact keyed_of_map (fun _ _ hread => keyed_array (ih.items (by simp) hread)) h
      · split at h
        · contradiction
        · obtain ⟨rfl, -⟩ := Prod.mk.inj (Option.some.inj h)
          exact keyed_empty
        · exact keyed_of_map (fun _ _ hread => ih.fields keyed_empty hread) h
      · exact keyed_of_map (fun _ _ _ => keyed_of_scalar (by simp) (by simp)) h
    · intro depth done text items rest hdone h
      rw [readItems] at h
      split at h
      · contradiction
      · next item rest hitem =>
        have hitems : ∀ other ∈ item :: done, Json.Keyed other :=
          List.forall_mem_cons.2 ⟨ih.value hitem, hdone⟩
        split at h
        · exact ih.items hitems h
        · obtain ⟨rfl, -⟩ := Prod.mk.inj (Option.some.inj h)
          exact fun other hother => hitems other (List.mem_reverse.1 hother)
        · contradiction
    · intro depth done text fields rest hdone h
      rw [readFields] at h
      split at h
      · split at h
        · contradiction
        · next key rest hkey =>
          split at h
          · split at h
            · contradiction
            · next value rest hvalue =>
              have hset : (Json.object (Fields.set key value done)).Keyed :=
                hdone.set (ih.value hvalue)
              dsimp only at h
              split at h
              · exact ih.fields hset h
              · obtain ⟨rfl, -⟩ := Prod.mk.inj (Option.some.inj h)
                exact hset
              · contradiction
          · contradiction
      · contradiction

theorem keyed_of_read? {text : String} {v : Json} (h : read? text = some v) : v.Keyed := by
  unfold read? readWithin? at h
  dsimp only at h
  split at h
  · next value rest hvalue =>
    split at h
    · obtain rfl := Option.some.inj h
      exact (readsKeyed _).value hvalue
    · contradiction
  · contradiction

end Json

namespace Template

open Json (Fields)

variable {fields : Fields}

theorem exists_ok_of_bind {ε α β : Type} {x : Except ε α} {f : α → Except ε β} {b : β}
    (h : x >>= f = .ok b) : ∃ a, x = .ok a ∧ f a = .ok b := by
  cases x with
  | error e => contradiction
  | ok a => exact ⟨a, rfl, h⟩

theorem keyed_of_readSection {name : String} {entries : Fields} (h : (Json.object fields).Keyed)
    (hread : readSection fields name = .ok entries) : (Json.object entries).Keyed := by
  unfold readSection at hread
  split at hread
  · exact Except.ok.inj hread ▸ Json.keyed_empty
  · exact Except.ok.inj hread ▸ Json.keyed_empty
  · next written hlookup =>
    obtain rfl : written = entries := Except.ok.inj hread
    obtain ⟨before, after, hsplit, -⟩ := List.lookup_eq_some_iff.1 hlookup
    have hfield : (name, Json.object written) ∈ fields := by simp [hsplit]
    exact h.of_mem hfield
  · contradiction

/-- A resource has the key at which it is written as its logical id. -/
theorem logicalId_of_ofJson {logicalId : String} {raw : Json} {r : Resource}
    (h : Resource.ofJson logicalId raw = .ok r) : r.logicalId = logicalId := by
  unfold Resource.ofJson at h
  split at h
  · split at h
    · contradiction
    · obtain ⟨dependsOn, -, hr⟩ := exists_ok_of_bind h
      exact (Except.ok.inj hr) ▸ rfl
  · contradiction

theorem logicalIds_of_mapM {entries : Fields} {rs : List Resource}
    (h : (entries.mapM fun (logicalId, raw) => Resource.ofJson logicalId raw) = .ok rs) :
    rs.map (·.logicalId) = entries.map (·.1) := by
  induction entries generalizing rs with
  | nil =>
    obtain rfl := Except.ok.inj h
    rfl
  | cons entry rest ih =>
    rw [List.mapM_cons] at h
    obtain ⟨r, hr, h⟩ := exists_ok_of_bind h
    obtain ⟨others, hothers, h⟩ := exists_ok_of_bind h
    obtain rfl := Except.ok.inj h
    rw [List.map_cons, List.map_cons, logicalId_of_ofJson hr, ih hothers]

/-- A template that is read from keyed fields has each logical id once. -/
theorem nodup_of_read {raw : Json} {stack : String} {t : Template} (hraw : raw.Keyed)
    (h : read raw stack = .ok t) : (t.resources.map (·.logicalId)).Nodup := by
  unfold read at h
  split at h
  · obtain ⟨entries, hentries, h⟩ := exists_ok_of_bind h
    obtain ⟨resources, hresources, h⟩ := exists_ok_of_bind h
    obtain ⟨conditions, -, h⟩ := exists_ok_of_bind h
    obtain ⟨parameters, -, h⟩ := exists_ok_of_bind h
    obtain rfl := Except.ok.inj h
    exact logicalIds_of_mapM hresources ▸ (keyed_of_readSection hraw hentries).nodup
  · contradiction

end Template

end LocalCloud
