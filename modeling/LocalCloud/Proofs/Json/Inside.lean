import LocalCloud.Json.Basic

/-!
# Values inside values

A value contains itself and whatever its items or the values of its fields contain (`Contains`).
What an array or an object is made of is less high than the array or the object, and so nothing lies
deeper in a value than the value is high (`LiesAt.add_height_le`).
-/

namespace LocalCloud.Json

/-- One value is another one or lies inside it, at whatever depth. -/
inductive Contains : Json → Json → Prop
  | self (v : Json) : Contains v v
  | item {items : List Json} {item u : Json} (hitem : item ∈ items) (h : Contains item u) :
    Contains (.array items) u
  | field {fields : Fields} {field : String × Json} {u : Json} (hfield : field ∈ fields)
    (h : Contains field.2 u) : Contains (.object fields) u

theorem height_lt_of_mem_items {items : List Json} {item : Json} (h : item ∈ items) :
    item.height < (Json.array items).height := by
  rw [height]
  induction items with
  | nil => simp at h
  | cons head rest ih =>
    rw [itemsHeight]
    rcases List.mem_cons.1 h with rfl | hrest
    · omega
    · have := ih hrest
      omega

theorem height_lt_of_mem_fields {fields : Fields} {key : String} {v : Json}
    (h : (key, v) ∈ fields) : v.height < (Json.object fields).height := by
  rw [height]
  induction fields with
  | nil => simp at h
  | cons head rest ih =>
    obtain ⟨k, w⟩ := head
    rw [fieldsHeight]
    rcases List.mem_cons.1 h with heq | hrest
    · obtain ⟨-, rfl⟩ := Prod.mk.inj heq
      omega
    · have := ih hrest
      omega

/-- One value lies a number of levels below another one. -/
inductive LiesAt : Nat → Json → Json → Prop
  | self (v : Json) : LiesAt 0 v v
  | item {levels : Nat} {items : List Json} {item u : Json} (hitem : item ∈ items)
    (h : LiesAt levels item u) : LiesAt (levels + 1) (.array items) u
  | field {levels : Nat} {fields : Fields} {key : String} {v u : Json} (hfield : (key, v) ∈ fields)
    (h : LiesAt levels v u) : LiesAt (levels + 1) (.object fields) u

namespace LiesAt

variable {levels more : Nat} {v u w : Json}

theorem inItems {items : List Json} (h : v ∈ items) : LiesAt 1 (.array items) v :=
  .item h (.self v)

theorem inArgument {key : String} (h : LiesAt levels v u) :
    LiesAt (levels + 1) (.object [(key, v)]) u := .field List.mem_cons_self h

theorem trans (h : LiesAt levels v u) (hbelow : LiesAt more u w) : LiesAt (levels + more) v w := by
  induction h with
  | self v => rwa [Nat.zero_add]
  | item hitem _ ih =>
    rw [Nat.add_right_comm]
    exact .item hitem (ih hbelow)
  | field hfield _ ih =>
    rw [Nat.add_right_comm]
    exact .field hfield (ih hbelow)

theorem add_height_le (h : LiesAt levels v u) : levels + u.height ≤ v.height := by
  induction h with
  | self v => exact Nat.le_of_eq (Nat.zero_add _)
  | item hitem _ ih =>
    have := height_lt_of_mem_items hitem
    omega
  | field hfield _ ih =>
    have := height_lt_of_mem_fields hfield
    omega

theorem level_le (h : LiesAt levels v u) : levels ≤ v.height :=
  Nat.le_trans (Nat.le_add_right _ _) h.add_height_le

end LiesAt

end LocalCloud.Json
