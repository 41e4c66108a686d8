import LocalCloud.Json.Printer
import Mathlib.Data.List.Infix

/-!
# What the text of a value holds

The text of a list or an object holds the texts of the values inside it, unbroken, as long as no
character of them has to be escaped (`infix_array`, `infix_object`).  Values inside lists are found
by the positions that lead to them (`itemAt?`).
-/

namespace LocalCloud.Json

/-! ## Values inside lists -/

/-- The item of a list at a position; a value that is no list has no items. -/
def item? (v : Json) (i : Nat) : Option Json :=
  match v with
  | .array items => items[i]?
  | _ => none

theorem item?_eq_some_iff {v item : Json} {i : Nat} :
    v.item? i = some item ↔ ∃ items, v = .array items ∧ items[i]? = some item := by
  cases v <;> simp [item?]

/-- The value at the end of a chain of positions. -/
def itemAt? (v : Json) (path : List Nat) : Option Json := path.foldlM item? v

theorem itemAt?_cons (v : Json) (i : Nat) (path : List Nat) :
    v.itemAt? (i :: path) = (v.item? i).bind (·.itemAt? path) := rfl

theorem itemAt?_append (v : Json) (first rest : List Nat) :
    v.itemAt? (first ++ rest) = (v.itemAt? first).bind (·.itemAt? rest) :=
  List.foldlM_append ..

/-! ## Texts that need no escape -/

/-- Whether a text stands in a quoted text as it is. -/
def IsPlain (text : String) : Prop := ∀ c ∈ text.toList, escapeChar c = [c]

instance (text : String) : Decidable (IsPlain text) :=
  List.decidableBAll (fun c => escapeChar c = [c]) text.toList

theorem flatMap_escapeChar {text : List Char} (h : ∀ c ∈ text, escapeChar c = [c]) :
    text.flatMap escapeChar = text := by
  induction text with
  | nil => rfl
  | cons c rest ih =>
    obtain ⟨hc, hrest⟩ := List.forall_mem_cons.1 h
    rw [List.flatMap_cons, hc, ih hrest]
    rfl

variable {text : String} (hplain : IsPlain text)

include hplain

/-- Quoting leaves a text in it that needs no escape. -/
theorem infix_quote {s : String} (h : text.toList <:+: s.toList) :
    text.toList <:+: (quote s).toList := by
  obtain ⟨before, after, hsplit⟩ := h
  refine ⟨'\"' :: before.flatMap escapeChar, after.flatMap escapeChar ++ ['\"'], ?_⟩
  rw [quote, String.toList_ofList, ← hsplit, List.flatMap_append, List.flatMap_append,
    flatMap_escapeChar hplain]
  simp

/-- The compact text of a value holds what its plain text holds. -/
theorem infix_compact {v : Json} (h : text.toList <:+: v.plainText.toList) :
    text.toList <:+: v.compact.toList := by
  cases v with
  | string s => exact infix_quote hplain h
  | null =>
    have hempty : text.toList = [] := List.infix_nil.1 h
    rw [hempty]
    exact List.nil_infix
  | _ => exact h

theorem infix_compactItems {items : List Json} {item : Json} (hitem : item ∈ items)
    (h : text.toList <:+: item.plainText.toList) :
    text.toList <:+: (compactItems items).toList := by
  induction items with
  | nil => simp at hitem
  | cons first rest ih =>
    cases rest with
    | nil =>
      obtain rfl := List.mem_singleton.1 hitem
      exact infix_compact hplain h
    | cons second rest =>
      rw [compactItems, String.toList_append, String.toList_append, List.append_assoc]
      rcases List.mem_cons.1 hitem with rfl | hitem
      · exact (infix_compact hplain h).trans (List.prefix_append _ _).isInfix
      · exact (ih hitem).trans ((List.suffix_append _ _).isInfix.trans
          (List.suffix_append _ _).isInfix)

theorem infix_compactFields {fields : Fields} {field : String × Json} (hfield : field ∈ fields)
    (h : text.toList <:+: field.2.plainText.toList) :
    text.toList <:+: (compactFields fields).toList := by
  induction fields with
  | nil => simp at hfield
  | cons first rest ih =>
    cases rest with
    | nil =>
      obtain rfl := List.mem_singleton.1 hfield
      rw [compactFields, String.toList_append]
      exact (infix_compact hplain h).trans (List.suffix_append _ _).isInfix
    | cons second rest =>
      rw [compactFields, String.toList_append, String.toList_append]
      rcases List.mem_cons.1 hfield with rfl | hfield
      · refine (infix_compact hplain h).trans ?_
        rw [String.toList_append]
        exact (List.suffix_append _ _).isInfix.trans
          ((List.prefix_append _ _).isInfix.trans (List.prefix_append _ _).isInfix)
      · exact (ih hfield).trans (List.suffix_append _ _).isInfix

/-- The text of a list holds what the text of an item holds. -/
theorem infix_array {items : List Json} {item : Json} (hitem : item ∈ items)
    (h : text.toList <:+: item.plainText.toList) :
    text.toList <:+: (plainText (.array items)).toList := by
  show _ <:+: (compact (.array items)).toList
  rw [compact, String.toList_append, String.toList_append]
  exact (infix_compactItems hplain hitem h).trans (List.infix_append _ _ _)

/-- The text of an object holds what the text of a field holds. -/
theorem infix_object {fields : Fields} {field : String × Json} (hfield : field ∈ fields)
    (h : text.toList <:+: field.2.plainText.toList) :
    text.toList <:+: (plainText (.object fields)).toList := by
  show _ <:+: (compact (.object fields)).toList
  rw [compact, String.toList_append, String.toList_append]
  exact (infix_compactFields hplain hfield h).trans (List.infix_append _ _ _)

/-- The text of a list holds what the text of anything inside it holds. -/
theorem infix_of_itemAt? {v w : Json} {path : List Nat} (hpath : v.itemAt? path = some w)
    (h : text.toList <:+: w.plainText.toList) : text.toList <:+: v.plainText.toList := by
  induction path generalizing v with
  | nil =>
    obtain rfl := Option.some.inj hpath
    exact h
  | cons i path ih =>
    rw [itemAt?_cons, Option.bind_eq_some_iff] at hpath
    obtain ⟨item, hitem, hrest⟩ := hpath
    obtain ⟨items, rfl, hitem⟩ := item?_eq_some_iff.1 hitem
    exact infix_array hplain (List.mem_of_getElem? hitem) (ih hrest)

end LocalCloud.Json
