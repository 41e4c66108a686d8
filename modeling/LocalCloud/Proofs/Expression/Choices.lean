import LocalCloud.Proofs.Expression.Lookups

/-!
# The conditions that resolving a value looks up

Resolving a value looks up a condition wherever it comes to an `If`, to choose one of its branches
(`choices`).  Contexts that agree on these conditions and on the names that resolving looks up agree
on all that it reads of them (`Agree`).
-/

namespace LocalCloud.Expression

mutual

/-- The conditions that resolving a value looks up, whichever branches are chosen. -/
def choices : Json → List String
  | .object [(key, argument)] =>
    match Intrinsic.ofKey? key with
    | some .ref | some .zones => []
    | some .getAtt =>
      match argument with
      | .array [.string _, attr] => choices attr
      | _ => []
    | some .sub =>
      match argument with
      | .array [.string _, .object vars] => choicesInFields vars
      | _ => []
    | some .ifElse =>
      match argument with
      | .array [.string name, whenTrue, whenFalse] =>
        name :: (choices whenTrue ++ choices whenFalse)
      | _ => []
    | some .join | some .select | some .split =>
      match argument with
      | .array [first, second] => choices first ++ choices second
      | _ => []
    | some .base64 | none => choices argument
  | .object fields => choicesInFields fields
  | .array items => choicesInItems items
  | _ => []

/-- The conditions of this kind in the items of a list. -/
def choicesInItems : List Json → List String
  | [] => []
  | item :: rest => choices item ++ choicesInItems rest

/-- The conditions of this kind in the values of fields. -/
def choicesInFields : List (String × Json) → List String
  | [] => []
  | (_, value) :: rest => choices value ++ choicesInFields rest

end

theorem mem_choicesInItems {name : String} {items : List Json} :
    name ∈ choicesInItems items ↔ ∃ item ∈ items, name ∈ choices item := by
  induction items with
  | nil => simp [choicesInItems]
  | cons item rest ih => simp [choicesInItems, ih]

theorem mem_choicesInFields {name : String} {fields : Json.Fields} :
    name ∈ choicesInFields fields ↔ ∃ field ∈ fields, name ∈ choices field.2 := by
  induction fields with
  | nil => simp [choicesInFields]
  | cons field rest ih => simp [choicesInFields, ih]

theorem choices_object {fields : Json.Fields} (h : Intrinsic.ofFields? fields = none) :
    choices (.object fields) = choicesInFields fields := by
  rcases fields with _ | ⟨⟨key, argument⟩, _ | ⟨second, rest⟩⟩
  · rw [choices.eq_def]
  · rw [choices.eq_def]
    simp only [ofKey?_eq_none h, choicesInFields, List.append_nil]
  · rw [choices.eq_def]

/-- Two contexts agree on all names and conditions that resolving a value looks up. -/
structure Agree (ctx ctx' : Context) (v : Json) : Prop where
  names : AgreeAbout ctx ctx' v
  choices : ∀ name ∈ choices v, ctx.condition? name = ctx'.condition? name

namespace Agree

variable {ctx ctx' : Context}

theorem item {items : List Json} (h : Agree ctx ctx' (.array items)) {item : Json}
    (hitem : item ∈ items) : Agree ctx ctx' item where
  names := h.names.item hitem
  choices := fun name hname => h.choices name (mem_choicesInItems.2 ⟨item, hitem, hname⟩)

theorem field {fields : Json.Fields} (h : Agree ctx ctx' (.object fields))
    (hcall : Intrinsic.ofFields? fields = none) {field : String × Json} (hfield : field ∈ fields) :
    Agree ctx ctx' field.2 where
  names := h.names.field hcall hfield
  choices := by
    intro name hname
    refine h.choices name ?_
    rw [choices_object hcall]
    exact mem_choicesInFields.2 ⟨field, hfield, hname⟩

variable {key : String} {argument : Json} {i : Intrinsic}

theorem getAttAttribute {id : String} {attr : Json}
    (h : Agree ctx ctx' (.object [(key, .array [.string id, attr])]))
    (hi : Intrinsic.ofKey? key = some .getAtt) : Agree ctx ctx' attr where
  names := h.names.getAttAttribute hi
  choices := by
    have hchoices := h.choices
    rw [choices.eq_def] at hchoices
    simpa only [hi] using hchoices

theorem ofVariable {template : String} {vars : Json.Fields}
    (h : Agree ctx ctx' (.object [(key, argument)])) (hi : Intrinsic.ofKey? key = some .sub)
    (ht : IsTemplate argument template vars) {name : String} {value : Json}
    (hvalue : vars.lookup name = some value) : Agree ctx ctx' value where
  names := h.names.ofVariable hi ht hvalue
  choices := by
    obtain ⟨before, after, hvars, -⟩ := List.lookup_eq_some_iff.1 hvalue
    have hchoices := h.choices
    rw [choices.eq_def] at hchoices
    intro condition hcondition
    cases ht with
    | text => simp at hvars
    | alone => simp at hvars
    | withVariables =>
      simp only [hi] at hchoices
      exact hchoices condition (mem_choicesInFields.2 ⟨(name, value), by simp [hvars], hcondition⟩)

/-- The two arguments of a call that has two. -/
theorem ofPair {first second : Json}
    (h : Agree ctx ctx' (.object [(key, .array [first, second])]))
    (hi : Intrinsic.ofKey? key = some i) (hpair : i = .join ∨ i = .select ∨ i = .split) :
    Agree ctx ctx' first ∧ Agree ctx ctx' second := by
  have hnames : AgreeAbout ctx ctx' (.array [first, second]) := by
    refine h.names.inCall hi ?_ ?_ ?_ <;> rcases hpair with rfl | rfl | rfl <;> simp
  have hchoices : ∀ name ∈ Expression.choices first ++ Expression.choices second,
      ctx.condition? name = ctx'.condition? name := by
    have hchoices := h.choices
    rw [choices.eq_def] at hchoices
    rcases hpair with rfl | rfl | rfl <;> simpa only [hi] using hchoices
  exact ⟨⟨hnames.item (by simp), fun name hname => hchoices name (List.mem_append_left _ hname)⟩,
    ⟨hnames.item (by simp), fun name hname => hchoices name (List.mem_append_right _ hname)⟩⟩

/-- The condition and the branches of an `If`. -/
theorem ofIf {condition : String} {whenTrue whenFalse : Json}
    (h : Agree ctx ctx' (.object [(key, .array [.string condition, whenTrue, whenFalse])]))
    (hi : Intrinsic.ofKey? key = some .ifElse) :
    ctx.condition? condition = ctx'.condition? condition ∧ Agree ctx ctx' whenTrue ∧
      Agree ctx ctx' whenFalse := by
  have hnames : AgreeAbout ctx ctx' (.array [.string condition, whenTrue, whenFalse]) :=
    h.names.inCall hi (by simp) (by simp) (by simp)
  have hchoices := h.choices
  rw [choices.eq_def] at hchoices
  simp only [hi, List.forall_mem_cons, List.forall_mem_append] at hchoices
  obtain ⟨hcondition, htrue, hfalse⟩ := hchoices
  exact ⟨hcondition, ⟨hnames.item (by simp), htrue⟩, ⟨hnames.item (by simp), hfalse⟩⟩

theorem ofBase64 (h : Agree ctx ctx' (.object [(key, argument)]))
    (hi : Intrinsic.ofKey? key = some .base64) : Agree ctx ctx' argument where
  names := h.names.inCall hi (by simp) (by simp) (by simp)
  choices := by
    have hchoices := h.choices
    rw [choices.eq_def] at hchoices
    simpa only [hi] using hchoices

end Agree

end LocalCloud.Expression
