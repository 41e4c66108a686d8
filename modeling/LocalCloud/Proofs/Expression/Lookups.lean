import LocalCloud.Expression.Mention
import LocalCloud.Expression.Resolve
import Mathlib.Data.List.TakeWhile

/-!
# The names that resolving a value looks up

Most names that resolving a value looks up are among its mentions.  Those that are not are the
names that the search for references passes by (`overlooked`): what the attribute of a `GetAtt`
mentions, the dotted names in the holes of a `Sub` as a whole, and the names that a blank separates
from the `!` of an escape.  Contexts that agree on all these names agree about the value
(`AgreeAbout`) and about each value inside it.
-/

namespace LocalCloud

/-! ## The text before a mark -/

namespace Text

theorem cutAtChar?_cons (mark c : Char) (text : List Char) :
    cutAtChar? mark (c :: text) =
      if mark = c then some ([], text)
      else (cutAtChar? mark text).map fun (before, rest) => (c :: before, rest) := by
  unfold cutAtChar?
  by_cases h : mark = c <;> simp [cut?, dropHead?, h]

theorem takeWhile_of_cutAtChar? {mark : Char} {text before rest : List Char}
    (h : cutAtChar? mark text = some (before, rest)) : text.takeWhile (· != mark) = before := by
  induction text generalizing before with
  | nil => simp [cutAtChar?, cut?] at h
  | cons c text ih =>
    rw [cutAtChar?_cons] at h
    split at h
    · next hc =>
      obtain ⟨rfl, -⟩ := Prod.mk.inj (Option.some.inj h)
      simp [hc]
    · next hc =>
      obtain ⟨⟨b, r⟩, hb, heq⟩ := Option.map_eq_some_iff.1 h
      obtain ⟨rfl, rfl⟩ := Prod.mk.inj heq
      rw [List.takeWhile_cons_of_pos (by simpa using Ne.symm hc), ih hb]

theorem takeWhile_of_not_mem {mark : Char} {text : List Char} (h : mark ∉ text) :
    text.takeWhile (· != mark) = text := by
  refine List.takeWhile_eq_self_iff.2 fun c hc => ?_
  have hne : c ≠ mark := fun heq => h (heq ▸ hc)
  simpa using hne

/-- What stands before the first mark is the text up to the mark. -/
theorem upTo_of_divide? {mark : Char} {text before rest : String}
    (h : divide? mark text = some (before, rest)) : upTo mark text = before := by
  obtain ⟨⟨b, r⟩, hb, heq⟩ := Option.map_eq_some_iff.1 h
  obtain ⟨rfl, -⟩ := Prod.mk.inj heq
  rw [upTo, takeWhile_of_cutAtChar? hb]

theorem upTo_of_not_mem {mark : Char} {text : String} (h : mark ∉ text.toList) :
    upTo mark text = text := by
  rw [upTo, takeWhile_of_not_mem h, String.ofList_toList]

end Text

namespace Expression

/-! ## What the search for references passes by -/

/-- The names that a hole is looked up by and that its owner does not stand for. -/
def overlookedInHole (vars : Json.Fields) : Piece → List String
  | .hole raw =>
    let name := String.ofList (Text.trim raw)
    if (escaped? raw).isSome || (vars.lookup name).isSome then []
    else if (Text.trim raw).head? = some '!' then [name, Text.upTo '.' name]
    else if '.' ∈ Text.trim raw then [name]
    else []
  | _ => []

/-- The names of this kind in the holes of a template. -/
def overlookedInHoles (template : String) (vars : Json.Fields) : List String :=
  (scan template.toList).flatMap (overlookedInHole vars)

mutual

/-- The names that resolving a value looks up and that are not among its mentions. -/
def overlooked : Json → List String
  | .object [(key, argument)] =>
    match Intrinsic.ofKey? key with
    | some .ref => []
    | some .getAtt =>
      match argument with
      | .array [.string _, attr] => mentions attr ++ overlooked attr
      | _ => []
    | some .sub =>
      match argument with
      | .string template => overlookedInHoles template []
      | .array [.string template] => overlookedInHoles template []
      | .array [.string template, .object vars] =>
        overlookedInHoles template vars ++ overlookedInFields vars
      | _ => []
    | _ => overlooked argument
  | .object fields => overlookedInFields fields
  | .array items => overlookedInItems items
  | _ => []

/-- The names of this kind in the items of a list. -/
def overlookedInItems : List Json → List String
  | [] => []
  | item :: rest => overlooked item ++ overlookedInItems rest

/-- The names of this kind in the values of fields. -/
def overlookedInFields : List (String × Json) → List String
  | [] => []
  | (_, value) :: rest => overlooked value ++ overlookedInFields rest

end

theorem mem_itemMentions {id : String} {items : List Json} :
    id ∈ itemMentions items ↔ ∃ item ∈ items, id ∈ mentions item := by
  induction items with
  | nil => simp [itemMentions]
  | cons item rest ih => simp [itemMentions, ih]

theorem mem_fieldMentions {id : String} {fields : Json.Fields} :
    id ∈ fieldMentions fields ↔ ∃ field ∈ fields, id ∈ mentions field.2 := by
  induction fields with
  | nil => simp [fieldMentions]
  | cons field rest ih => simp [fieldMentions, ih]

theorem mem_overlookedInItems {id : String} {items : List Json} :
    id ∈ overlookedInItems items ↔ ∃ item ∈ items, id ∈ overlooked item := by
  induction items with
  | nil => simp [overlookedInItems]
  | cons item rest ih => simp [overlookedInItems, ih]

theorem mem_overlookedInFields {id : String} {fields : Json.Fields} :
    id ∈ overlookedInFields fields ↔ ∃ field ∈ fields, id ∈ overlooked field.2 := by
  induction fields with
  | nil => simp [overlookedInFields]
  | cons field rest ih => simp [overlookedInFields, ih]

section Object

variable {key : String} {argument : Json} {fields : Json.Fields}

/-- A call is an object with a single field. -/
theorem eq_of_ofFields? {i : Intrinsic} (h : Intrinsic.ofFields? fields = some (i, argument)) :
    ∃ key, fields = [(key, argument)] ∧ Intrinsic.ofKey? key = some i := by
  unfold Intrinsic.ofFields? at h
  split at h
  · next key argument' =>
    obtain ⟨i', hi, heq⟩ := Option.map_eq_some_iff.1 h
    obtain ⟨rfl, rfl⟩ := Prod.mk.inj heq
    exact ⟨key, rfl, hi⟩
  · simp at h

theorem ofKey?_eq_none (h : Intrinsic.ofFields? [(key, argument)] = none) :
    Intrinsic.ofKey? key = none := Option.map_eq_none_iff.1 h

/-- An object that is no call mentions what its fields mention. -/
theorem mentions_object (h : Intrinsic.ofFields? fields = none) :
    mentions (.object fields) = fieldMentions fields := by
  rcases fields with _ | ⟨⟨key, argument⟩, _ | ⟨second, rest⟩⟩
  · rw [mentions.eq_def]
  · rw [mentions.eq_def]
    simp only [ofKey?_eq_none h, fieldMentions, List.append_nil]
  · rw [mentions.eq_def]

theorem overlooked_object (h : Intrinsic.ofFields? fields = none) :
    overlooked (.object fields) = overlookedInFields fields := by
  rcases fields with _ | ⟨⟨key, argument⟩, _ | ⟨second, rest⟩⟩
  · rw [overlooked.eq_def]
  · rw [overlooked.eq_def]
    simp only [ofKey?_eq_none h, overlookedInFields, List.append_nil]
  · rw [overlooked.eq_def]

end Object

/-! ## Contexts that agree -/

/-- Two contexts bind a name to the same, if they bind it at all. -/
def AgreeOn (ctx ctx' : Context) (id : String) : Prop :=
  ctx.resource? id = ctx'.resource? id ∧ ctx.type? id = ctx'.type? id

/-- Two contexts agree on all names that resolving a value looks up. -/
def AgreeAbout (ctx ctx' : Context) (v : Json) : Prop :=
  ∀ id, id ∈ mentions v ∨ id ∈ overlooked v → AgreeOn ctx ctx' id

namespace AgreeAbout

variable {ctx ctx' : Context}

theorem item {items : List Json} (h : AgreeAbout ctx ctx' (.array items)) {item : Json}
    (hitem : item ∈ items) : AgreeAbout ctx ctx' item := by
  intro id hid
  refine h id ?_
  show id ∈ itemMentions items ∨ id ∈ overlookedInItems items
  rw [mem_itemMentions, mem_overlookedInItems]
  exact hid.imp (fun hm => ⟨item, hitem, hm⟩) fun ho => ⟨item, hitem, ho⟩

/-- The value of a field of an object that is no call. -/
theorem field {fields : Json.Fields} (h : AgreeAbout ctx ctx' (.object fields))
    (hcall : Intrinsic.ofFields? fields = none) {field : String × Json} (hfield : field ∈ fields) :
    AgreeAbout ctx ctx' field.2 := by
  intro id hid
  refine h id ?_
  rw [mentions_object hcall, overlooked_object hcall, mem_fieldMentions, mem_overlookedInFields]
  exact hid.imp (fun hm => ⟨field, hfield, hm⟩) fun ho => ⟨field, hfield, ho⟩

variable {key : String} {argument : Json} {i : Intrinsic}

/-- The argument of a call that is neither `Ref` nor `GetAtt` nor `Sub`. -/
theorem inCall (h : AgreeAbout ctx ctx' (.object [(key, argument)]))
    (hi : Intrinsic.ofKey? key = some i) (href : i ≠ .ref) (hgetAtt : i ≠ .getAtt)
    (hsub : i ≠ .sub) : AgreeAbout ctx ctx' argument := by
  intro id hid
  refine h id ?_
  rw [mentions.eq_def, overlooked.eq_def]
  simp only [hi]
  cases i <;> first | contradiction | exact hid

theorem ref {id : String} (h : AgreeAbout ctx ctx' (.object [(key, .string id)]))
    (hi : Intrinsic.ofKey? key = some .ref) : AgreeOn ctx ctx' id := by
  refine h id (.inl ?_)
  rw [mentions.eq_def]
  simp only [hi, List.mem_singleton]

theorem getAttOwner (h : AgreeAbout ctx ctx' (.object [(key, argument)]))
    (hi : Intrinsic.ofKey? key = some .getAtt) {id : String}
    (hid : attributeOwner? argument = some id) : AgreeOn ctx ctx' id := by
  refine h id (.inl ?_)
  rw [mentions.eq_def]
  simp only [hi, hid, Option.toList_some, List.mem_singleton]

theorem getAttAttribute {id : String} {attr : Json}
    (h : AgreeAbout ctx ctx' (.object [(key, .array [.string id, attr])]))
    (hi : Intrinsic.ofKey? key = some .getAtt) : AgreeAbout ctx ctx' attr := by
  intro name hname
  refine h name (.inr ?_)
  rw [overlooked.eq_def]
  simp only [hi, List.mem_append]
  exact hname

end AgreeAbout

/-- The template and the variables that an argument of `Sub` gives. -/
inductive IsTemplate : Json → String → Json.Fields → Prop
  | text (template : String) : IsTemplate (.string template) template []
  | alone (template : String) : IsTemplate (.array [.string template]) template []
  | withVariables (template : String) (vars : Json.Fields) :
    IsTemplate (.array [.string template, .object vars]) template vars

/-- Two contexts agree on all names that the holes of a template are looked up by. -/
def AgreeInHoles (ctx ctx' : Context) (template : String) (vars : Json.Fields) : Prop :=
  ∀ id, id ∈ holeOwners (some template) vars ∨ id ∈ overlookedInHoles template vars →
    AgreeOn ctx ctx' id

namespace AgreeAbout

variable {ctx ctx' : Context} {key template : String} {argument : Json} {vars : Json.Fields}

theorem inHoles (h : AgreeAbout ctx ctx' (.object [(key, argument)]))
    (hi : Intrinsic.ofKey? key = some .sub) (ht : IsTemplate argument template vars) :
    AgreeInHoles ctx ctx' template vars := by
  intro id hid
  refine h id ?_
  rw [mentions.eq_def, overlooked.eq_def]
  cases ht with
  | text =>
    simp only [hi]
    exact hid
  | alone =>
    simp only [hi]
    exact hid
  | withVariables =>
    simp only [hi, List.mem_append]
    exact hid.imp .inl .inl

theorem ofVariable (h : AgreeAbout ctx ctx' (.object [(key, argument)]))
    (hi : Intrinsic.ofKey? key = some .sub) (ht : IsTemplate argument template vars)
    {name : String} {value : Json} (hvalue : vars.lookup name = some value) :
    AgreeAbout ctx ctx' value := by
  obtain ⟨before, after, rfl, -⟩ := List.lookup_eq_some_iff.1 hvalue
  generalize hvars : before ++ (name, value) :: after = vars at ht
  intro id hid
  refine h id ?_
  cases ht with
  | text => simp at hvars
  | alone => simp at hvars
  | withVariables =>
    subst hvars
    rw [mentions.eq_def, overlooked.eq_def]
    simp only [hi, List.mem_append, mem_fieldMentions, mem_overlookedInFields]
    exact hid.imp (fun hm => .inr ⟨(name, value), by simp, hm⟩)
      fun ho => .inr ⟨(name, value), by simp, ho⟩

end AgreeAbout

/-- The name in a hole and its owner are both looked up the same. -/
theorem AgreeInHoles.hole {ctx ctx' : Context} {vars : Json.Fields} {template : String}
    (h : AgreeInHoles ctx ctx' template vars) {raw : List Char}
    (hraw : .hole raw ∈ scan template.toList) (hescaped : escaped? raw = none)
    (hvars : vars.lookup (String.ofList (Text.trim raw)) = none) :
    AgreeOn ctx ctx' (String.ofList (Text.trim raw)) ∧
      AgreeOn ctx ctx' (Text.upTo '.' (String.ofList (Text.trim raw))) := by
  have hoverlooked : ∀ id ∈ overlookedInHole vars (.hole raw), AgreeOn ctx ctx' id := fun id hid =>
    h id (.inr (List.mem_flatMap.2 ⟨_, hraw, hid⟩))
  unfold overlookedInHole at hoverlooked
  simp only [hescaped, hvars, Option.isSome_none, Bool.or_self, Bool.false_eq_true, if_false]
    at hoverlooked
  by_cases hmark : (Text.trim raw).head? = some '!'
  · -- the search takes this for an escape
    rw [if_pos hmark] at hoverlooked
    exact ⟨hoverlooked _ (by simp), hoverlooked _ (by simp)⟩
  · rw [if_neg hmark] at hoverlooked
    have hname : String.ofList (Text.trim raw) ∈ holeNames template := by
      refine List.mem_filterMap.2 ⟨.hole raw, hraw, ?_⟩
      simp only
      split
      · next heq => simp [heq] at hmark
      · rfl
    have howner : AgreeOn ctx ctx' (Text.upTo '.' (String.ofList (Text.trim raw))) := by
      refine h _ (.inl (List.mem_map_of_mem (List.mem_filter.2 ⟨hname, ?_⟩)))
      rw [hvars]
      rfl
    refine ⟨?_, howner⟩
    by_cases hdot : '.' ∈ Text.trim raw
    · exact hoverlooked _ (by simp [hdot])
    · rwa [Text.upTo_of_not_mem (by simpa using hdot)] at howner

end Expression

end LocalCloud
