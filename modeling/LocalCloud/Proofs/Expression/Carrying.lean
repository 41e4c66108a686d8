import LocalCloud.Proofs.Expression.Values
import LocalCloud.Proofs.Text.Joining

/-!
# Which references last

A value may mention a name in a place that resolving it drops: in a branch or an item that is not
chosen, in a variable that no hole asks for, too deep.  `Carries` tells the places that it keeps,
and what a name is bound to stands in the text of every value that carries the name
(`Carries.found`).  A value that drops nothing of it carries all that it mentions
(`Faithful.carries`).
-/

namespace LocalCloud.Expression

/-- A value that is resolved down to a number of levels keeps a reference to `id`, and what `id` is
bound to goes into the text of what stands at `path` in the resolved value. -/
inductive Carries (ctx : Context) (id : String) : Nat → Json → List Nat → Prop
  | ref {levels : Nat} {key : String} (hkey : Intrinsic.ofKey? key = some .ref) :
    Carries ctx id (levels + 1) (.object [(key, .string id)]) []
  | getAtt {levels : Nat} {key : String} {attr : Json}
    (hkey : Intrinsic.ofKey? key = some .getAtt) :
    Carries ctx id (levels + 1) (.object [(key, .array [.string id, attr])]) []
  | dotted {levels : Nat} {key dotted attr : String} (hkey : Intrinsic.ofKey? key = some .getAtt)
    (hdotted : Text.divide? '.' dotted = some (id, attr)) :
    Carries ctx id (levels + 1) (.object [(key, .string dotted)]) []
  /-- In a hole the name is filled in. -/
  | hole {levels : Nat} {key template : String} {argument : Json} {vars : Json.Fields}
    {raw : List Char} (hkey : Intrinsic.ofKey? key = some .sub)
    (ht : IsTemplate argument template vars) (hraw : .hole raw ∈ scan template.toList)
    (hescaped : escaped? raw = none) (hname : String.ofList (Text.trim raw) = id)
    (hvars : vars.lookup id = none) :
    Carries ctx id (levels + 1) (.object [(key, argument)]) []
  /-- So it is in front of a dot, unless the whole is a name. -/
  | holeAttribute {levels : Nat} {key template attr : String} {argument : Json}
    {vars : Json.Fields} {raw : List Char} (hkey : Intrinsic.ofKey? key = some .sub)
    (ht : IsTemplate argument template vars) (hraw : .hole raw ∈ scan template.toList)
    (hescaped : escaped? raw = none)
    (hname : Text.divide? '.' (String.ofList (Text.trim raw)) = some (id, attr))
    (hvars : vars.lookup (String.ofList (Text.trim raw)) = none)
    (hwhole : known? ctx (String.ofList (Text.trim raw)) = none) :
    Carries ctx id (levels + 1) (.object [(key, argument)]) []
  /-- A variable counts when a hole asks for it. -/
  | holeVariable {levels : Nat} {key template : String} {argument value : Json}
    {vars : Json.Fields} {raw : List Char} (hkey : Intrinsic.ofKey? key = some .sub)
    (ht : IsTemplate argument template vars) (hraw : .hole raw ∈ scan template.toList)
    (hescaped : escaped? raw = none)
    (hvalue : vars.lookup (String.ofList (Text.trim raw)) = some value)
    (h : Carries ctx id (levels - 1) value []) :
    Carries ctx id (levels + 1) (.object [(key, argument)]) []
  | part {levels i : Nat} {key : String} {delimiter parts : Json}
    (hkey : Intrinsic.ofKey? key = some .join) (h : Carries ctx id levels parts [i]) :
    Carries ctx id (levels + 1) (.object [(key, .array [delimiter, parts])]) []
  /-- What is put between parts counts when there are two of them. -/
  | delimiter {levels : Nat} {key : String} {delimiter parts first second : Json}
    {rest : List Json} (hkey : Intrinsic.ofKey? key = some .join)
    (hparts : valueWithin ctx levels parts = .array (first :: second :: rest))
    (h : Carries ctx id levels delimiter []) :
    Carries ctx id (levels + 1) (.object [(key, .array [delimiter, parts])]) []
  /-- Where a text is divided, no mark may stand in what is looked for. -/
  | piece {levels : Nat} {key : String} {delimiter source : Json}
    (hkey : Intrinsic.ofKey? key = some .split)
    (hdelimiter : textWithin ctx levels delimiter ≠ "")
    (hfree : ∀ name ∈ ctx.resource? id, ∀ c ∈ (textWithin ctx levels delimiter).toList,
      c ∉ name.toList)
    (hplain : ∀ name ∈ ctx.resource? id, Json.IsPlain name) (h : Carries ctx id levels source []) :
    Carries ctx id (levels + 1) (.object [(key, .array [delimiter, source])]) []
  | branch {levels : Nat} {key condition : String} {whenTrue whenFalse : Json} {path : List Nat}
    (hkey : Intrinsic.ofKey? key = some .ifElse)
    (h : Carries ctx id levels (if ctx.holds condition then whenTrue else whenFalse) path) :
    Carries ctx id (levels + 1)
      (.object [(key, .array [.string condition, whenTrue, whenFalse])]) path
  | selected {levels i : Nat} {key : String} {index item : Json} {items : List Json}
    {path : List Nat} (hkey : Intrinsic.ofKey? key = some .select)
    (hindex : indexOf? (valueWithin ctx levels index) = some i) (hitem : items[i]? = some item)
    (h : Carries ctx id levels item path) :
    Carries ctx id (levels + 1) (.object [(key, .array [index, .array items])]) path
  | selectedResolved {levels i : Nat} {key : String} {index items : Json} {path : List Nat}
    (hkey : Intrinsic.ofKey? key = some .select)
    (hindex : indexOf? (valueWithin ctx levels index) = some i) (hitems : items.asArray? = none)
    (h : Carries ctx id levels items (i :: path)) :
    Carries ctx id (levels + 1) (.object [(key, .array [index, items])]) path
  | item {levels i : Nat} {items : List Json} {item : Json} {path : List Nat}
    (hitem : items[i]? = some item) (h : Carries ctx id levels item path) :
    Carries ctx id (levels + 1) (.array items) (i :: path)
  /-- What is rendered inside an object must need no escape. -/
  | field {levels : Nat} {fields : Json.Fields} {field : String × Json}
    (hcall : Intrinsic.ofFields? fields = none) (hfield : field ∈ fields)
    (hplain : ∀ name ∈ ctx.resource? id, Json.IsPlain name)
    (h : Carries ctx id levels field.2 []) :
    Carries ctx id (levels + 1) (.object fields) []
  /-- Nor must what is rendered inside a list. -/
  | rendered {levels : Nat} {v : Json} {path rest : List Nat}
    (hplain : ∀ name ∈ ctx.resource? id, Json.IsPlain name)
    (h : Carries ctx id levels v (path ++ rest)) : Carries ctx id levels v path

variable {ctx : Context} {id name : String} {levels : Nat} {v : Json} {path : List Nat}

/-- What fills a hole stands in the text of the template. -/
theorem infix_hole {key template : String} {argument : Json} {vars : Json.Fields}
    {raw : List Char} (hkey : Intrinsic.ofKey? key = some .sub)
    (ht : IsTemplate argument template vars) (hraw : .hole raw ∈ scan template.toList)
    (hescaped : escaped? raw = none) :
    (holeValue (resolveWithin ctx (levels - 1)) ctx vars
        (String.ofList (Text.trim raw))).value.toList <:+:
      (textWithin ctx (levels + 1) (.object [(key, argument)])).toList := by
  rw [textWithin, valueWithin_sub hkey ht, Json.plainText_string, String.toList_ofList]
  refine List.infix_of_mem_flatten (List.mem_map.2 ⟨.hole raw, hraw, ?_⟩)
  simp only [fillPiece, hescaped]
  rfl

/-- What a name is bound to is found where a value carries the name. -/
theorem Carries.found (h : Carries ctx id levels v path) (hname : ctx.resource? id = some name) :
    ∃ w, (valueWithin ctx levels v).itemAt? path = some w ∧
      name.toList <:+: w.plainText.toList := by
  have hknown : known? ctx id = some (.string name) := by
    rw [known?, hname]
  induction h with
  | ref hkey =>
    rw [valueWithin_ref hname hkey]
    exact ⟨_, rfl, List.infix_refl _⟩
  | getAtt hkey =>
    rw [valueWithin_getAtt hname hkey]
    refine ⟨_, rfl, ?_⟩
    rw [Json.plainText_string, String.append_assoc, String.toList_append]
    exact (List.prefix_append _ _).isInfix
  | dotted hkey hdotted =>
    rw [valueWithin_getAtt_dotted hname hkey hdotted]
    refine ⟨_, rfl, ?_⟩
    rw [Json.plainText_string, String.append_assoc, String.toList_append]
    exact (List.prefix_append _ _).isInfix
  | hole hkey ht hraw hescaped hid hvars =>
    refine ⟨_, rfl, List.IsInfix.trans ?_ (infix_hole hkey ht hraw hescaped)⟩
    rw [hid, holeValue, hvars, hknown]
    exact List.infix_refl _
  | @holeAttribute _ _ _ attr _ _ _ hkey ht hraw hescaped hid hvars hwhole =>
    refine ⟨_, rfl, List.IsInfix.trans ?_ (infix_hole hkey ht hraw hescaped)⟩
    have hvalue : (attributeText ctx id attr).value = name ++ "." ++ attr :=
      attributeText_of_bound hname attr
    rw [holeValue, hvars, hwhole, hid]
    simp only [hvalue, String.append_assoc, String.toList_append]
    exact (List.prefix_append _ _).isInfix
  | holeVariable hkey ht hraw hescaped hvalue _ ih =>
    obtain ⟨w, hw, hin⟩ := ih
    obtain rfl := Option.some.inj hw
    refine ⟨_, rfl, List.IsInfix.trans ?_ (infix_hole hkey ht hraw hescaped)⟩
    rw [holeValue, hvalue]
    exact hin
  | @part _ i _ _ _ hkey _ ih =>
    obtain ⟨w, hw, hin⟩ := ih
    rw [Json.itemAt?_cons] at hw
    obtain ⟨item, hitem, hw⟩ := Option.bind_eq_some_iff.1 hw
    obtain rfl := Option.some.inj hw
    obtain ⟨items, hitems, hitem⟩ := Json.item?_eq_some_iff.1 hitem
    rw [valueWithin_join hkey hitems]
    refine ⟨_, rfl, hin.trans ?_⟩
    rw [Json.plainText_string, Text.join, String.toList_ofList]
    exact Text.infix_joinWith
      (List.mem_map_of_mem (List.mem_map_of_mem (List.mem_of_getElem? hitem)))
  | delimiter hkey hparts _ ih =>
    obtain ⟨w, hw, hin⟩ := ih
    obtain rfl := Option.some.inj hw
    rw [valueWithin_join hkey hparts]
    refine ⟨_, rfl, hin.trans ?_⟩
    rw [Json.plainText_string, Text.join, String.toList_ofList]
    exact Text.infix_joinWith_mark
  | piece hkey hdelimiter hfree hplain _ ih =>
    obtain ⟨w, hw, hin⟩ := ih
    obtain rfl := Option.some.inj hw
    obtain ⟨piece, hpiece, hin⟩ := Text.exists_piece (hfree name hname) hin
    rw [valueWithin_split hkey hdelimiter]
    refine ⟨_, rfl, Json.infix_array (hplain name hname) (List.mem_map_of_mem hpiece) ?_⟩
    rw [Json.plainText_string, String.toList_ofList]
    exact hin
  | branch hkey _ ih =>
    rw [valueWithin_if hkey]
    exact ih
  | selected hkey hindex hitem _ ih =>
    rw [valueWithin_select hkey hindex hitem]
    exact ih
  | selectedResolved hkey hindex hitems _ ih =>
    obtain ⟨w, hw, hin⟩ := ih
    rw [Json.itemAt?_cons] at hw
    obtain ⟨item, hitem, hw⟩ := Option.bind_eq_some_iff.1 hw
    rw [valueWithin_select_resolved hkey hindex hitems hitem]
    exact ⟨w, hw, hin⟩
  | @item _ i items _ _ hitem _ ih =>
    obtain ⟨w, hw, hin⟩ := ih
    refine ⟨w, ?_, hin⟩
    rw [valueWithin_array, Json.itemAt?_cons, Json.item?, List.getElem?_map, hitem]
    exact hw
  | field hcall hfield hplain _ ih =>
    obtain ⟨w, hw, hin⟩ := ih
    obtain rfl := Option.some.inj hw
    rw [valueWithin_object hcall]
    refine ⟨_, rfl, Json.infix_object (hplain name hname) (List.mem_map_of_mem hfield) ?_⟩
    exact hin
  | rendered hplain _ ih =>
    obtain ⟨w, hw, hin⟩ := ih
    rw [Json.itemAt?_append] at hw
    obtain ⟨u, hu, hw⟩ := Option.bind_eq_some_iff.1 hw
    exact ⟨u, hu, Json.infix_of_itemAt? (hplain name hname) hw hin⟩

/-- What a name is bound to stands in the text of a value that carries the name. -/
theorem Carries.infix_text (h : Carries ctx id levels v []) (hname : ctx.resource? id = some name) :
    name.toList <:+: (textWithin ctx levels v).toList := by
  obtain ⟨w, hw, hin⟩ := h.found hname
  obtain rfl := Option.some.inj hw
  exact hin

/-! ## Values that carry all that they mention -/

/-- A value that mentions nothing that may be a link. -/
def Silent (v : Json) : Prop := ∀ id ∈ mentions v, isLink id = false

instance (v : Json) : Decidable (Silent v) :=
  List.decidableBAll (fun id => isLink id = false) (mentions v)

/-- A value that is resolved down to a number of levels and keeps every reference in it: its calls
are well formed, each variable of a template is asked for, what is not chosen mentions nothing, and
no text is divided within a name. -/
inductive Faithful (ctx : Context) : Nat → Json → Prop
  | silent {levels : Nat} {v : Json} (h : Silent v) : Faithful ctx levels v
  | ref {levels : Nat} {key id : String} (hkey : Intrinsic.ofKey? key = some .ref) :
    Faithful ctx (levels + 1) (.object [(key, .string id)])
  | getAtt {levels : Nat} {key id : String} {attr : Json}
    (hkey : Intrinsic.ofKey? key = some .getAtt) :
    Faithful ctx (levels + 1) (.object [(key, .array [.string id, attr])])
  | dotted {levels : Nat} {key dotted : String} (hkey : Intrinsic.ofKey? key = some .getAtt)
    (hdotted : '.' ∈ dotted.toList) : Faithful ctx (levels + 1) (.object [(key, .string dotted)])
  | sub {levels : Nat} {key template : String} {argument : Json} {vars : Json.Fields}
    (hkey : Intrinsic.ofKey? key = some .sub) (ht : IsTemplate argument template vars)
    (hwhole : ∀ name ∈ holeNames template, '.' ∈ name.toList → known? ctx name = none)
    (hasked : ∀ field ∈ vars, Silent field.2 ∨
      vars.lookup field.1 = some field.2 ∧ ∃ raw, .hole raw ∈ scan template.toList ∧
        escaped? raw = none ∧ String.ofList (Text.trim raw) = field.1)
    (hvars : ∀ field ∈ vars, Faithful ctx (levels - 1) field.2) :
    Faithful ctx (levels + 1) (.object [(key, argument)])
  | join {levels : Nat} {key : String} {delimiter : Json} {items : List Json}
    (hkey : Intrinsic.ofKey? key = some .join) (hdelimiter : Silent delimiter)
    (hitems : ∀ item ∈ items, Faithful ctx levels item) :
    Faithful ctx (levels + 2) (.object [(key, .array [delimiter, .array items])])
  | split {levels : Nat} {key : String} {delimiter source : Json}
    (hkey : Intrinsic.ofKey? key = some .split) (hsilent : Silent delimiter)
    (hdelimiter : textWithin ctx levels delimiter ≠ "")
    (hfree : ∀ id ∈ mentions source, ∀ name ∈ ctx.resource? id,
      ∀ c ∈ (textWithin ctx levels delimiter).toList, c ∉ name.toList)
    (hsource : Faithful ctx levels source) :
    Faithful ctx (levels + 1) (.object [(key, .array [delimiter, source])])
  | choice {levels : Nat} {key condition : String} {whenTrue whenFalse : Json}
    (hkey : Intrinsic.ofKey? key = some .ifElse)
    (hother : Silent (if ctx.holds condition then whenFalse else whenTrue))
    (hchosen : Faithful ctx levels (if ctx.holds condition then whenTrue else whenFalse)) :
    Faithful ctx (levels + 1) (.object [(key, .array [.string condition, whenTrue, whenFalse])])
  | selection {levels i : Nat} {key : String} {index item : Json} {items : List Json}
    (hkey : Intrinsic.ofKey? key = some .select) (hsilent : Silent index)
    (hindex : indexOf? (valueWithin ctx levels index) = some i) (hitem : items[i]? = some item)
    (hothers : ∀ j other, j ≠ i → items[j]? = some other → Silent other)
    (hchosen : Faithful ctx levels item) :
    Faithful ctx (levels + 1) (.object [(key, .array [index, .array items])])
  | array {levels : Nat} {items : List Json} (hitems : ∀ item ∈ items, Faithful ctx levels item) :
    Faithful ctx (levels + 1) (.array items)
  | object {levels : Nat} {fields : Json.Fields} (hcall : Intrinsic.ofFields? fields = none)
    (hfields : ∀ field ∈ fields, Faithful ctx levels field.2) :
    Faithful ctx (levels + 1) (.object fields)

/-! ### What calls mention -/

section Mentions

variable {key : String} {argument : Json}

theorem mentions_string (s : String) : mentions (.string s) = [] := by
  rw [mentions.eq_def]

theorem mentions_getAtt (hkey : Intrinsic.ofKey? key = some .getAtt) :
    mentions (.object [(key, argument)]) = (attributeOwner? argument).toList := by
  rw [mentions.eq_def]
  simp only [hkey]

/-- A call that is neither `Ref` nor `GetAtt` nor `Sub` mentions what its argument mentions. -/
theorem mentions_call {i : Intrinsic} (hkey : Intrinsic.ofKey? key = some i) (href : i ≠ .ref)
    (hgetAtt : i ≠ .getAtt) (hsub : i ≠ .sub) :
    mentions (.object [(key, argument)]) = mentions argument := by
  rw [mentions.eq_def]
  simp only [hkey]
  cases i <;> first | contradiction | rfl

theorem mem_mentions_sub {template : String} {vars : Json.Fields}
    (hkey : Intrinsic.ofKey? key = some .sub) (ht : IsTemplate argument template vars) :
    id ∈ mentions (.object [(key, argument)]) ↔
      id ∈ holeOwners (some template) vars ∨ ∃ field ∈ vars, id ∈ mentions field.2 := by
  rw [mentions.eq_def]
  cases ht <;> simp [hkey, subTemplate?, mem_fieldMentions]

theorem mem_mentions_array {items : List Json} :
    id ∈ mentions (.array items) ↔ ∃ item ∈ items, id ∈ mentions item := mem_itemMentions

/-- A call with two arguments mentions what they mention. -/
theorem mem_mentions_pair {i : Intrinsic} {first second : Json}
    (hkey : Intrinsic.ofKey? key = some i) (hpair : i = .join ∨ i = .select ∨ i = .split) :
    id ∈ mentions (.object [(key, .array [first, second])]) ↔
      id ∈ mentions first ∨ id ∈ mentions second := by
  have hother : i ≠ .ref ∧ i ≠ .getAtt ∧ i ≠ .sub := by
    rcases hpair with rfl | rfl | rfl <;> simp
  obtain ⟨href, hgetAtt, hsub⟩ := hother
  rw [mentions_call hkey href hgetAtt hsub, mem_mentions_array]
  simp

end Mentions

/-! ### Names in holes -/

/-- An escape stays an escape without the blanks around it. -/
theorem head?_trim_escape (rest : List Char) : (Text.trim ('!' :: rest)).head? = some '!' := by
  have hblank : ¬ Text.isBlank '!' = true := by decide
  have hfront : ('!' :: rest).dropWhile Text.isBlank = '!' :: rest := by
    rw [List.dropWhile_cons_of_neg hblank]
  rw [Text.trim, hfront, List.reverse_cons, List.dropWhile_append]
  split
  · rw [List.dropWhile_cons_of_neg hblank]
    rfl
  · rw [List.reverse_append]
    rfl

theorem escaped?_eq_none {raw : List Char} (h : (Text.trim raw).head? ≠ some '!') :
    escaped? raw = none := by
  unfold escaped?
  split
  · next rest => exact absurd (head?_trim_escape rest) h
  · rfl

theorem exists_divide? {mark : Char} {text : String} (h : mark ∈ text.toList) :
    ∃ rest, Text.divide? mark text = some (Text.upTo mark text, rest) := by
  have hcut : ∀ text : List Char, mark ∈ text → (Text.cutAtChar? mark text).isSome := by
    intro text hmark
    induction text with
    | nil => simp at hmark
    | cons c text ih =>
      rw [Text.cutAtChar?_cons]
      by_cases hc : mark = c
      · simp [hc]
      · rw [if_neg hc, Option.isSome_map]
        exact ih ((List.mem_cons.1 hmark).resolve_left hc)
  obtain ⟨⟨before, rest⟩, hsome⟩ := Option.isSome_iff_exists.1 (hcut text.toList h)
  have hdivide : Text.divide? mark text = some (String.ofList before, String.ofList rest) := by
    rw [Text.divide?, hsome]
    rfl
  exact ⟨String.ofList rest, by rw [hdivide, Text.upTo_of_divide? hdivide]⟩

/-- What the holes of a template mention is filled in there. -/
theorem exists_hole {template : String} {vars : Json.Fields}
    (h : id ∈ holeOwners (some template) vars) :
    ∃ raw, .hole raw ∈ scan template.toList ∧ escaped? raw = none ∧
      String.ofList (Text.trim raw) ∈ holeNames template ∧
      vars.lookup (String.ofList (Text.trim raw)) = none ∧
      Text.upTo '.' (String.ofList (Text.trim raw)) = id := by
  obtain ⟨name, hname, rfl⟩ := List.mem_map.1 h
  obtain ⟨hname, hvars⟩ := List.mem_filter.1 hname
  have hname' := hname
  obtain ⟨piece, hpiece, hsome⟩ := List.mem_filterMap.1 hname
  cases piece with
  | letter c => simp at hsome
  | unclosed rest => simp at hsome
  | hole raw =>
    simp only at hsome
    split at hsome
    · contradiction
    · next hescape =>
      obtain rfl := Option.some.inj hsome
      refine ⟨raw, hpiece, escaped?_eq_none fun hhead => ?_, hname', by simpa using hvars, rfl⟩
      obtain ⟨rest, hrest⟩ := List.head?_eq_some_iff.1 hhead
      exact hescape rest hrest

/-- A value that keeps every reference in it carries all that may be a link. -/
theorem Faithful.carries (h : Faithful ctx levels v) (hid : id ∈ mentions v)
    (hlink : isLink id = true) (hplain : ∀ name ∈ ctx.resource? id, Json.IsPlain name) :
    Carries ctx id levels v [] := by
  have hnone : ∀ {w : Json}, Silent w → id ∉ mentions w := by
    intro w hw hmem
    rw [hw id hmem] at hlink
    contradiction
  induction h with
  | silent h => exact absurd hid (hnone h)
  | ref hkey =>
    rw [mentions.eq_def] at hid
    simp only [hkey, List.mem_singleton] at hid
    rw [hid]
    exact .ref hkey
  | getAtt hkey =>
    rw [mentions_getAtt hkey] at hid
    obtain rfl : id = _ := by simpa [attributeOwner?] using hid
    exact .getAtt hkey
  | dotted hkey hdotted =>
    rw [mentions_getAtt hkey] at hid
    obtain rfl : id = _ := by simpa [attributeOwner?] using hid
    obtain ⟨rest, hdivide⟩ := exists_divide? hdotted
    exact .dotted hkey hdivide
  | @sub levels key template argument vars hkey ht hwhole hasked _ ih =>
    rcases (mem_mentions_sub hkey ht).1 hid with hid | ⟨field, hfield, hid⟩
    · obtain ⟨raw, hraw, hescaped, hname, hvars, hupTo⟩ := exists_hole hid
      by_cases hdot : '.' ∈ (String.ofList (Text.trim raw)).toList
      · obtain ⟨rest, hdivide⟩ := exists_divide? hdot
        rw [hupTo] at hdivide
        exact .holeAttribute hkey ht hraw hescaped hdivide hvars (hwhole _ hname hdot)
      · rw [Text.upTo_of_not_mem hdot] at hupTo
        exact .hole hkey ht hraw hescaped hupTo (hupTo ▸ hvars)
    · rcases hasked field hfield with hvalue | ⟨hvalue, raw, hraw, hescaped, hname⟩
      · exact absurd hid (hnone hvalue)
      · exact .holeVariable hkey ht hraw hescaped (hname ▸ hvalue) (ih field hfield hid)
  | join hkey hdelimiter _ ih =>
    have hid := ((mem_mentions_pair hkey (by simp)).1 hid).resolve_left (hnone hdelimiter)
    obtain ⟨item, hitem, hid⟩ := mem_mentions_array.1 hid
    obtain ⟨i, hi⟩ := List.mem_iff_getElem?.1 hitem
    exact .part hkey (.item hi (ih item hitem hid))
  | split hkey hsilent hdelimiter hfree _ ih =>
    have hid := ((mem_mentions_pair hkey (by simp)).1 hid).resolve_left (hnone hsilent)
    exact .piece hkey hdelimiter (hfree id hid) hplain (ih hid)
  | @choice levels key condition whenTrue whenFalse hkey hother _ ih =>
    rw [mentions_call hkey (by simp) (by simp) (by simp), mem_mentions_array] at hid
    have hbranch : id ∈ mentions whenTrue ∨ id ∈ mentions whenFalse := by
      simpa [mentions_string] using hid
    refine .branch hkey (ih ?_)
    cases hc : ctx.holds condition <;> rw [hc] at hother
    · exact hbranch.resolve_left (hnone hother)
    · exact hbranch.resolve_right (hnone hother)
  | @selection levels i key index item items hkey hsilent hindex hitem hothers _ ih =>
    have hid := ((mem_mentions_pair hkey (by simp)).1 hid).resolve_left (hnone hsilent)
    obtain ⟨other, hmem, hid⟩ := mem_mentions_array.1 hid
    obtain ⟨j, hj⟩ := List.mem_iff_getElem?.1 hmem
    refine .selected hkey hindex hitem (ih ?_)
    by_cases hji : j = i
    · subst hji
      obtain rfl := Option.some.inj (hitem.symm.trans hj)
      exact hid
    · exact absurd hid (hnone (hothers j other hji hj))
  | @array levels items _ ih =>
    obtain ⟨item, hitem, hid⟩ := mem_mentions_array.1 hid
    obtain ⟨i, hi⟩ := List.mem_iff_getElem?.1 hitem
    have hitem : Carries ctx id (levels + 1) (.array items) ([] ++ [i]) :=
      .item hi (ih item hitem hid)
    exact .rendered hplain hitem
  | object hcall _ ih =>
    rw [mentions_object hcall, mem_fieldMentions] at hid
    obtain ⟨field, hfield, hid⟩ := hid
    exact .field hcall hfield hplain (ih field hfield hid)

end LocalCloud.Expression
