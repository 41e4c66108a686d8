import LocalCloud.Proofs.Expression.Carrying
import LocalCloud.Proofs.Template.Names

/-!
# What a link names

A link is found by what a raw value mentions, and goes to the first of these names that belongs to
a resource that fits (`link?_eq`).  It is found before anything is resolved, so that it may go to a
resource in a branch that is not chosen (`unkept_links`).  Where resolving keeps the reference, the
local identifier of the linked resource stands in the resolved text (`link_named`).
-/

namespace LocalCloud

/-! ## The first of some names -/

section FindSome

variable {α β : Type}

theorem findSome?_filter (p : α → Bool) (f : α → Option β) (xs : List α) :
    (xs.filter p).findSome? f = xs.findSome? fun x => if p x then f x else none := by
  induction xs with
  | nil => rfl
  | cons x xs ih =>
    by_cases h : p x = true
    · rw [List.filter_cons_of_pos h, List.findSome?_cons, List.findSome?_cons, ih, if_pos h]
    · rw [List.filter_cons_of_neg h, List.findSome?_cons, ih, if_neg h]

/-- Repetitions do not matter for the first one. -/
theorem findSome?_eraseDups [BEq α] [LawfulBEq α] (f : α → Option β) (xs : List α) :
    xs.eraseDups.findSome? f = xs.findSome? f := by
  induction hlen : xs.length using Nat.strongRecOn generalizing xs with
  | _ n ih =>
    cases xs with
    | nil => rfl
    | cons x xs =>
      rw [List.eraseDups_cons, List.findSome?_cons, List.findSome?_cons]
      cases hx : f x with
      | some b => rfl
      | none =>
        have hshort : (xs.filter fun y => !y == x).length < n := by
          have hle := List.length_filter_le (fun y => !y == x) xs
          simp only [List.length_cons] at hlen
          omega
        simp only
        rw [ih _ hshort _ rfl, findSome?_filter]
        refine congrArg (List.findSome? · xs) (funext fun y => ?_)
        by_cases hy : y = x
        · simp [hy, hx]
        · simp [hy]

/-- The only item that may give something. -/
theorem findSome?_eq_of_getElem? {f : α → Option β} {xs : List α} {i : Nat} {x : α}
    (hx : xs[i]? = some x) (hothers : ∀ j y, j ≠ i → xs[j]? = some y → f y = none) :
    xs.findSome? f = f x := by
  induction xs generalizing i with
  | nil => simp at hx
  | cons first rest ih =>
    rw [List.findSome?_cons]
    cases i with
    | zero =>
      obtain rfl := Option.some.inj hx
      have hrest : rest.findSome? f = none := by
        refine List.findSome?_eq_none_iff.2 fun y hy => ?_
        obtain ⟨j, hj⟩ := List.mem_iff_getElem?.1 hy
        exact hothers (j + 1) y (by omega) hj
      cases hfirst : f first with
      | some b => rfl
      | none => exact hrest
    | succ i =>
      rw [hothers 0 first (by omega) rfl]
      exact ih hx fun j y hj hy => hothers (j + 1) y (by omega) hy

end FindSome

namespace Projector

variable (p : Projector) {types : List String} {v : Json} {key : String}

/-- The link that a name stands for: the included resource with this logical id, if its type
fits. -/
def linkOf? (types : List String) (id : String) : Option String :=
  if Expression.isLink id then
    ((p.resource? id).filter fun r => types.contains r.type).map fun r => p.idOf r.logicalId
  else none

/-- A link is that of the first mention that stands for one. -/
theorem link?_eq (v : Json) (types : List String) :
    p.link? v types = (Expression.mentions v).findSome? (p.linkOf? types) := by
  rw [link?, referenced, List.filter_filterMap, List.head?_filterMap, List.map_findSome?,
    Expression.references, findSome?_eraseDups, findSome?_filter]
  rfl

/-- The link of a list is that of the first item that has one. -/
theorem link?_array (items : List Json) :
    p.link? (.array items) types = items.findSome? (p.link? · types) := by
  rw [link?_eq]
  show (Expression.itemMentions items).findSome? (p.linkOf? types) = _
  induction items with
  | nil => rfl
  | cons item rest ih =>
    rw [Expression.itemMentions, List.findSome?_append, ih, List.findSome?_cons, ← link?_eq]
    cases p.link? item types <;> rfl

/-- The link of two values one after the other. -/
theorem link?_pair (first second : Json) :
    p.link? (.array [first, second]) types = (p.link? first types).or (p.link? second types) := by
  rw [link?_array, List.findSome?_cons, List.findSome?_cons]
  cases p.link? first types <;> cases p.link? second types <;> rfl

theorem link?_call {i : Intrinsic} {argument : Json} (hkey : Intrinsic.ofKey? key = some i)
    (href : i ≠ .ref) (hgetAtt : i ≠ .getAtt) (hsub : i ≠ .sub) :
    p.link? (.object [(key, argument)]) types = p.link? argument types := by
  rw [link?_eq, link?_eq, Expression.mentions_call hkey href hgetAtt hsub]

theorem link?_string (s : String) : p.link? (.string s) types = none := by
  rw [link?_eq, Expression.mentions_string, List.findSome?_nil]

theorem link?_if (types : List String) (hkey : Intrinsic.ofKey? key = some .ifElse)
    (condition : String) (whenTrue whenFalse : Json) :
    p.link? (.object [(key, .array [.string condition, whenTrue, whenFalse])]) types =
      (p.link? whenTrue types).or (p.link? whenFalse types) := by
  rw [p.link?_call hkey (by simp) (by simp) (by simp), link?_array, List.findSome?_cons,
    link?_string, ← link?_array, link?_pair]

theorem link?_select (types : List String) (hkey : Intrinsic.ofKey? key = some .select)
    (index : Json) (items : List Json) :
    p.link? (.object [(key, .array [index, .array items])]) types =
      (p.link? index types).or (items.findSome? (p.link? · types)) := by
  rw [p.link?_call hkey (by simp) (by simp) (by simp), link?_pair, link?_array]

/-- A link goes to a resource that the value mentions. -/
theorem exists_of_link? {id : String} (h : p.link? v types = some (p.idOf id)) :
    id ∈ Expression.mentions v ∧ Expression.isLink id = true ∧
      ∃ r, p.resource? id = some r ∧ r.type ∈ types := by
  rw [link?_eq] at h
  obtain ⟨other, hmention, hlink⟩ := List.exists_of_findSome?_eq_some h
  unfold linkOf? at hlink
  split at hlink
  · next hisLink =>
    obtain ⟨r, hr, hid⟩ := Option.map_eq_some_iff.1 hlink
    obtain ⟨hr, htype⟩ := Option.filter_eq_some_iff.1 hr
    have hother : r.logicalId = other := (resource?_eq_some hr).2.2
    obtain rfl : other = id := hother ▸ p.idOf_injective hid
    exact ⟨hmention, hisLink, r, hr, by simpa using htype⟩
  · contradiction

end Projector

namespace Template

open Expression

/-- What is included under a logical id is bound in the context. -/
theorem exists_bound {t : Template} {types : List String} {v : Json} {id : String}
    (h : t.projector.link? v types = some (t.projector.idOf id)) :
    ∃ name, t.context.value.resource? id = some name := by
  obtain ⟨-, -, r, hr, -⟩ := t.projector.exists_of_link? h
  obtain ⟨hmem, -, rfl⟩ := Projector.resource?_eq_some hr
  exact ⟨_, resource?_nameOf hmem⟩

/-- The resource that a link goes to has a local identifier, and this stands in the resolved text
wherever resolving keeps the reference; of a value that drops nothing it keeps all.  The link of a
choice is that of its first branch, else that of the second one, whichever is chosen; so it is that
of the chosen branch when the other one has none.  The link of a selection is that of the index,
else that of the first item that has one; so it is that of the selected item when no other part has
one. -/
theorem link_named (t : Template) (types : List String) :
    (∀ v id, t.projector.link? v types = some (t.projector.idOf id) →
      ∃ name, t.context.value.resource? id = some name ∧
        (Carries t.context.value id (nestingLimit + 1) v [] →
          name.toList <:+: (resolveText t.context.value v).value.toList) ∧
        (Faithful t.context.value (nestingLimit + 1) v → Json.IsPlain name →
          name.toList <:+: (resolveText t.context.value v).value.toList)) ∧
    (∀ key condition whenTrue whenFalse, Intrinsic.ofKey? key = some .ifElse →
      let v : Json := .object [(key, .array [.string condition, whenTrue, whenFalse])]
      let holds := t.context.value.holds condition
      t.projector.link? v types =
          (t.projector.link? whenTrue types).or (t.projector.link? whenFalse types) ∧
        (t.projector.link? (if holds then whenFalse else whenTrue) types = none →
          t.projector.link? v types =
            t.projector.link? (if holds then whenTrue else whenFalse) types)) ∧
    (∀ key index (items : List Json), Intrinsic.ofKey? key = some .select →
      let v : Json := .object [(key, .array [index, .array items])]
      t.projector.link? v types =
          (t.projector.link? index types).or (items.findSome? (t.projector.link? · types)) ∧
        ∀ (i : Nat) item, items[i]? = some item → t.projector.link? index types = none →
          (∀ j other, j ≠ i → items[j]? = some other → t.projector.link? other types = none) →
          t.projector.link? v types = t.projector.link? item types) := by
  refine ⟨fun v id hlink => ?_, fun key condition whenTrue whenFalse hkey => ?_,
    fun key index items hkey => ?_⟩
  · obtain ⟨hmention, hisLink, -⟩ := t.projector.exists_of_link? hlink
    obtain ⟨name, hname⟩ := exists_bound hlink
    refine ⟨name, hname, fun hcarries => hcarries.infix_text hname, fun hfaithful hplain => ?_⟩
    refine (hfaithful.carries hmention hisLink fun other hother => ?_).infix_text hname
    obtain rfl := Option.some.inj (hname.symm.trans hother)
    exact hplain
  · have hlaw := t.projector.link?_if types hkey condition whenTrue whenFalse
    refine ⟨hlaw, fun hother => ?_⟩
    rw [hlaw]
    cases hc : t.context.value.holds condition <;> simp_all
  · have hlaw := t.projector.link?_select types hkey index items
    refine ⟨hlaw, fun i item hitem hindex hothers => ?_⟩
    rw [hlaw, hindex, Option.none_or]
    exact findSome?_eq_of_getElem? hitem hothers

/-! ### Links that are lost, and links that last -/

/-- A queue with its raw properties. -/
def queueOf (logicalId : String) (properties : Json.Fields) : Resource where
  logicalId := logicalId
  type := ResourceType.queue
  properties := .object properties
  dependsOn := []
  condition := none
  metadata := []

/-- The call of a function. -/
def call (function : String) (argument : Json) : Json := .object [(function, argument)]

/-- The identifier of one of two queues, of the first one in production. -/
def chosenQueue : Json :=
  call "Fn::If" (.array [.string "Live", call "Fn::GetAtt" (.string "Alpha.Arn"),
    call "Fn::GetAtt" (.string "Beta.Arn")])

/-- Two queues that may take over the messages of a third one, and one with a quote in its name.  It
is not production, and a parameter is named like an attribute. -/
def deadLetters : Template where
  stack := "Shop"
  conditions := [("Live", .bool false)]
  parameters := [("Alpha.Arn", some (.string "elsewhere"))]
  resources :=
    [queueOf "Alpha" [], queueOf "Beta" [], queueOf "Quoted" [("QueueName", .string "say \"hi\"")],
      queueOf "Main" [("RedrivePolicy", .object [("deadLetterTargetArn", chosenQueue)])]]

/-- The context in which these values are resolved. -/
theorem context_deadLetters :
    deadLetters.context.value = deadLetters.baseContext.bindCondition "Live" false := by
  have hlive : deadLetters.conditions.lookup "Live" = some (.bool false) := rfl
  have hunbound : (deadLetters.baseContext.condition? "Live").isSome = false := by decide +kernel
  rw [context, Noted.value_foldlM]
  show (deadLetters.bindNamed [] deadLetters.baseContext "Live").value = _
  rw [bindNamed, hunbound]
  simp only [Bool.false_eq_true, if_false]
  split
  · next h => rw [hlive] at h; contradiction
  · next expression h =>
    obtain rfl := Option.some.inj (hlive.symm.trans h)
    rfl

/-- A value inside a number of lists. -/
def wrapped : Nat → Json → Json
  | 0, v => v
  | depth + 1, v => .array [wrapped depth v]

/-- Values that mention a queue, each in another place that resolving does not keep, with the
logical id of the queue. -/
def unkept : List (Json × String) :=
  let alpha := call "Ref" (.string "Alpha")
  let beta := call "Ref" (.string "Beta")
  [(chosenQueue, "Alpha"),
    (call "Fn::Select" (.array [.string "1", .array [alpha, beta]]), "Alpha"),
    (call "Fn::Select" (.array [call "Fn::Join" (.array [alpha, .array [.string "0"]]),
      .array [beta]]), "Alpha"),
    (call "Fn::Join" (.array [alpha, .array [.string "a"]]), "Alpha"),
    (call "Fn::Split" (.array [.string "ph", alpha]), "Alpha"),
    (call "Fn::Base64" alpha, "Alpha"),
    (call "Fn::GetAZs" alpha, "Alpha"),
    (call "Fn::GetAtt" (.array [.string "Alpha"]), "Alpha"),
    (call "Fn::Sub" (.array [.string "x", .object [("Name", alpha)]]), "Alpha"),
    (call "Fn::Sub" (.string "$\x7bAlpha.Arn\x7d"), "Alpha"),
    (.array [call "Ref" (.string "Quoted")], "Quoted"),
    (wrapped (nestingLimit + 1) alpha, "Alpha")]

/-- A link may go to a resource whose local identifier does not stand in the resolved text, in each
of these places.  The link of a choice may be that of the branch that is not chosen, and the link of
a selection that of an item that is not selected. -/
theorem unkept_links :
    (∀ entry ∈ unkept, ∃ name, deadLetters.context.value.resource? entry.2 = some name ∧
      deadLetters.projector.link? entry.1 [ResourceType.queue] =
        some (deadLetters.projector.idOf entry.2) ∧
      ¬ name.toList <:+: (resolveText deadLetters.context.value entry.1).value.toList) ∧
    (deadLetters.projector.queue (queueOf "Main"
      [("RedrivePolicy", .object [("deadLetterTargetArn", chosenQueue)])])).value.deadLetterTarget =
        some "Shop/Alpha" ∧
    deadLetters.projector.link? (call "Fn::GetAtt" (.string "Beta.Arn")) [ResourceType.queue] =
      some "Shop/Beta" ∧
    (resolveText deadLetters.context.value chosenQueue).value = "Beta.Arn" := by
  rw [projector, context_deadLetters]
  decide +kernel

/-- A value that drops no reference, as the branch that is not chosen has none. -/
def partsOfBeta : Json :=
  call "Fn::Join" (.array [.string ":", .array [.string "arn",
    call "Fn::If" (.array [.string "Live", .string "none", call "Ref" (.string "Beta")])]])

/-- A value that drops one reference but keeps the one that is its link. -/
def alphaAndChosen : Json :=
  call "Fn::Join" (.array [.string " ", .array [call "Ref" (.string "Alpha"), chosenQueue]])

theorem deadLetters_named :
    deadLetters.projector.link? partsOfBeta [ResourceType.queue] = some "Shop/Beta" ∧
    "Beta".toList <:+: (resolveText deadLetters.context.value partsOfBeta).value.toList ∧
    deadLetters.projector.link? alphaAndChosen [ResourceType.queue] = some "Shop/Alpha" ∧
    "Alpha".toList <:+: (resolveText deadLetters.context.value alphaAndChosen).value.toList := by
  have hlive : deadLetters.context.value.holds "Live" = false := by
    rw [context_deadLetters]
    decide +kernel
  have hbound : deadLetters.context.value.resource? "Alpha" = some "Alpha" ∧
      deadLetters.context.value.resource? "Beta" = some "Beta" := by
    rw [context_deadLetters]
    decide +kernel
  have hlinks : deadLetters.projector.link? partsOfBeta [ResourceType.queue] = some "Shop/Beta" ∧
      deadLetters.projector.link? alphaAndChosen [ResourceType.queue] = some "Shop/Alpha" := by
    rw [projector, context_deadLetters]
    decide +kernel
  have hbeta : Faithful deadLetters.context.value (nestingLimit + 1) partsOfBeta := by
    refine .join (by decide) (by decide) fun item hitem => ?_
    rcases List.mem_cons.1 hitem with rfl | hitem
    · exact .silent (by decide)
    · obtain rfl := List.mem_singleton.1 hitem
      refine .choice (by decide) ?_ ?_ <;> rw [hlive]
      · exact (by decide : Silent (.string "none"))
      · exact .ref (by decide)
  have hfirst : Carries deadLetters.context.value "Alpha" nestingLimit
      (.array [call "Ref" (.string "Alpha"), chosenQueue]) [0] :=
    .item rfl (.ref (by decide))
  have halpha : Carries deadLetters.context.value "Alpha" (nestingLimit + 1) alphaAndChosen [] :=
    .part (by decide) hfirst
  obtain ⟨hnames, -, -⟩ := link_named deadLetters [ResourceType.queue]
  obtain ⟨beta, hname, -, hall⟩ := hnames partsOfBeta "Beta" hlinks.1
  obtain rfl := Option.some.inj (hbound.2.symm.trans hname)
  obtain ⟨alpha, hname, hkept, -⟩ := hnames alphaAndChosen "Alpha" hlinks.2
  obtain rfl := Option.some.inj (hbound.1.symm.trans hname)
  exact ⟨hlinks.1, hall hbeta (by decide), hlinks.2, hkept halpha⟩

end Template

end LocalCloud
