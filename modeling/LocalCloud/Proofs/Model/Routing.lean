import LocalCloud.Model.Rules
import Mathlib.Data.List.Induction

/-!
# Rules put on buses

Rules are put on buses one after another, each behind the rules of the bus at its place.  In the end
every bus holds its old rules and, behind them and in their order, those that had its place
(`routed`); no rule gets lost in this, and none is there twice (`perm_routed`).  So it is with the
rules that are left over by the templates: each goes to the first bus that has the name it asks for,
and those that ask for the default bus where there is none share one that is made for them
(`value_attachRules`).
-/

namespace LocalCloud.Model

/-! ## Places -/

section Places

variable {α : Type} (place? : α → Option Nat) (rule : α → Rule)

/-- The buses with rules behind their own ones: each bus gets those that have its place. -/
def routed (xs : List α) (buses : List Bus) : List Bus :=
  buses.mapIdx fun i b =>
    { b with rules := b.rules ++ (xs.filter (place? · == some i)).map rule }

theorem routed_nil (buses : List Bus) : routed place? rule [] buses = buses := by
  refine List.ext_getElem? fun j => ?_
  simp [routed]

theorem routed_map {β : Type} (f : β → α) (ys : List β) (buses : List Bus) :
    routed place? rule (ys.map f) buses = routed (place? <| f ·) (rule <| f ·) ys buses := by
  simp [routed, List.filter_map, Function.comp_def]

variable {place? rule} {xs : List α} {x : α} {buses : List Bus} {i : Nat}

/-- A rule more that has a place is put on the bus there. -/
theorem routed_snoc_of_some (h : place? x = some i) :
    routed place? rule (xs ++ [x]) buses =
      Projector.changeAt (fun b : Bus => { b with rules := b.rules ++ [rule x] })
        (routed place? rule xs buses) i := by
  refine List.ext_getElem? fun j => ?_
  by_cases hij : i = j <;>
    simp [routed, Projector.changeAt, List.filter_append, h, hij, Function.comp_def]

/-- A rule more that has no place changes nothing. -/
theorem routed_snoc_of_none (h : place? x = none) :
    routed place? rule (xs ++ [x]) buses = routed place? rule xs buses := by
  refine List.ext_getElem? fun j => ?_
  simp [routed, List.filter_append, h]

/-- Nothing about a bus changes but its rules. -/
theorem map_toEntry_routed :
    (routed place? rule xs buses).map (·.toEntry) = buses.map (·.toEntry) := by
  refine List.ext_getElem? fun j => ?_
  simp [routed, Function.comp_def]

/-- No other buses come into being. -/
theorem exists_of_mem_routed {b : Bus} (h : b ∈ routed place? rule xs buses) :
    ∃ b' ∈ buses, b'.toEntry = b.toEntry := by
  have hmem : b.toEntry ∈ (routed place? rule xs buses).map (·.toEntry) := List.mem_map_of_mem h
  rw [map_toEntry_routed] at hmem
  exact List.mem_map.1 hmem

theorem length_routed : (routed place? rule xs buses).length = buses.length := by
  simp [routed]

/-- A rule that is put on a bus is one more among all rules. -/
theorem perm_changeAt {r : Rule} (hi : i < buses.length) :
    ((Projector.changeAt (fun b : Bus => { b with rules := b.rules ++ [r] }) buses i).flatMap
      (·.rules)).Perm (buses.flatMap (·.rules) ++ [r]) := by
  induction buses generalizing i with
  | nil => simp at hi
  | cons b rest ih =>
    cases i with
    | zero =>
      show (b.rules ++ [r] ++ rest.flatMap (·.rules)).Perm
        (b.rules ++ rest.flatMap (·.rules) ++ [r])
      rw [List.append_assoc, List.append_assoc]
      exact List.perm_append_comm.append_left b.rules
    | succ i =>
      have hrest := (ih (Nat.lt_of_succ_lt_succ hi)).append_left b.rules
      rw [← List.append_assoc] at hrest
      exact hrest

/-- All buses together hold their old rules and those that have a place, each as often as it is
there. -/
theorem perm_routed (hplaces : ∀ x ∈ xs, ∀ i, place? x = some i → i < buses.length) :
    ((routed place? rule xs buses).flatMap (·.rules)).Perm
      (buses.flatMap (·.rules) ++ (xs.filter (place? · |>.isSome)).map rule) := by
  induction xs using List.reverseRecOn with
  | nil => simp [routed_nil]
  | append_singleton xs x ih =>
    have hrest := ih fun y hy => hplaces y (List.mem_append_left _ hy)
    rw [List.filter_append, List.map_append]
    cases hx : place? x with
    | none => simpa [routed_snoc_of_none hx, hx] using hrest
    | some i =>
      have hi : i < (routed place? rule xs buses).length := by
        rw [length_routed]
        exact hplaces x (by simp) i hx
      rw [routed_snoc_of_some hx, List.filter_cons_of_pos (by simp [hx]), List.filter_nil,
        ← List.append_assoc]
      exact (perm_changeAt hi).trans (hrest.append_right _)

end Places

/-! ## Rules that are left over -/

/-- The place of the first bus with a name. -/
def busNamed? (buses : List Bus) (name : String) : Option Nat := buses.findIdx? (·.name == name)

theorem isSome_busNamed? (buses : List Bus) (name : String) :
    (busNamed? buses name).isSome = buses.any (·.name == name) := List.findIdx?_isSome

/-- A rule goes to the first bus with the name. -/
theorem putRule_of_busNamed? {buses : List Bus} {name : String} {i : Nat} (rule : Rule)
    (h : busNamed? buses name = some i) :
    putRule name rule buses =
      Projector.changeAt (fun b : Bus => { b with rules := b.rules ++ [rule] }) buses i := by
  induction buses generalizing i with
  | nil => simp [busNamed?] at h
  | cons b rest ih =>
    rw [busNamed?, List.findIdx?_cons] at h
    rw [putRule]
    by_cases hname : b.name = name
    · rw [if_pos (by simpa using hname), Option.some.injEq] at h
      rw [if_pos hname, ← h]
      rfl
    · rw [if_neg (by simpa using hname)] at h
      obtain ⟨j, hj, rfl⟩ := Option.map_eq_some_iff.1 h
      rw [if_neg hname, ih hj]
      rfl

theorem putRule_append (name : String) (rule : Rule) (first rest : List Bus) :
    putRule name rule (first ++ rest) =
      if first.any (·.name == name) then putRule name rule first ++ rest
      else first ++ putRule name rule rest := by
  induction first with
  | nil => rfl
  | cons b first ih =>
    by_cases hname : b.name = name
    · simp [putRule, hname]
    · have hany : (b :: first).any (·.name == name) = first.any (·.name == name) := by
        simp [hname]
      rw [hany, List.cons_append, putRule, if_neg hname, ih]
      split
      · rw [putRule, if_neg hname, List.cons_append]
      · rfl

/-- The bus that is made for rules that ask for the default bus, if there are any. -/
def implicitBuses : List Rule → List Bus
  | [] => []
  | first :: more => [{ implicitBus first with rules := first :: more }]

/-- The place of the bus that a rule asks for that is left over. -/
def placeOf? (buses : List Bus) (d : DetachedRule) : Option Nat := busNamed? buses d.busName

/-- Whether a rule that is left over asks for the default bus where there is none. -/
def asksForImplicit (buses : List Bus) (d : DetachedRule) : Bool :=
  (placeOf? buses d).isNone && d.busName == defaultBus

/-- The buses with all rules that were left over. -/
def withDetached (buses : List Bus) (ds : List DetachedRule) : List Bus :=
  routed (placeOf? buses) DetachedRule.rule ds buses ++
    implicitBuses ((ds.filter (asksForImplicit buses)).map DetachedRule.rule)

/-- To put rules on buses makes no difference to which bus has a name. -/
theorem busNamed?_routed {α : Type} (place? : α → Option Nat) (rule : α → Rule) (xs : List α)
    (buses : List Bus) (name : String) :
    busNamed? (routed place? rule xs buses) name = busNamed? buses name := by
  have hentries : ∀ bs : List Bus,
      busNamed? bs name = (bs.map (·.toEntry)).findIdx? (·.name == name) := fun bs => by
    rw [List.findIdx?_map]
    rfl
  rw [hentries, hentries, map_toEntry_routed]

/-- What becomes of the buses when one of the rules that are left over is attached. -/
def busesAfter (buses : List Bus) (d : DetachedRule) : List Bus :=
  if buses.any (·.name == d.busName) then putRule d.busName d.rule buses
  else if d.busName = defaultBus then buses ++ [implicitBus d.rule]
  else buses

/-- Nothing but the buses changes when such a rule is attached. -/
theorem value_attachRule (m : Model) (d : DetachedRule) :
    (attachRule m d).value = { m with buses := busesAfter m.buses d } := by
  unfold attachRule busesAfter
  split
  · rfl
  · split <;> rfl

theorem withDetached_nil (buses : List Bus) : withDetached buses [] = buses := by
  simp [withDetached, routed_nil, implicitBuses]

/-- What one more of the rules that are left over does. -/
theorem busesAfter_withDetached (buses : List Bus) (ds : List DetachedRule) (d : DetachedRule) :
    busesAfter (withDetached buses ds) d = withDetached buses (ds ++ [d]) := by
  have hnamed : busNamed? (routed (placeOf? buses) DetachedRule.rule ds buses) d.busName =
      placeOf? buses d := busNamed?_routed _ _ ds buses d.busName
  unfold busesAfter withDetached
  rw [List.any_append, putRule_append, ← isSome_busNamed?, hnamed, List.filter_append,
    List.map_append]
  cases hplace : placeOf? buses d with
  | some i =>
    have hasks : asksForImplicit buses d = false := by simp [asksForImplicit, hplace]
    have hput := putRule_of_busNamed? d.rule (hnamed.trans hplace)
    simp [routed_snoc_of_some hplace, hput, hasks]
  | none =>
    rw [routed_snoc_of_none hplace]
    by_cases hname : d.busName = defaultBus
    · have hasks : asksForImplicit buses d = true := by simp [asksForImplicit, hplace, hname]
      -- the bus has been made before, or it is made for this rule
      cases hrules : (ds.filter (asksForImplicit buses)).map DetachedRule.rule with
      | nil => simp [implicitBuses, hname, hasks, implicitBus]
      | cons first more =>
        simp [implicitBuses, hname, hasks, implicitBus, putRule]
    · have hasks : asksForImplicit buses d = false := by simp [asksForImplicit, hname]
      have hother : (implicitBuses ((ds.filter (asksForImplicit buses)).map
          DetachedRule.rule)).any (·.name == d.busName) = false := by
        cases (ds.filter (asksForImplicit buses)).map DetachedRule.rule with
        | nil => rfl
        | cons first more => simpa [implicitBuses, implicitBus] using Ne.symm hname
      simp [hother, hname, hasks]

/-- What the rules do together that are left over. -/
theorem value_attachRules (m : Model) (ds : List DetachedRule) :
    (m.attachRules ds).value = { m with buses := withDetached m.buses ds } := by
  have hrun : ∀ before : List DetachedRule,
      ds.foldl (fun m d => (attachRule m d).value)
        { m with buses := withDetached m.buses before } =
          { m with buses := withDetached m.buses (before ++ ds) } := by
    induction ds with
    | nil => simp
    | cons d rest ih =>
      intro before
      rw [List.foldl_cons, value_attachRule, busesAfter_withDetached, ih, List.append_assoc]
      rfl
  have hstart := hrun []
  rw [withDetached_nil] at hstart
  rw [attachRules, Noted.value_foldlM]
  exact hstart

end LocalCloud.Model
