import LocalCloud.Proofs.Expression.Consultation
import LocalCloud.Proofs.Expression.Values
import LocalCloud.Proofs.Json.Inside

/-!
# Why the limit on levels does not show

The rules for one value look at nothing but the values inside it, and those lie at least as many
levels below it as the rules count (`step_congr_inside`, `judge_congr_inside`).  So a counter that
starts at the root is never ahead of the value it comes with: two ways to count that obey the rules
wherever that is so come to the same at the root, whatever they do elsewhere (`Obeys.eq`).

* Resolving without a limit is what obeys the rules at every value.  There is such a resolution
  (`unlimited_resolveFreely`).
* A value that is not deeper than the limit becomes the same with the limit and without it
  (`resolve_eq_of_unlimited`).
-/

namespace LocalCloud.Expression

open Json (LiesAt)

/-! ## What the rules look at -/

section Inside

variable {ctx : Context} {inner inner' deeper deeper' : Json → Noted Json} {argument : Json}

theorem resolveSub_congr_inside
    (hdeeper : ∀ m c, 1 ≤ m → LiesAt m argument c → deeper c = deeper' c) :
    resolveSub deeper ctx argument = resolveSub deeper' ctx argument := by
  have hagree : ∀ template vars, AgreeInHoles ctx ctx template vars := fun _ _ _ _ => ⟨rfl, rfl⟩
  unfold resolveSub
  split
  · exact fill_congr rfl (by simp) (hagree _ _)
  · exact fill_congr rfl (by simp) (hagree _ _)
  · next template vars =>
    refine fill_congr rfl (fun name value hvalue => ?_) (hagree _ _)
    have hfield : (name, value) ∈ vars := by
      obtain ⟨before, after, rfl, -⟩ := List.lookup_eq_some_iff.1 hvalue
      simp
    exact hdeeper 2 value (by decide) (.item (by simp) (.field hfield (.self value)))
  · rfl
  · rfl

variable (hinner : ∀ m c, LiesAt m argument c → inner c = inner' c)

include hinner

theorem resolveGetAtt_congr_inside :
    resolveGetAtt inner ctx argument = resolveGetAtt inner' ctx argument := by
  unfold resolveGetAtt
  split
  · next id attr => rw [hinner 1 attr (.inItems (by simp))]
  all_goals rfl

theorem resolveJoin_congr_inside : resolveJoin inner argument = resolveJoin inner' argument := by
  unfold resolveJoin
  split
  · next delimiter parts =>
    rw [hinner 1 delimiter (.inItems (by simp)),
      hinner 1 parts (.inItems (by simp))]
  · rfl

theorem resolveSelect_congr_inside :
    resolveSelect inner argument = resolveSelect inner' argument := by
  unfold resolveSelect
  split
  · next index items =>
    rw [hinner 1 index (.inItems (by simp))]
    congr 1
    funext index
    split
    · rfl
    · next written =>
      split
      · next item hitem =>
        exact hinner 2 item (.item (by simp) (.item (List.mem_of_getElem? hitem) (.self item)))
      · rfl
    · rw [hinner 1 _ (.inItems (by simp))]
  · rfl

theorem resolveSplit_congr_inside : resolveSplit inner argument = resolveSplit inner' argument := by
  unfold resolveSplit
  split
  · next delimiter source =>
    rw [hinner 1 delimiter (.inItems (by simp)),
      hinner 1 source (.inItems (by simp))]
  · rfl

theorem resolveIf_congr_inside : resolveIf inner ctx argument = resolveIf inner' ctx argument := by
  unfold resolveIf
  split
  · next condition whenTrue whenFalse =>
    split
    · exact hinner 1 whenTrue (.inItems (by simp))
    · exact hinner 1 whenFalse (.inItems (by simp))
  · rfl

theorem resolveCall_congr_inside
    (hdeeper : ∀ m c, 1 ≤ m → LiesAt m argument c → deeper c = deeper' c) (i : Intrinsic) :
    resolveCall inner deeper ctx i argument = resolveCall inner' deeper' ctx i argument := by
  cases i with
  | ref => rfl
  | getAtt => exact resolveGetAtt_congr_inside hinner
  | sub => exact resolveSub_congr_inside hdeeper
  | join => exact resolveJoin_congr_inside hinner
  | select => exact resolveSelect_congr_inside hinner
  | split => exact resolveSplit_congr_inside hinner
  | ifElse => exact resolveIf_congr_inside hinner
  | base64 =>
    simp only [resolveCall]
    rw [hinner 0 argument (.self argument)]
  | zones => rfl

end Inside

/-- Of a value the rules resolve only what lies a level below it or deeper, and count two levels
only for what lies two levels below it or deeper. -/
theorem step_congr_inside {ctx : Context} {inner inner' deeper deeper' : Json → Noted Json}
    {v : Json}
    (hinner : ∀ m c, 1 ≤ m → LiesAt m v c → inner c = inner' c)
    (hdeeper : ∀ m c, 2 ≤ m → LiesAt m v c → deeper c = deeper' c) :
    step inner deeper ctx v = step inner' deeper' ctx v := by
  unfold step
  split
  · next fields =>
    split
    · next i argument hcall =>
      obtain ⟨key, rfl, -⟩ := eq_of_ofFields? hcall
      exact resolveCall_congr_inside (fun m c hc => hinner (m + 1) c (by omega) hc.inArgument)
        (fun m c hm hc => hdeeper (m + 1) c (by omega) hc.inArgument) i
    · congr 1
      refine mapM_congr fun (key, value) hfield => ?_
      simp only [hinner 1 value (by decide) (.field hfield (.self value))]
  · next items =>
    rw [mapM_congr fun item hitem => hinner 1 item (by decide) (.inItems hitem)]
  · rfl

/-- The rules for one condition: `inner` evaluates the conditions inside it and `operand` resolves
the values that it compares. -/
def judge (inner : Json → Noted Bool) (operand : Json → Noted Json) (ctx : Context)
    (expression : Json) : Noted Bool :=
  match expression with
  | .bool b => pure b
  | .string s =>
    match spelledTruth? s with
    | some b => pure b
    | none => assumeTrue (.unevaluable expression)
  | .object [(key, argument)] =>
    evaluateCall inner operand ctx (Intrinsic.shortName key) argument
  | _ => assumeTrue (.unevaluable expression)

/-- Each level of a condition goes by the rules, with one level less inside. -/
theorem evaluateWithin_succ (ctx : Context) (levels : Nat) :
    evaluateWithin ctx (levels + 1) =
      judge (evaluateWithin ctx levels) (resolveWithin ctx levels) ctx := by
  funext expression
  rw [evaluateWithin.eq_def]
  rfl

theorem evaluateCall_congr_inside {ctx : Context} {inner inner' : Json → Noted Bool}
    {operand operand' : Json → Noted Json} {argument : Json} (function : String)
    (hinner : ∀ m c, LiesAt m argument c → inner c = inner' c)
    (hoperand : ∀ m c, LiesAt m argument c → operand c = operand' c) :
    evaluateCall inner operand ctx function argument =
      evaluateCall inner' operand' ctx function argument := by
  unfold evaluateCall
  split
  · next a b =>
    rw [hoperand 1 a (.inItems (by simp)), hoperand 1 b (.inItems (by simp))]
  · next c => rw [hinner 1 c (.inItems (by simp))]
  · next cs => exact allM_congr fun c hc => hinner 1 c (.inItems hc)
  · next cs => exact anyM_congr fun c hc => hinner 1 c (.inItems hc)
  all_goals rfl

/-- Of a condition the rules evaluate and compare only what lies a level below it or deeper. -/
theorem judge_congr_inside {ctx : Context} {inner inner' : Json → Noted Bool}
    {operand operand' : Json → Noted Json} {e : Json}
    (hinner : ∀ m c, 1 ≤ m → LiesAt m e c → inner c = inner' c)
    (hoperand : ∀ m c, 1 ≤ m → LiesAt m e c → operand c = operand' c) :
    judge inner operand ctx e = judge inner' operand' ctx e := by
  unfold judge
  split
  · rfl
  · rfl
  · next key argument =>
    exact evaluateCall_congr_inside _ (fun m c hc => hinner (m + 1) c (by omega) hc.inArgument)
      fun m c hc => hoperand (m + 1) c (by omega) hc.inArgument
  · rfl

/-! ## Counting levels -/

/-- What values and conditions become, with a counter of levels that gives up where `stop` says.
The rules are kept wherever the counter is not ahead of the level that a value inside the root lies
at; elsewhere anything may happen. -/
structure Obeys (ctx : Context) (stop : Nat → Bool) (root : Json)
    (values : Nat → Json → Noted Json) (truths : Nat → Json → Noted Bool) : Prop where
  value {counter level : Nat} {v : Json} (hv : LiesAt level root v) (hcounter : counter ≤ level) :
    values counter v = if stop counter then tooDeep
      else step (values (counter + 1)) (values (counter + 2)) ctx v
  truth {counter level : Nat} {e : Json} (he : LiesAt level root e) (hcounter : counter ≤ level) :
    truths counter e = if stop counter then assumeTrue .conditionTooDeep
      else judge (truths (counter + 1)) (values (counter + 1)) ctx e

namespace Obeys

variable {ctx : Context} {stop : Nat → Bool} {root v : Json} {counter level : Nat}
  {values values' : Nat → Json → Noted Json} {truths truths' : Nat → Json → Noted Bool}

/-- What happens where the counter is ahead does not matter. -/
theorem eq_at (h : Obeys ctx stop root values truths) (h' : Obeys ctx stop root values' truths')
    (hv : LiesAt level root v) (hcounter : counter ≤ level) :
    values counter v = values' counter v ∧ truths counter v = truths' counter v := by
  induction hheight : v.height using Nat.strong_induction_on generalizing v counter level with
  | _ height ih =>
    have hbelow : ∀ m c more, 1 ≤ m → LiesAt m v c → more ≤ m →
        values (counter + more) c = values' (counter + more) c ∧
          truths (counter + more) c = truths' (counter + more) c := by
      intro m c more hm hc hmore
      have := hc.add_height_le
      exact ih c.height (by omega) (hv.trans hc) (Nat.add_le_add hcounter hmore) rfl
    rw [h.value hv hcounter, h'.value hv hcounter, h.truth hv hcounter, h'.truth hv hcounter]
    split
    · exact ⟨rfl, rfl⟩
    · exact ⟨step_congr_inside (fun m c hm hc => (hbelow m c 1 hm hc hm).1)
          fun m c hm hc => (hbelow m c 2 (by omega) hc hm).1,
        judge_congr_inside (fun m c hm hc => (hbelow m c 1 hm hc hm).2)
          fun m c hm hc => (hbelow m c 1 hm hc hm).1⟩

theorem eq (h : Obeys ctx stop root values truths) (h' : Obeys ctx stop root values' truths') :
    values 0 root = values' 0 root ∧ truths 0 root = truths' 0 root :=
  h.eq_at h' (.self root) (Nat.le_refl 0)

end Obeys

/-- Levels that are left count downwards what the counter counts upwards. -/
theorem obeys_within (ctx : Context) (levels : Nat) (root : Json) :
    Obeys ctx (levels ≤ ·) root (fun counter => resolveWithin ctx (levels - counter))
      fun counter => evaluateWithin ctx (levels - counter) where
  value {counter _ v} _ _ := by
    by_cases hstop : levels ≤ counter
    · simp [hstop, Nat.sub_eq_zero_of_le hstop, resolveWithin]
    · obtain ⟨left, hleft⟩ : ∃ left, levels - counter = left + 1 := ⟨levels - counter - 1, by omega⟩
      have hone : levels - (counter + 1) = left := by omega
      have htwo : levels - (counter + 2) = left - 1 := by omega
      simp [hstop, hleft, hone, htwo, resolveWithin_succ]
  truth {counter _ e} _ _ := by
    by_cases hstop : levels ≤ counter
    · simp [hstop, Nat.sub_eq_zero_of_le hstop, evaluateWithin]
    · obtain ⟨left, hleft⟩ : ∃ left, levels - counter = left + 1 := ⟨levels - counter - 1, by omega⟩
      have hone : levels - (counter + 1) = left := by omega
      simp [hstop, hleft, hone, evaluateWithin_succ]

/-- Levels that are enough for a root never stop the counter. -/
theorem obeys_within_enough (ctx : Context) {levels : Nat} {root : Json}
    (h : ∀ level v, LiesAt level root v → level < levels) :
    Obeys ctx (fun _ => false) root (fun counter => resolveWithin ctx (levels - counter))
      fun counter => evaluateWithin ctx (levels - counter) where
  value {counter level v} hv hcounter := by
    have hlevel := h level v hv
    rw [(obeys_within ctx levels root).value hv hcounter, if_neg (by simpa using by omega)]
    rfl
  truth {counter level e} he hcounter := by
    have hlevel := h level e he
    rw [(obeys_within ctx levels root).truth he hcounter, if_neg (by simpa using by omega)]
    rfl

/-! ## No limit -/

/-- What values and conditions become when the rules are kept everywhere and nothing is given up. -/
structure Unlimited (ctx : Context) (free : Json → Noted Json) (holds : Json → Noted Bool) :
    Prop where
  value (v : Json) : free v = step free free ctx v
  truth (e : Json) : holds e = judge holds free ctx e

/-- A value resolved down to its last level. -/
def resolveFreely (ctx : Context) (v : Json) : Noted Json := resolveWithin ctx (v.height + 1) v

/-- A condition evaluated down to its last level. -/
def evaluateFreely (ctx : Context) (e : Json) : Noted Bool := evaluateWithin ctx (e.height + 1) e

/-- Without a limit the counter can be left out. -/
theorem Unlimited.obeys {ctx : Context} {free : Json → Noted Json} {holds : Json → Noted Bool}
    (h : Unlimited ctx free holds) (root : Json) :
    Obeys ctx (fun _ => false) root (fun _ => free) fun _ => holds where
  value _ _ := h.value _
  truth _ _ := h.truth _

section Height

variable {ctx : Context} {levels : Nat} {v : Json}

/-- More levels than a value is high change nothing. -/
theorem within_eq_freely (h : v.height < levels) :
    resolveWithin ctx levels v = resolveFreely ctx v ∧
      evaluateWithin ctx levels v = evaluateFreely ctx v := by
  have hdeep : ∀ level u, LiesAt level v u → level ≤ v.height := fun _ _ hu => hu.level_le
  have hlevels := obeys_within_enough ctx fun level u hu => (hdeep level u hu).trans_lt h
  have hheight := obeys_within_enough ctx fun level u hu => Nat.lt_succ_of_le (hdeep level u hu)
  exact hlevels.eq hheight

/-- There is a resolution without a limit. -/
theorem unlimited_resolveFreely (ctx : Context) :
    Unlimited ctx (resolveFreely ctx) (evaluateFreely ctx) where
  value v := by
    rw [resolveFreely, resolveWithin_succ]
    refine step_congr_inside (fun m c hm hc => ?_) fun m c hm hc => ?_
    · have := hc.add_height_le
      exact (within_eq_freely (by omega)).1
    · have := hc.add_height_le
      exact (within_eq_freely (by omega)).1
  truth e := by
    rw [evaluateFreely, evaluateWithin_succ]
    refine judge_congr_inside (fun m c hm hc => ?_) fun m c hm hc => ?_
    · have := hc.add_height_le
      exact (within_eq_freely (by omega)).2
    · have := hc.add_height_le
      exact (within_eq_freely (by omega)).1

end Height

/-- The limit on levels does not show in a value in which nothing lies deeper than the limit:
without a limit, which can be done, it becomes the same, and as a condition it evaluates to the
same, with the same warnings.  In any value the counter is never ahead of the level that a value
inside lies at: whatever is put in the place of the rules for a counter that is ahead, the root
becomes the same. -/
theorem resolve_eq_of_unlimited (ctx : Context) :
    Unlimited ctx (resolveFreely ctx) (evaluateFreely ctx) ∧
    (∀ free holds, Unlimited ctx free holds → ∀ v,
      (∀ level u, LiesAt level v u → level ≤ nestingLimit) →
        resolve ctx v = free v ∧ evaluate ctx v = holds v) ∧
    ∀ root values truths, Obeys ctx (nestingLimit < ·) root values truths →
      values 0 root = resolve ctx root ∧ truths 0 root = evaluate ctx root := by
  refine ⟨unlimited_resolveFreely ctx, fun free holds hfree v hv => ?_,
    fun root values truths h => h.eq (obeys_within ctx (nestingLimit + 1) root)⟩
  have hlimit := obeys_within_enough ctx fun level u hu => Nat.lt_succ_of_le (hv level u hu)
  exact hlimit.eq (hfree.obeys v)

/-- A value with arrays around it. -/
def boxed (v : Json) : Nat → Json
  | 0 => v
  | n + 1 => .array [boxed v n]

theorem liesAt_boxed (v : Json) (n : Nat) : LiesAt n (boxed v n) v := by
  induction n with
  | zero => exact .self v
  | succ n ih => exact .item List.mem_cons_self ih

theorem height_boxed (v : Json) (n : Nat) : (boxed v n).height = v.height + n := by
  induction n with
  | zero => rfl
  | succ n ih => simp [boxed, Json.height, Json.itemsHeight, ih, Nat.add_assoc]

/-- A template with a variable that is a call. -/
def greeting : Json :=
  .object [("Fn::Sub", .array [.string "Hello $\x7bName\x7d",
    .object [("Name", .object [("Ref", .string "Queue")])]])]

/-- The name in the call of the variable lies as deep as the limit allows. -/
theorem boxed_greeting_unlimited :
    LiesAt nestingLimit (boxed greeting 60) (.string "Queue") ∧
      (∀ level u, LiesAt level (boxed greeting 60) u → level ≤ nestingLimit) ∧
      resolve {} (boxed greeting 60) = resolveFreely {} (boxed greeting 60) ∧
      evaluate {} (boxed greeting 60) = evaluateFreely {} (boxed greeting 60) ∧
      resolveWithin {} (nestingLimit + 1 - 0) (boxed greeting 60) =
        resolve {} (boxed greeting 60) := by
  have hname : LiesAt 4 greeting (.string "Queue") :=
    .inArgument (.item (.tail _ (.head _)) (.field (.head _) (.inArgument (.self _))))
  have hlevel : ∀ level u, LiesAt level (boxed greeting 60) u → level ≤ nestingLimit := by
    intro level u hu
    have hheight : (boxed greeting 60).height = nestingLimit := height_boxed greeting 60
    have := hu.add_height_le
    omega
  obtain ⟨hfree, hequal, hcounted⟩ := resolve_eq_of_unlimited {}
  obtain ⟨hvalue, htruth⟩ := hequal _ _ hfree _ hlevel
  have hcounter := hcounted _ _ _ (obeys_within {} (nestingLimit + 1) (boxed greeting 60))
  exact ⟨(liesAt_boxed greeting 60).trans hname, hlevel, hvalue, htruth, hcounter.1⟩

end LocalCloud.Expression
