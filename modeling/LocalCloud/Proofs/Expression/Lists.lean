import LocalCloud.Proofs.Expression.Limits
import LocalCloud.Proofs.Text.Pieces

/-!
# Lists that are chosen from, joined and divided

Of a list that is written out only the chosen item is resolved; any other list is resolved as a
whole, and then an item of it is chosen.  As long as nothing lies deeper than the limit on levels,
it makes no difference whether a list is written out or comes from a call (`select_written_eq`).

The pieces of a text, joined, are the text again, and texts without the mark, joined by it, are the
pieces of what they are joined to (`join_split_inverse`).
-/

namespace LocalCloud.Expression

open Json (LiesAt)

/-- A call of a function with a list of operands. -/
abbrev callOf (key : String) (operands : List Json) : Json := .object [(key, .array operands)]

variable {ctx : Context} {levels : Nat}

/-! ## Choosing from lists -/

section Choosing

variable {key : String} {levels' room : Nat} {index v : Json} {items : List Json}

/-- A value that comes with some room below the limit becomes the same at any depth in it. -/
theorem valueWithin_eq_of_room (h : ∀ level u, LiesAt level v u → level + room ≤ nestingLimit)
    (hlevels : nestingLimit < levels + room) (hlevels' : nestingLimit < levels' + room) :
    valueWithin ctx levels v = valueWithin ctx levels' v := by
  have henough : ∀ {levels}, nestingLimit < levels + room →
      ∀ level u, LiesAt level v u → level < levels := by
    intro levels hlevels level u hu
    have := h level u hu
    omega
  have hobeys := obeys_within_enough ctx (henough hlevels)
  exact congrArg Noted.value (hobeys.eq (obeys_within_enough ctx (henough hlevels'))).1

/-- What lies in an operand lies two levels deeper in the call. -/
theorem liesAt_callOf {operands : List Json} {level : Nat} {u : Json} (hv : v ∈ operands)
    (h : LiesAt level v u) : LiesAt (level + 2) (callOf key operands) u :=
  .inArgument (.item hv h)

/-- Choosing from a list that is written out gives what the index and all items give that are
resolved on their own, an empty text if the index stands for no item.  It gives the same when the
list is replaced by any call that resolves to the resolved list, and so when it is replaced by a
choice between the list and itself. -/
theorem select_written_eq (ctx : Context) (hkey : Intrinsic.ofKey? key = some .select)
    (hlevel : ∀ level u, LiesAt level (callOf key [index, .array items]) u →
      level ≤ nestingLimit) :
    (resolve ctx (callOf key [index, .array items])).value =
        chosen (resolve ctx index).value (items.map fun item => (resolve ctx item).value) ∧
      (∀ list : Json, list.asArray? = none →
        (∀ level u, LiesAt level (callOf key [index, list]) u → level ≤ nestingLimit) →
        (resolve ctx list).value = (resolve ctx (.array items)).value →
        (resolve ctx (callOf key [index, list])).value =
          (resolve ctx (callOf key [index, .array items])).value) ∧
      ∀ ifKey condition, Intrinsic.ofKey? ifKey = some .ifElse →
        (resolve ctx (callOf key
            [index, callOf ifKey [.string condition, .array items, .array items]])).value =
          (resolve ctx (callOf key [index, .array items])).value := by
  have hwritten : (resolve ctx (callOf key [index, .array items])).value =
      chosen (valueWithin ctx nestingLimit index) (items.map (valueWithin ctx nestingLimit)) :=
    valueWithin_select_written hkey
  have hindex : valueWithin ctx nestingLimit index = valueWithin ctx (nestingLimit + 1) index :=
    valueWithin_eq_of_room (fun level u hu => hlevel _ u (liesAt_callOf List.mem_cons_self hu))
      (by omega) (by omega)
  -- An item lies three levels below the call, so it is not lost two levels below its place.
  have hitems : ∀ levels, nestingLimit - 2 ≤ levels →
      items.map (valueWithin ctx nestingLimit) = items.map (valueWithin ctx levels) := by
    intro levels hlevels
    refine List.map_congr_left fun item hitem => ?_
    have hroom : ∀ level u, LiesAt level item u → level + 3 ≤ nestingLimit := fun level u hu =>
      hlevel _ u (liesAt_callOf (.tail _ (.head _)) (.item hitem hu))
    exact valueWithin_eq_of_room hroom (by omega) (by omega)
  refine ⟨?_, fun list hlist hlevel' hsame => ?_, fun ifKey condition hif => ?_⟩
  · rw [hwritten, hindex, hitems (nestingLimit + 1) (by omega)]
    rfl
  · have hlower : valueWithin ctx nestingLimit list = valueWithin ctx (nestingLimit + 1) list :=
      valueWithin_eq_of_room (fun level u hu => hlevel' _ u
        (liesAt_callOf (.tail _ (.head _)) hu)) (by omega) (by omega)
    have hresolved := (hlower.trans hsame).trans (valueWithin_array items)
    rw [hwritten]
    exact valueWithin_select_list hkey hlist hresolved
  · have hresolved : valueWithin ctx nestingLimit
        (callOf ifKey [.string condition, .array items, .array items]) =
        .array (items.map (valueWithin ctx (nestingLimit - 2))) := by
      refine (valueWithin_if hif).trans ?_
      rw [ite_self]
      exact valueWithin_array items
    rw [hwritten, hitems (nestingLimit - 2) (Nat.le_refl _)]
    exact valueWithin_select_list hkey rfl hresolved

/-- A context in which parameters are the position and the name of a zone. -/
def secondZone : Context := { resources := [("Position", " +1 "), ("Zone", "local-1b")] }

/-- The call that gives the position. -/
def zonePosition : Json := .object [("Ref", .string "Position")]

/-- The zones, one of them put together from parts and one of them a parameter. -/
def writtenZones : List Json :=
  [callOf "Fn::Join" [.string "-", Json.ofStrings ["local", "1a"]],
    .object [("Ref", .string "Zone")], .string "local-1c"]

/-- The zone at the position is the same in the list that is written out, in the zones of the
region, and in a choice between the list and itself. -/
theorem secondZone_chosen :
    (resolve secondZone (callOf "Fn::Select" [zonePosition, .array writtenZones])).value =
        .string "local-1b" ∧
      (resolve secondZone (callOf "Fn::Select" [zonePosition,
        .object [("Fn::GetAZs", .string "")]])).value = .string "local-1b" ∧
      (resolve secondZone (callOf "Fn::Select" [zonePosition,
        callOf "Fn::If" [.string "Live", .array writtenZones, .array writtenZones]])).value =
          .string "local-1b" := by
  have hlevel : ∀ level u, LiesAt level (callOf "Fn::Select" [zonePosition, .array writtenZones])
      u → level ≤ nestingLimit := fun level u hu => hu.level_le.trans (by decide)
  obtain ⟨-, hcall, hchoice⟩ := select_written_eq secondZone (by decide) hlevel
  have hzone : (resolve secondZone (callOf "Fn::Select" [zonePosition,
      .array writtenZones])).value = .string "local-1b" := rfl
  refine ⟨hzone, ?_, (hchoice "Fn::If" "Live" (by decide)).trans hzone⟩
  exact (hcall (.object [("Fn::GetAZs", .string "")]) rfl
    (fun level u hu => hu.level_le.trans (by decide)) rfl).trans hzone

end Choosing

/-! ## Joining and dividing -/

section Dividing

variable {joinKey splitKey : String} {mark text : String}

/-- Texts stay as they are. -/
theorem resolveWithin_texts (ctx : Context) (levels : Nat) (texts : List String) :
    resolveWithin ctx (levels + 2) (Json.ofStrings texts) = pure (Json.ofStrings texts) := by
  have htexts : (texts.map Json.string).mapM (resolveWithin ctx (levels + 1)) =
      pure (texts.map Json.string) := by
    induction texts with
    | nil => rfl
    | cons text rest ih =>
      rw [List.map_cons, List.mapM_cons, resolveWithin_string, ih]
      rfl
  rw [Json.ofStrings, resolveWithin_array, htexts]
  rfl

/-- A list of texts is joined. -/
theorem resolveWithin_join {parts : Json} {texts : List String}
    (h : Intrinsic.ofKey? joinKey = some .join)
    (hparts : resolveWithin ctx (levels + 1) parts = pure (Json.ofStrings texts)) :
    resolveWithin ctx (levels + 2) (callOf joinKey [.string mark, parts]) =
      pure (.string (Text.join mark texts)) := by
  rw [resolveWithin_call h, resolveCall, resolveJoin, resolveWithin_string, pure_bind, hparts,
    pure_bind, Json.ofStrings]
  simp [Function.comp_def]

/-- A text is divided at a mark that is not empty. -/
theorem resolveWithin_split {source : Json} (h : Intrinsic.ofKey? splitKey = some .split)
    (hmark : mark ≠ "") (hsource : resolveWithin ctx (levels + 1) source = pure (.string text)) :
    resolveWithin ctx (levels + 2) (callOf splitKey [.string mark, source]) =
      pure (Json.ofStrings ((Text.splitAll mark.toList text.toList).map String.ofList)) := by
  rw [resolveWithin_call h, resolveCall, resolveSplit, resolveWithin_string, pure_bind, hsource]
  simp [hmark, Json.ofStrings, Function.comp_def]

/-- The pieces of a text, joined by the mark, are the text again. -/
theorem resolveWithin_join_split (hjoin : Intrinsic.ofKey? joinKey = some .join)
    (hsplit : Intrinsic.ofKey? splitKey = some .split) (hmark : mark ≠ "") :
    resolveWithin ctx (levels + 3)
        (callOf joinKey [.string mark, callOf splitKey [.string mark, .string text]]) =
      pure (.string text) := by
  have hpieces := resolveWithin_split hsplit hmark (resolveWithin_string ctx levels text)
  rw [resolveWithin_join hjoin hpieces, Text.join_splitAll]

/-- Texts without the mark, joined by it, are found again. -/
theorem resolveWithin_split_join {c : Char} {texts : List String}
    (hjoin : Intrinsic.ofKey? joinKey = some .join)
    (hsplit : Intrinsic.ofKey? splitKey = some .split) (hne : texts ≠ [])
    (hfree : ∀ text ∈ texts, c ∉ text.toList) :
    resolveWithin ctx (levels + 4) (callOf splitKey [.string (String.singleton c),
        callOf joinKey [.string (String.singleton c), Json.ofStrings texts]]) =
      pure (Json.ofStrings texts) := by
  have hmark : String.singleton c ≠ "" := by simp
  have htext : resolveWithin ctx (levels + 3)
      (callOf joinKey [.string (String.singleton c), Json.ofStrings texts]) =
        pure (.string (Text.join (String.singleton c) texts)) :=
    resolveWithin_join hjoin (resolveWithin_texts ctx levels texts)
  rw [resolveWithin_split hsplit hmark htext, String.toList_singleton, Text.splitAll_join hne hfree]

/-- Joining and dividing at one mark undo each other.  What is joined from the pieces of a text is
the text, whatever the mark is and however it overlaps itself; and what is joined by a single
character is divided at it into the same texts, if there are any and none of them holds it.
Neither gives a warning. -/
theorem join_split_inverse (ctx : Context) (hjoin : Intrinsic.ofKey? joinKey = some .join)
    (hsplit : Intrinsic.ofKey? splitKey = some .split) :
    (∀ mark text : String, mark ≠ "" →
      resolve ctx (callOf joinKey [.string mark, callOf splitKey [.string mark, .string text]]) =
        pure (.string text)) ∧
      ∀ (c : Char) (texts : List String), texts ≠ [] → (∀ text ∈ texts, c ∉ text.toList) →
        resolve ctx (callOf splitKey [.string (String.singleton c),
          callOf joinKey [.string (String.singleton c), Json.ofStrings texts]]) =
            pure (Json.ofStrings texts) :=
  ⟨fun _ _ hmark => resolveWithin_join_split hjoin hsplit hmark,
    fun _ _ hne hfree => resolveWithin_split_join hjoin hsplit hne hfree⟩

/-- A mark that overlaps itself, at both ends of a text and twice in a row inside it; and texts one
of which is empty. -/
theorem overlapping_joined :
    resolve {} (callOf "Fn::Join" [.string "--",
        callOf "Fn::Split" [.string "--", .string "---a----b--"]]) = pure (.string "---a----b--") ∧
      resolve {} (callOf "Split" [.string "-", callOf "Join" [.string "-",
        Json.ofStrings ["a", "", "b"]]]) = pure (Json.ofStrings ["a", "", "b"]) := by
  refine ⟨(join_split_inverse {} (by decide) (by decide)).1 "--" _ (by decide), ?_⟩
  exact (join_split_inverse {} (by decide) (by decide)).2 '-' ["a", "", "b"] (by decide) (by decide)

end Dividing

end LocalCloud.Expression
