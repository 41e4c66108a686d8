import LocalCloud.Proofs.Expression.Segments

/-!
# What the holes of a template ask for

A template is filled by asking for the values of names, and it is searched for the names that it
refers to.  Both go by the holes, which are found by the next opening and the closing brace behind it
(`holes_scan`), but each reads a hole in its own way.

* Filling asks for the names of all holes that are no escapes, each once and in order, and for
  nothing else (`value_fill_asked`, `warnings_fill_asked`).
* The search finds just those of them that do not begin with an exclamation mark
  (`holeNames_eq_filter_asked`): it looks for an escape behind the blanks of a hole, filling in front
  of them.  A name is passed by when a hole has blanks in front of an exclamation mark, and only then
  (`blankBeforeMark_passed_by`).
-/

namespace LocalCloud.Expression

/-! ## Holes -/

/-- What stands in the holes of a text: between the next opening and the next closing brace, again
and again, until there is no opening or it is not closed. -/
def holesIn (text : List Char) : List (List Char) :=
  match h : Text.cut? ['$', '\x7b'] text with
  | none => []
  | some (_, behind) =>
    match h' : Text.cutAtChar? '\x7d' behind with
    | none => []
    | some (raw, after) =>
      have : after.length < text.length :=
        Nat.lt_trans (Text.length_lt_of_cut? (by simp) h') (Text.length_lt_of_cut? (by simp) h)
      raw :: holesIn after
termination_by text.length

/-- What stands in a piece that is a hole. -/
def Piece.hole? : Piece → Option (List Char)
  | .hole raw => some raw
  | _ => none

/-- Whether a piece is an opening without a closing brace. -/
def Piece.isUnclosed : Piece → Bool
  | .unclosed _ => true
  | _ => false

section Holes

variable {text rest before behind : List Char} {c : Char}

theorem holesIn_of_no_opening (h : Text.cut? ['$', '\x7b'] text = none) : holesIn text = [] := by
  rw [holesIn]
  split
  · rfl
  · next hcut =>
    rw [h] at hcut
    contradiction

theorem holesIn_of_opening (h : Text.cut? ['$', '\x7b'] text = some (before, behind)) :
    holesIn text = match Text.cutAtChar? '\x7d' behind with
      | none => []
      | some (raw, after) => raw :: holesIn after := by
  rw [holesIn]
  split
  · next hcut =>
    rw [h] at hcut
    contradiction
  · next hcut =>
    rw [h] at hcut
    obtain ⟨rfl, rfl⟩ := Prod.mk.inj (Option.some.inj hcut)
    split <;> simp_all

theorem cut?_opening (rest : List Char) :
    Text.cut? ['$', '\x7b'] ('$' :: '\x7b' :: rest) = some ([], rest) := by
  simp [Text.cut?, Text.dropHead?]

/-- A character with which no opening begins stands in no hole. -/
theorem holesIn_letter (h : c = '$' → rest.head? ≠ some '\x7b') :
    holesIn (c :: rest) = holesIn rest := by
  have hhead : Text.dropHead? ['$', '\x7b'] (c :: rest) = none := by
    cases rest with
    | nil =>
      by_cases hc : '$' = c <;> simp [Text.dropHead?, hc]
    | cons d rest =>
      by_cases hc : '$' = c
      · have hd : ¬ '\x7b' = d := fun hd => h hc.symm (congrArg some hd.symm)
        simp [Text.dropHead?, hd]
      · simp [Text.dropHead?, hc]
  have hcut : Text.cut? ['$', '\x7b'] (c :: rest) =
      (Text.cut? ['$', '\x7b'] rest).map fun found => (c :: found.1, found.2) := by
    rw [Text.cut?, hhead]
  cases hrest : Text.cut? ['$', '\x7b'] rest with
  | none =>
    rw [hrest] at hcut
    rw [holesIn_of_no_opening hcut, holesIn_of_no_opening hrest]
  | some pieces =>
    rw [hrest] at hcut
    rw [holesIn_of_opening hcut, holesIn_of_opening hrest]

end Holes

/-- Scanning a text finds its holes. -/
theorem holes_scan (text : List Char) : (scan text).filterMap Piece.hole? = holesIn text := by
  fun_induction scan text with
  | case1 => rw [holesIn_of_no_opening rfl, List.filterMap_nil]
  | case2 rest h => simp [holesIn_of_opening (cut?_opening rest), h, Piece.hole?]
  | case3 rest raw after h _ ih =>
    simp [holesIn_of_opening (cut?_opening rest), h, Piece.hole?, ih]
  | case4 c rest h ih =>
    have hletter : c = '$' → rest.head? ≠ some '\x7b' := by
      intro hc hrest
      obtain ⟨after, hafter⟩ := List.head?_eq_some_iff.1 hrest
      exact h after hc hafter
    rw [List.filterMap_cons_none rfl, ih, holesIn_letter hletter]

/-! ## The names that filling asks for -/

/-- The name that a hole is filled by, unless it is an escape. -/
def askedName? (raw : List Char) : Option String :=
  match escaped? raw with
  | some _ => none
  | none => some (String.ofList (Text.trim raw))

/-- The names that the holes of a template are filled by, in order and with repetitions. -/
def askedNames (template : String) : List String :=
  (holesIn template.toList).filterMap askedName?

/-- The text of pieces with the given texts in the holes that are no escapes, one after another. -/
def put : List Piece → List String → List Char
  | [], _ => []
  | .letter c :: pieces, texts => c :: put pieces texts
  | .unclosed rest :: pieces, texts => (Piece.unclosed rest).text ++ put pieces texts
  | .hole raw :: pieces, texts =>
    match escaped? raw, texts with
    | some text, _ => text ++ put pieces texts
    | none, text :: texts => text.toList ++ put pieces texts
    | none, [] => put pieces []

section Fill

variable (deeper : Json → Noted Json) (ctx : Context) (vars : Json.Fields) (template : String)

/-- What pieces become is put together from the values of the names that they ask for. -/
theorem put_asked (pieces : List Piece) :
    (pieces.map fun p => (fillPiece deeper ctx vars template p).value).flatten =
      put pieces (((pieces.filterMap Piece.hole?).filterMap askedName?).map
        fun name => (holeValue deeper ctx vars name).value) := by
  induction pieces with
  | nil => rfl
  | cons piece pieces ih =>
    rw [List.map_cons, List.flatten_cons, ih]
    cases piece with
    | letter c => rfl
    | unclosed rest => rfl
    | hole raw =>
      cases hescaped : escaped? raw <;>
        simp [fillPiece, Piece.hole?, askedName?, put, hescaped]

theorem value_fill_asked : (fill deeper ctx vars template).value = .string (String.ofList
    (put (scan template.toList)
      ((askedNames template).map fun name => (holeValue deeper ctx vars name).value))) := by
  rw [value_fill, put_asked, holes_scan, askedNames]

/-- The warnings on the way are those for the names, in order, and one for an open end. -/
theorem warnings_fill_asked : (fill deeper ctx vars template).warnings =
    ((askedNames template).flatMap fun name => (holeValue deeper ctx vars name).warnings) ++
      if (scan template.toList).any Piece.isUnclosed then [.unterminatedHole template] else [] := by
  have hall : ∀ text : List Char,
      ((scan text).flatMap fun p => (fillPiece deeper ctx vars template p).warnings) =
        (((holesIn text).filterMap askedName?).flatMap
          fun name => (holeValue deeper ctx vars name).warnings) ++
        if (scan text).any Piece.isUnclosed then [.unterminatedHole template] else [] := by
    intro text
    rw [← holes_scan]
    fun_induction scan text with
    | case1 => rfl
    | case2 rest h => rfl
    | case3 rest raw after h _ ih =>
      rw [List.flatMap_cons, ih]
      cases hescaped : escaped? raw <;>
        simp [fillPiece, Piece.hole?, Piece.isUnclosed, askedName?, hescaped, Noted.warnings_map]
    | case4 c rest h ih =>
      rw [List.flatMap_cons, ih, List.filterMap_cons_none rfl]
      simp [fillPiece, Piece.isUnclosed]
  rw [warnings_fill, hall, askedNames]

end Fill

/-! ## The names that the search finds -/

/-- Whether a name looks like an escape. -/
def isMarked (name : String) : Bool := Text.startsWith "!" name

theorem isMarked_ofList_iff {name : List Char} :
    isMarked (String.ofList name) = true ↔ name.head? = some '!' := by
  have hmark : "!".toList = ['!'] := rfl
  rw [isMarked, Text.startsWith, hmark, String.toList_ofList]
  cases name with
  | nil => simp [Text.dropHead?]
  | cons c name =>
    by_cases hc : c = '!'
    · simp [Text.dropHead?, hc]
    · have hother : ¬ '!' = c := fun h => hc h.symm
      simp [Text.dropHead?, hc, hother]

/-- The name that the search finds in a hole is the one it is filled by, unless that looks like an
escape. -/
theorem foundName?_eq (raw : List Char) :
    (match Text.trim raw with
      | '!' :: _ => none
      | name => some (String.ofList name)) = (askedName? raw).filter (!isMarked ·) := by
  by_cases hmark : (Text.trim raw).head? = some '!'
  · have hmarked : isMarked (String.ofList (Text.trim raw)) = true := isMarked_ofList_iff.2 hmark
    have hasked : (askedName? raw).filter (!isMarked ·) = none := by
      rw [askedName?]
      cases escaped? raw with
      | none =>
        dsimp only
        rw [Option.filter_some, hmarked]
        rfl
      | some text => rfl
    rw [hasked]
    obtain ⟨rest, hrest⟩ := List.head?_eq_some_iff.1 hmark
    rw [hrest]
    rfl
  · have hunmarked : isMarked (String.ofList (Text.trim raw)) = false :=
      Bool.eq_false_iff.2 (mt isMarked_ofList_iff.1 hmark)
    rw [askedName?, escaped?_eq_none hmark]
    split
    · next rest hrest => simp [hrest] at hmark
    · rw [Option.filter_some, hunmarked]
      rfl

theorem holeNames_eq_filter_asked (template : String) :
    holeNames template = (askedNames template).filter (!isMarked ·) := by
  have hfound : holeNames template = (scan template.toList).filterMap fun p =>
      p.hole?.bind fun raw => (askedName? raw).filter (!isMarked ·) := by
    refine List.filterMap_congr fun p _ => ?_
    cases p with
    | letter c => rfl
    | unclosed rest => rfl
    | hole raw => exact foundName?_eq raw
  rw [hfound, ← List.filterMap_filterMap, holes_scan, askedNames, List.filter_filterMap]

theorem escaped?_eq_none_iff {raw : List Char} : escaped? raw = none ↔ raw.head? ≠ some '!' := by
  unfold escaped?
  split
  · simp
  · next hother =>
    refine iff_of_true rfl fun hhead => ?_
    obtain ⟨rest, hrest⟩ := List.head?_eq_some_iff.1 hhead
    exact hother rest hrest

theorem mem_askedNames_iff {template name : String} : name ∈ askedNames template ↔
    ∃ raw ∈ holesIn template.toList, raw.head? ≠ some '!' ∧ String.ofList (Text.trim raw) = name := by
  rw [askedNames, List.mem_filterMap]
  refine exists_congr fun raw => and_congr_right fun _ => ?_
  rw [← escaped?_eq_none_iff, askedName?]
  cases escaped? raw <;> simp

/-- The search passes by a name just when blanks stand in front of an exclamation mark. -/
theorem holeNames_eq_asked_iff (template : String) :
    holeNames template = askedNames template ↔ ∀ raw ∈ holesIn template.toList,
      (Text.trim raw).head? = some '!' → raw.head? = some '!' := by
  rw [holeNames_eq_filter_asked, List.filter_eq_self]
  constructor
  · intro h raw hraw hmark
    by_contra hfront
    have hasked := h _ (mem_askedNames_iff.2 ⟨raw, hraw, hfront, rfl⟩)
    rw [isMarked_ofList_iff.2 hmark] at hasked
    contradiction
  · intro h name hname
    obtain ⟨raw, hraw, hfront, rfl⟩ := mem_askedNames_iff.1 hname
    rw [Bool.not_eq_true', Bool.eq_false_iff]
    exact fun hmarked => hfront (h raw hraw (isMarked_ofList_iff.1 hmarked))

/-- A call that fills in a template with variables. -/
def subCallWith (template : String) (vars : Json.Fields) : Json :=
  .object [("Fn::Sub", .array [.string template, .object vars])]

/-- Filling a template asks for the values of its names, one after another, and puts them in their
places.  The search finds the same names in the same order, but for those that begin with an
exclamation mark: all of them, unless blanks stand in front of the mark in a hole.  So a call mentions
the owners of the other names that are no variables, and what the variables mention. -/
theorem holes_asked_and_found (template : String) :
    (∀ deeper ctx vars,
      (fill deeper ctx vars template).value = .string (String.ofList (put (scan template.toList)
        ((askedNames template).map fun name => (holeValue deeper ctx vars name).value))) ∧
      (fill deeper ctx vars template).warnings =
        ((askedNames template).flatMap fun name => (holeValue deeper ctx vars name).warnings) ++
          if (scan template.toList).any Piece.isUnclosed then [.unterminatedHole template]
          else []) ∧
    holeNames template = (askedNames template).filter (!isMarked ·) ∧
    (holeNames template = askedNames template ↔ ∀ raw ∈ holesIn template.toList,
      (Text.trim raw).head? = some '!' → raw.head? = some '!') ∧
    ∀ vars, mentions (subCallWith template vars) =
      ((askedNames template).filter fun name => (vars.lookup name).isNone && !isMarked name).map
        (Text.upTo '.') ++ fieldMentions vars := by
  have hfilter := holeNames_eq_filter_asked template
  refine ⟨fun deeper ctx vars => ⟨?_, ?_⟩, hfilter, holeNames_eq_asked_iff template, fun vars => ?_⟩
  · exact value_fill_asked deeper ctx vars template
  · exact warnings_fill_asked deeper ctx vars template
  · have hkey : Intrinsic.ofKey? "Fn::Sub" = some .sub := by decide
    rw [subCallWith, mentions.eq_def]
    simp only [hkey, holeOwners, subTemplate?, hfilter, List.filter_filter]

/-- A hole with a blank in front of an exclamation mark is filled by a name with this mark, but the
search takes it for an escape. -/
theorem blankBeforeMark_passed_by :
    ¬ ∀ template, holeNames template = askedNames template := by
  intro h
  have hasked : askedNames "$\x7b !Queue\x7d" = ["!Queue"] := by
    rw [askedNames, ← holes_scan]
    decide +kernel
  have hfound : holeNames "$\x7b !Queue\x7d" = [] := by decide +kernel
  rw [h, hasked] at hfound
  contradiction

end LocalCloud.Expression
