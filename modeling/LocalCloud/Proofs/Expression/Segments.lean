import LocalCloud.Proofs.Expression.Carrying

/-!
# Templates written segment by segment

An author thinks of a substitution template as literal texts, names and escapes, one after another
(`Segment`).  In the template that is written they are found again by the next opening and the next
closing brace, as long as no literals write an opening (`scan_written`).

* What a hole becomes is what its name or its attribute becomes as a call (`holeValue_eq`).
* So a template becomes what its segments become when they are joined, with the same warnings, and
  an opening that is never closed stays as it is with all that follows it (`sub_eq_join`).
-/

namespace LocalCloud

namespace Text

variable {mark : Char} {before rest : List Char}

theorem cutAtChar?_append (h : mark ∉ before) :
    cutAtChar? mark (before ++ mark :: rest) = some (before, rest) := by
  induction before with
  | nil => rw [List.nil_append, cutAtChar?_cons, if_pos rfl]
  | cons c before ih =>
    obtain ⟨hc, hbefore⟩ := not_or.1 (mt List.mem_cons.2 h)
    rw [List.cons_append, cutAtChar?_cons, if_neg hc, ih hbefore]
    rfl

theorem cutAtChar?_eq_none {text : List Char} (h : mark ∉ text) : cutAtChar? mark text = none := by
  cases hcut : cutAtChar? mark text with
  | none => rfl
  | some pieces =>
    rw [eq_of_cut? hcut] at h
    simp at h

theorem divide?_eq_none {text : String} (h : mark ∉ text.toList) : divide? mark text = none := by
  rw [divide?, cutAtChar?_eq_none h]
  rfl

end Text

namespace Expression

/-! ## Segments -/

/-- A part of a template as its author thinks of it. -/
inductive Segment where
  /-- A text that stands for itself. -/
  | literal (text : List Char)
  /-- A name, or a name and an attribute with a dot between them, perhaps with blanks around it. -/
  | token (raw : List Char)
  /-- A text that is to stand between braces behind a dollar sign. -/
  | escape (text : List Char)

namespace Segment

/-- How a segment is written. -/
def text : Segment → List Char
  | literal text => text
  | token raw => '$' :: '\x7b' :: raw ++ ['\x7d']
  | escape text => '$' :: '\x7b' :: '!' :: text ++ ['\x7d']

/-- The pieces that a segment is found in. -/
def pieces : Segment → List Piece
  | literal text => text.map .letter
  | token raw => [.hole raw]
  | escape text => [.hole ('!' :: text)]

/-- The value that a segment stands for. -/
def part : Segment → Json
  | literal text => .string (String.ofList text)
  | token raw =>
    match Text.divide? '.' (String.ofList (Text.trim raw)) with
    | some (id, attr) => .object [("Fn::GetAtt", .array [.string id, .string attr])]
    | none => .object [("Ref", .string (String.ofList (Text.trim raw)))]
  | escape text => .string (String.ofList ('$' :: '\x7b' :: text ++ ['\x7d']))

end Segment

/-- The template that segments write. -/
def written (segments : List Segment) : List Char := segments.flatMap Segment.text

/-- The literal text that segments begin with. -/
def leading : List Segment → List Char
  | .literal text :: rest => text ++ leading rest
  | _ => []

/-- Segments that can be told apart when they are written. -/
structure Separable (segments : List Segment) : Prop where
  /-- What stands between braces does not close them. -/
  closed : ∀ raw, .token raw ∈ segments → '\x7d' ∉ raw
  closedEscape : ∀ text, .escape text ∈ segments → '\x7d' ∉ text
  /-- No name looks like an escape. -/
  unescaped : ∀ raw, .token raw ∈ segments → (Text.trim raw).head? ≠ some '!'
  /-- No opening stands in a literal or in literals next to each other. -/
  unopened : ∀ later, later <:+ segments → ¬ ['$', '\x7b'] <:+: leading later

namespace Separable

variable {segment : Segment} {segments : List Segment}

theorem tail (h : Separable (segment :: segments)) : Separable segments where
  closed raw hraw := h.closed raw (List.mem_cons_of_mem _ hraw)
  closedEscape text htext := h.closedEscape text (List.mem_cons_of_mem _ htext)
  unescaped raw hraw := h.unescaped raw (List.mem_cons_of_mem _ hraw)
  unopened later hlater := h.unopened later (hlater.trans (List.suffix_cons _ _))

end Separable

/-! ## Scanning what is written -/

section Scan

variable {c : Char} {raw text rest : List Char}

theorem scan_letter (h : c = '$' → rest.head? ≠ some '\x7b') :
    scan (c :: rest) = .letter c :: scan rest := by
  rw [scan]
  rintro after rfl rfl
  exact h rfl rfl

theorem scan_hole (h : '\x7d' ∉ raw) :
    scan ('$' :: '\x7b' :: (raw ++ '\x7d' :: rest)) = .hole raw :: scan rest := by
  rw [scan]
  split
  · next hcut =>
    rw [Text.cutAtChar?_append h] at hcut
    contradiction
  · next hcut =>
    rw [Text.cutAtChar?_append h] at hcut
    obtain ⟨rfl, rfl⟩ := Prod.mk.inj (Option.some.inj hcut)
    rfl

theorem scan_unclosed (h : '\x7d' ∉ text) : scan ('$' :: '\x7b' :: text) = [.unclosed text] := by
  rw [scan]
  split
  · rfl
  · next hcut =>
    rw [Text.cutAtChar?_eq_none h] at hcut
    contradiction

/-- A text in which no opening begins is a row of letters. -/
theorem scan_letters (h : ∀ before after, text = before ++ '$' :: after →
    (after ++ rest).head? ≠ some '\x7b') : scan (text ++ rest) = text.map .letter ++ scan rest := by
  induction text with
  | nil => rfl
  | cons c text ih =>
    have hfirst : c = '$' → (text ++ rest).head? ≠ some '\x7b' := by
      rintro rfl
      exact h [] text rfl
    rw [List.cons_append, scan_letter hfirst, ih fun before after hsplit =>
      h (c :: before) after (congrArg (c :: ·) hsplit)]
    rfl

end Scan

theorem head?_leading {segments : List Segment} {rest : List Char}
    (hrest : rest.head? ≠ some '\x7b') (h : (written segments ++ rest).head? = some '\x7b') :
    (leading segments).head? = some '\x7b' := by
  induction segments with
  | nil => exact absurd h hrest
  | cons segment segments ih =>
    cases segment with
    | literal text =>
      cases text with
      | nil => exact ih h
      | cons c text => simpa [written, leading, Segment.text] using h
    | token raw => simp [written, Segment.text] at h
    | escape text => simp [written, Segment.text] at h

/-- Segments are found again in what they write. -/
theorem scan_written {segments : List Segment} (h : Separable segments) {rest : List Char}
    (hrest : rest.head? ≠ some '\x7b') :
    scan (written segments ++ rest) = segments.flatMap Segment.pieces ++ scan rest := by
  induction segments with
  | nil => rfl
  | cons segment segments ih =>
    have hlater := ih h.tail
    have hsplit : written (segment :: segments) ++ rest =
        segment.text ++ (written segments ++ rest) := List.append_assoc _ _ _
    rw [hsplit, List.flatMap_cons, List.append_assoc, ← hlater]
    cases segment with
    | literal text =>
      refine scan_letters fun before after htext hhead => ?_
      -- the opening that begins here would stand in the literals from here on
      have hbrace : (after ++ leading segments).head? = some '\x7b' := by
        cases after with
        | nil => exact head?_leading hrest hhead
        | cons c after => exact hhead
      obtain ⟨later, hopening⟩ := List.head?_eq_some_iff.1 hbrace
      obtain rfl : text = before ++ '$' :: after := htext
      exact h.unopened _ List.suffix_rfl ⟨before, later, by simp [leading, hopening]⟩
    | token raw =>
      have hclosed := h.closed raw List.mem_cons_self
      simpa [Segment.text, Segment.pieces] using scan_hole hclosed
    | escape text =>
      have hclosed : '\x7d' ∉ '!' :: text := by
        simpa using h.closedEscape text List.mem_cons_self
      simpa [Segment.text, Segment.pieces] using scan_hole hclosed

/-! ## What segments become -/

section Holes

variable {ctx : Context} {deeper : Json → Noted Json} {name : String} {levels : Nat}

/-- No pseudo parameter has a dot in its name. -/
theorem pseudoParameter?_eq_none (h : '.' ∈ name.toList) : pseudoParameter? ctx name = none := by
  unfold pseudoParameter?
  split <;> first | rfl | exact absurd h (by decide)

/-- A name without a dot becomes what it becomes as a reference. -/
theorem holeValue_of_not_dotted (h : '.' ∉ name.toList) :
    holeValue deeper ctx [] name = refText ctx name := by
  rw [holeValue, List.lookup_nil, Text.divide?_eq_none h]
  cases hknown : known? ctx name with
  | none => rfl
  | some value =>
    rw [refText, resolveRef, hknown, map_pure]

/-- A name with a dot that is not bound as a whole becomes an attribute of what stands in front of
the first dot. -/
theorem holeValue_of_dotted {id attr : String} (h : Text.divide? '.' name = some (id, attr))
    (hdot : '.' ∈ name.toList) (hunbound : ctx.resource? name = none) :
    holeValue deeper ctx [] name = attributeText ctx id attr := by
  have hknown : known? ctx name = none := by
    rw [known?, hunbound, pseudoParameter?_eq_none hdot]
  rw [holeValue, List.lookup_nil, hknown, h]

theorem resolveWithin_ref (ctx : Context) (levels : Nat) (id : String) :
    resolveWithin ctx (levels + 1) (.object [("Ref", .string id)]) = resolveRef ctx id := by
  have hkey : Intrinsic.ofKey? "Ref" = some .ref := by decide
  rw [resolveWithin_call hkey, resolveCall]

theorem resolveWithin_getAtt (ctx : Context) (levels : Nat) (id attr : String) :
    resolveWithin ctx (levels + 2)
        (.object [("Fn::GetAtt", .array [.string id, .string attr])]) =
      Json.string <$> attributeText ctx id attr := by
  have hkey : Intrinsic.ofKey? "Fn::GetAtt" = some .getAtt := by decide
  rw [resolveWithin_call hkey, resolveCall, resolveGetAtt, resolveWithin_string, pure_bind]
  rfl

/-- What a hole becomes is what its segment becomes as a call. -/
theorem holeValue_eq {raw : List Char} (hunbound : '.' ∈ Text.trim raw →
      ctx.resource? (String.ofList (Text.trim raw)) = none) :
    holeValue deeper ctx [] (String.ofList (Text.trim raw)) =
      Json.plainText <$> resolveWithin ctx (levels + 2) (Segment.token raw).part := by
  by_cases hdot : '.' ∈ Text.trim raw
  · have hdot' : '.' ∈ (String.ofList (Text.trim raw)).toList := by simpa using hdot
    obtain ⟨attr, hdivide⟩ := exists_divide? hdot'
    rw [holeValue_of_dotted hdivide hdot' (hunbound hdot), Segment.part, hdivide]
    dsimp only
    rw [resolveWithin_getAtt, ← comp_map]
    exact (id_map _).symm
  · have hdot' : '.' ∉ (String.ofList (Text.trim raw)).toList := by simpa using hdot
    rw [holeValue_of_not_dotted hdot', Segment.part, Text.divide?_eq_none hdot']
    dsimp only
    rw [resolveWithin_ref, refText]

end Holes

section Fill

variable {ctx : Context} {segments : List Segment} (deeper : Json → Noted Json) (levels : Nat)

/-- No token with a dot is bound as a whole. -/
def Unbound (ctx : Context) (segments : List Segment) : Prop :=
  ∀ raw, .token raw ∈ segments → '.' ∈ Text.trim raw →
    ctx.resource? (String.ofList (Text.trim raw)) = none

/-- A segment that is filled in becomes what it stands for. -/
theorem fill_segment {segment : Segment} (h : Separable segments) (hunbound : Unbound ctx segments)
    (hsegment : segment ∈ segments) (template : String) :
    (segment.pieces.flatMap fun p => (fillPiece deeper ctx [] template p).value) =
      (resolveWithin ctx (levels + 2) segment.part).value.plainText.toList ∧
    (segment.pieces.flatMap fun p => (fillPiece deeper ctx [] template p).warnings) =
      (resolveWithin ctx (levels + 2) segment.part).warnings := by
  cases segment with
  | literal text =>
    rw [Segment.part, resolveWithin_string]
    simp [Segment.pieces, List.flatMap_map, fillPiece]
  | token raw =>
    have hfill : fillPiece deeper ctx [] template (.hole raw) = String.toList <$> Json.plainText <$>
        resolveWithin ctx (levels + 2) (Segment.token raw).part := by
      rw [fillPiece, escaped?_eq_none (h.unescaped raw hsegment)]
      exact congrArg (String.toList <$> ·) (holeValue_eq (hunbound raw hsegment))
    simp [Segment.pieces, hfill, Noted.warnings_map]
  | escape text =>
    rw [Segment.part, resolveWithin_string]
    simp [Segment.pieces, fillPiece, escaped?]

/-- Filling in all segments gives the texts of what they stand for, one after another, and the same
warnings. -/
theorem fill_segments (h : Separable segments) (hunbound : Unbound ctx segments)
    (template : String) :
    ((segments.flatMap Segment.pieces).flatMap fun p =>
        (fillPiece deeper ctx [] template p).value) =
      (segments.map Segment.part).flatMap (fun v =>
        (resolveWithin ctx (levels + 2) v).value.plainText.toList) ∧
    ((segments.flatMap Segment.pieces).flatMap fun p =>
        (fillPiece deeper ctx [] template p).warnings) =
      (segments.map Segment.part).flatMap fun v => (resolveWithin ctx (levels + 2) v).warnings := by
  have hfill := fun segment (hsegment : segment ∈ segments) =>
    fill_segment deeper levels h hunbound hsegment template
  rw [List.flatMap_assoc, List.flatMap_assoc, List.flatMap_map, List.flatMap_map]
  exact ⟨List.flatMap_congr fun segment hsegment => (hfill segment hsegment).1,
    List.flatMap_congr fun segment hsegment => (hfill segment hsegment).2⟩

end Fill

/-- The call that fills in a template. -/
def subCall (template : List Char) : Json := .object [("Fn::Sub", .string (String.ofList template))]

/-- The call that joins values with nothing between them. -/
def joinCall (parts : List Json) : Json :=
  .object [("Fn::Join", .array [.string "", .array parts])]

section Calls

variable {ctx : Context} {levels : Nat}

theorem resolveWithin_subCall (template : List Char) :
    resolveWithin ctx (levels + 1) (subCall template) =
      fill (resolveWithin ctx (levels - 1)) ctx [] (String.ofList template) := by
  have hkey : Intrinsic.ofKey? "Fn::Sub" = some .sub := by decide
  rw [subCall, resolveWithin_call hkey, resolveCall, resolveSub]

theorem resolveWithin_joinCall (parts : List Json) :
    resolveWithin ctx (levels + 2) (joinCall parts) =
      (fun items : List Json => .string (String.ofList (items.flatMap fun v => v.plainText.toList)))
        <$> parts.mapM (resolveWithin ctx levels) := by
  have hkey : Intrinsic.ofKey? "Fn::Join" = some .join := by decide
  rw [joinCall, resolveWithin_call hkey, resolveCall, resolveJoin, resolveWithin_string, pure_bind,
    resolveWithin_array, bind_map_left, map_eq_pure_bind]
  refine congrArg _ (funext fun items => ?_)
  simp [Text.join, Text.joinWith_nil, List.flatMap_def, Function.comp_def]

theorem value_joinCall (parts : List Json) :
    (resolveWithin ctx (levels + 2) (joinCall parts)).value = .string (String.ofList
      (parts.flatMap fun v => (resolveWithin ctx levels v).value.plainText.toList)) := by
  rw [resolveWithin_joinCall, Noted.value_map, Noted.value_mapM, List.flatMap_map]

theorem warnings_joinCall (parts : List Json) :
    (resolveWithin ctx (levels + 2) (joinCall parts)).warnings =
      parts.flatMap fun v => (resolveWithin ctx levels v).warnings := by
  rw [resolveWithin_joinCall, Noted.warnings_map, Noted.warnings_mapM]

/-- A template that begins with segments becomes what they become when they are joined, and then
what its remaining pieces become. -/
theorem resolveWithin_written (levels : Nat) {segments : List Segment} (h : Separable segments)
    (hunbound : Unbound ctx segments) (rest : List Char) (hrest : rest.head? ≠ some '\x7b') :
    (resolveWithin ctx (levels + 4) (subCall (written segments ++ rest))).value = .string
      ((resolveWithin ctx (levels + 4) (joinCall (segments.map Segment.part))).value.plainText ++
        String.ofList ((scan rest).flatMap fun p => (fillPiece (resolveWithin ctx (levels + 2))
          ctx [] (String.ofList (written segments ++ rest)) p).value)) ∧
    (resolveWithin ctx (levels + 4) (subCall (written segments ++ rest))).warnings =
      (resolveWithin ctx (levels + 4) (joinCall (segments.map Segment.part))).warnings ++
        (scan rest).flatMap fun p => (fillPiece (resolveWithin ctx (levels + 2)) ctx []
          (String.ofList (written segments ++ rest)) p).warnings := by
  obtain ⟨hvalue, hwarnings⟩ := fill_segments (resolveWithin ctx (levels + 2)) levels h
    hunbound (String.ofList (written segments ++ rest))
  rw [resolveWithin_subCall, value_fill, warnings_fill, ← List.flatMap_def, value_joinCall,
    warnings_joinCall, String.toList_ofList, scan_written h hrest, List.flatMap_append,
    List.flatMap_append, Json.plainText_string, ← String.ofList_append, ← hvalue, ← hwarnings]
  exact ⟨rfl, rfl⟩

end Calls

/-- A template becomes what its segments become when they are joined with nothing between them: a
literal stands for itself, a name for a reference to it, a name with a dot for the attribute behind
the first dot, and an escape for what it is to look like.  The warnings are the same.  An opening
behind the segments that is never closed is kept with all that follows it. -/
theorem sub_eq_join (ctx : Context) {segments : List Segment} (h : Separable segments)
    (hunbound : Unbound ctx segments) :
    resolve ctx (subCall (written segments)) = resolve ctx (joinCall (segments.map Segment.part)) ∧
    ∀ tail, '\x7d' ∉ tail →
      (resolve ctx (subCall (written segments ++ '$' :: '\x7b' :: tail))).value =
        .string ((resolve ctx (joinCall (segments.map Segment.part))).value.plainText ++
          String.ofList ('$' :: '\x7b' :: tail)) ∧
      (resolve ctx (subCall (written segments ++ '$' :: '\x7b' :: tail))).warnings =
        (resolve ctx (joinCall (segments.map Segment.part))).warnings ++
          [.unterminatedHole (String.ofList (written segments ++ '$' :: '\x7b' :: tail))] := by
  constructor
  · obtain ⟨hvalue, hwarnings⟩ := resolveWithin_written 61 h hunbound [] (by simp)
    rw [List.append_nil] at hvalue hwarnings
    refine Noted.ext (hvalue.trans ?_) (hwarnings.trans ?_)
    · rw [scan, List.flatMap_nil, String.ofList_nil, String.append_empty, value_joinCall,
        Json.plainText_string]
      exact (value_joinCall _).symm
    · rw [scan, List.flatMap_nil, List.append_nil]
      rfl
  · intro tail htail
    obtain ⟨hvalue, hwarnings⟩ := resolveWithin_written 61 h hunbound
      ('$' :: '\x7b' :: tail) (by simp)
    rw [scan_unclosed htail, List.flatMap_singleton] at hvalue hwarnings
    exact ⟨hvalue, hwarnings⟩

/-- Two literals in a row, the first with a dollar sign at its end, a name with blanks around it, an
escape, and an attribute behind a name. -/
def arnOfTable : List Segment :=
  [.literal "price:".toList, .literal "$".toList, .token " Queue ".toList, .escape "Raw".toList,
    .literal "$".toList, .token "Table.Stream.Arn".toList]

/-- A queue is bound and nothing else. -/
def onlyQueue : Context := ({} : Context).bindResource "Queue" "queue"

/-- The bound name is found, the dollar signs in front of the holes stay, the attribute of the
unknown table gets a placeholder, and the open end is kept. -/
theorem arnOfTable_sub :
    Separable arnOfTable ∧
      resolve onlyQueue (subCall (written arnOfTable)) =
        resolve onlyQueue (joinCall (arnOfTable.map Segment.part)) ∧
      (resolve onlyQueue (subCall (written arnOfTable ++ "$\x7bopen".toList))).value =
        .string ("price:$queue$\x7bRaw\x7d$" ++
          "arn:ldk:unknown:local:000000000000:resource/Table.Stream.Arn$\x7bopen") := by
  have htokens : ∀ raw, .token raw ∈ arnOfTable →
      raw = " Queue ".toList ∨ raw = "Table.Stream.Arn".toList := by simp [arnOfTable]
  have hseparable : Separable arnOfTable :=
    { closed := by simp [arnOfTable]
      closedEscape := by simp [arnOfTable]
      unescaped := by
        intro raw hraw
        rcases htokens raw hraw with rfl | rfl <;> decide
      unopened := by
        have hall : ∀ later ∈ arnOfTable.tails, ¬ ['$', '\x7b'] <:+: leading later := by decide
        exact fun later hlater => hall later ((List.mem_tails _ _).2 hlater) }
  have hunbound : Unbound onlyQueue arnOfTable := by
    intro raw hraw
    rcases htokens raw hraw with rfl | rfl <;> decide
  obtain ⟨hjoin, hopen⟩ := sub_eq_join _ hseparable hunbound
  refine ⟨hseparable, hjoin, (hopen "open".toList (by decide)).1.trans (congrArg Json.string ?_)⟩
  decide +kernel

end Expression

end LocalCloud
