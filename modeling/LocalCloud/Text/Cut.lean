/-!
# Cutting texts

Texts are lists of characters here, so that every function is a recursion on the list.  The
pieces of a cut, joined by what was cut away, are the text again (`eq_of_dropHead?`,
`eq_of_dropTail?`, `eq_of_cut?`); nothing else about these functions is needed to see that
`splitAll` and `replaceAll` end.
-/

namespace LocalCloud.Text

/-- The text behind `head`, if the text starts with it. -/
def dropHead? : List Char → List Char → Option (List Char)
  | [], text => some text
  | _ :: _, [] => none
  | h :: head, c :: text => if h = c then dropHead? head text else none

theorem eq_of_dropHead? {head text rest : List Char} (h : dropHead? head text = some rest) :
    text = head ++ rest := by
  fun_induction dropHead? head text with
  | case1 text => simpa using h
  | case2 => simp at h
  | case3 head c text ih => simp [ih h]
  | case4 => simp at h

/-- The text before `tail`, if the text ends with it. -/
def dropTail? (tail text : List Char) : Option (List Char) :=
  (dropHead? tail.reverse text.reverse).map List.reverse

theorem eq_of_dropTail? {tail text rest : List Char} (h : dropTail? tail text = some rest) :
    text = rest ++ tail := by
  obtain ⟨r, hr, rfl⟩ := Option.map_eq_some_iff.1 h
  have := congrArg List.reverse (eq_of_dropHead? hr)
  simpa using this

/-- The text before and behind the first place where `mark` stands. -/
def cut? (mark : List Char) : List Char → Option (List Char × List Char)
  | [] => if mark = [] then some ([], []) else none
  | c :: text =>
    match dropHead? mark (c :: text) with
    | some rest => some ([], rest)
    | none => (cut? mark text).map fun (before, rest) => (c :: before, rest)

theorem eq_of_cut? {mark text before rest : List Char} (h : cut? mark text = some (before, rest)) :
    text = before ++ mark ++ rest := by
  induction text generalizing before with
  | nil =>
    by_cases hm : mark = [] <;> simp [cut?, hm] at h
    simp [h, hm]
  | cons c text ih =>
    rw [cut?] at h
    split at h
    · next r hr =>
      simp only [Option.some.injEq, Prod.mk.injEq] at h
      simpa [← h.1, ← h.2] using eq_of_dropHead? hr
    · obtain ⟨⟨b, r⟩, hb, heq⟩ := Option.map_eq_some_iff.1 h
      simp only [Prod.mk.injEq] at heq
      obtain ⟨rfl, rfl⟩ := heq
      simp [ih hb]

theorem length_lt_of_cut? {mark text before rest : List Char} (hm : mark ≠ [])
    (h : cut? mark text = some (before, rest)) : rest.length < text.length := by
  have hlen := congrArg List.length (eq_of_cut? h)
  have hpos := List.length_pos_iff.2 hm
  simp only [List.length_append] at hlen
  omega

/-- The text before and behind the first `mark` character. -/
def cutAtChar? (mark : Char) (text : List Char) : Option (List Char × List Char) :=
  cut? [mark] text

/-- The pieces between the marks, from left to right; marks do not overlap.  An empty mark
divides nothing. -/
def splitAll (mark text : List Char) : List (List Char) :=
  if hm : mark = [] then [text]
  else
    match h : cut? mark text with
    | none => [text]
    | some (before, rest) =>
      have : rest.length < text.length := length_lt_of_cut? hm h
      before :: splitAll mark rest
termination_by text.length

/-- The text with every mark replaced, from left to right; what is put in is not looked at
again.  An empty mark stands nowhere. -/
def replaceAll (mark value text : List Char) : List Char :=
  if hm : mark = [] then text
  else
    match h : cut? mark text with
    | none => text
    | some (before, rest) =>
      have : rest.length < text.length := length_lt_of_cut? hm h
      before ++ value ++ replaceAll mark value rest
termination_by text.length

/-- The pieces with `mark` between each two. -/
def joinWith (mark : List Char) : List (List Char) → List Char
  | [] => []
  | [piece] => piece
  | piece :: pieces => piece ++ mark ++ joinWith mark pieces

end LocalCloud.Text

namespace LocalCloud

/-- Whether `text` starts with `head`. -/
def Text.startsWith (head text : String) : Bool :=
  (Text.dropHead? head.toList text.toList).isSome

/-- Whether `text` ends with `tail`. -/
def Text.endsWith (tail text : String) : Bool :=
  (Text.dropTail? tail.toList text.toList).isSome

/-- The text behind `head`, if `text` starts with it. -/
def Text.behind? (head text : String) : Option String :=
  (Text.dropHead? head.toList text.toList).map String.ofList

/-- The text before `tail`, if `text` ends with it. -/
def Text.before? (tail text : String) : Option String :=
  (Text.dropTail? tail.toList text.toList).map String.ofList

/-- The texts before and behind the first `mark`. -/
def Text.divide? (mark : Char) (text : String) : Option (String × String) :=
  (Text.cutAtChar? mark text.toList).map fun (before, rest) =>
    (String.ofList before, String.ofList rest)

/-- The text up to the first `mark`, all of it if there is none. -/
def Text.upTo (mark : Char) (text : String) : String :=
  String.ofList (text.toList.takeWhile (· != mark))

/-- The text behind the last `mark`, all of it if there is none. -/
def Text.afterLast (mark : Char) (text : String) : String :=
  String.ofList (text.toList.reverse.takeWhile (· != mark)).reverse

/-- The texts with `mark` between each two. -/
def Text.join (mark : String) (texts : List String) : String :=
  String.ofList (Text.joinWith mark.toList (texts.map String.toList))

/-- The text with its ASCII letters in lower case. -/
def Text.lower (text : String) : String := String.ofList (text.toList.map Char.toLower)

/-- The text with its ASCII letters in upper case. -/
def Text.upper (text : String) : String := String.ofList (text.toList.map Char.toUpper)

end LocalCloud
