import LocalCloud.Text.Blank
import LocalCloud.Text.Cut

/-!
# Texts with holes

A substitution template is a text with holes `${name}`.  `scan` cuts it into letters and
holes; both the substitution and the search for referenced names work on these pieces, each with
its own reading of what stands in a hole.  The pieces written one after another are the text
again (`text_scan`).
-/

namespace LocalCloud.Expression

/-- A piece of a substitution template. -/
inductive Piece where
  /-- A character that stands for itself. -/
  | letter (c : Char)
  /-- What stands between `${` and the next closing brace. -/
  | hole (raw : List Char)
  /-- The rest of the text from an opening without a closing brace on. -/
  | unclosed (rest : List Char)
  deriving DecidableEq

/-- The text of a piece. -/
def Piece.text : Piece → List Char
  | .letter c => [c]
  | .hole raw => '$' :: '\x7b' :: raw ++ ['\x7d']
  | .unclosed rest => '$' :: '\x7b' :: rest

/-- The pieces of a template, from left to right. -/
def scan : List Char → List Piece
  | [] => []
  | '$' :: '\x7b' :: rest =>
    match h : Text.cutAtChar? '\x7d' rest with
    | none => [.unclosed rest]
    | some (raw, after) =>
      have : after.length < rest.length := Text.length_lt_of_cut? (by simp) h
      .hole raw :: scan after
  | c :: rest => .letter c :: scan rest
termination_by text => text.length

/-- Scanning loses nothing. -/
theorem text_scan (text : List Char) : (scan text).flatMap Piece.text = text := by
  fun_induction scan text with
  | case1 => rfl
  | case2 rest h => simp [Piece.text]
  | case3 rest raw after h hlt ih =>
    have := Text.eq_of_cut? h
    simp [Piece.text, ih, this]
  | case4 c rest h ih => simp [Piece.text, ih]

/-- The text that an escaped hole stands for: `${!name}` is the text `${name}`. -/
def escaped? : List Char → Option (List Char)
  | '!' :: rest => some ('$' :: '\x7b' :: rest ++ ['\x7d'])
  | _ => none

/-- The names that the holes of a template refer to; a hole whose name starts with `!` refers to
nothing. -/
def holeNames (template : String) : List String :=
  (scan template.toList).filterMap fun
    | .hole raw =>
      match Text.trim raw with
      | '!' :: _ => none
      | name => some (String.ofList name)
    | _ => none

end LocalCloud.Expression
