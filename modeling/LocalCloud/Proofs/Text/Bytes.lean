import LocalCloud.Ascending
import Mathlib.Data.String.Basic
import Mathlib.Tactic.SplitIfs

/-!
# Texts as bytes

A text is known by its bytes (`bytes_injective`), and a zero byte stands in them only where the text
has the zero character (`zero_notMem_bytes`).

The order of texts is that of their characters, one after another.  It is also that of the bytes in
which they are written (`lt_iff_bytes_lt`): of two characters the smaller one has the smaller bytes,
whatever follows them.
-/

namespace LocalCloud.Text

/-- The bytes in which a text is written. -/
def bytes (text : String) : List UInt8 := text.toUTF8.data.toList

theorem bytes_eq (text : String) : bytes text = text.toList.flatMap String.utf8EncodeChar := by
  have hencode : text.toUTF8 = text.toList.utf8Encode := String.utf8Encode_toList.symm
  rw [bytes, hencode, List.utf8Encode, List.data_toByteArray]

theorem bytes_injective : Function.Injective bytes := fun _ _ h =>
  String.toByteArray_inj.1 (ByteArray.ext (Array.toList_inj.1 h))

theorem val_lt (c : Char) : c.val.toNat < 2 ^ 21 := by
  have hvalid := c.valid
  simp only [UInt32.isValidChar, Nat.isValidChar] at hvalid
  omega

/-- Only the zero character has a zero byte. -/
theorem zero_notMem_encode {c : Char} (h : c ≠ '\x00') : 0 ∉ String.utf8EncodeChar c := by
  have hpos : c.val.toNat ≠ 0 := fun hzero => h (Char.ext (UInt32.toNat_inj.1 hzero))
  have hbound := val_lt c
  simp only [String.utf8EncodeChar]
  generalize c.val.toNat = v at hpos hbound ⊢
  split_ifs <;>
    simp only [List.mem_cons, List.not_mem_nil, or_false, ← UInt8.toNat_inj,
      UInt8.toNat_ofNat', UInt8.toNat_zero] <;>
    omega

/-- A text without the zero character has no zero byte. -/
theorem zero_notMem_bytes {text : String} (h : '\x00' ∉ text.toList) : 0 ∉ bytes text := by
  rw [bytes_eq, List.mem_flatMap]
  rintro ⟨c, hc, hzero⟩
  exact zero_notMem_encode (fun heq => h (heq ▸ hc)) hzero

theorem digit_lt {v w : Nat} (h : v < w) :
    v / 64 < w / 64 ∨ v / 64 = w / 64 ∧ v % 64 < w % 64 := by omega

/-- A smaller character has smaller bytes, whatever follows them. -/
theorem encode_append_lt {c d : Char} (h : c < d) (after behind : List UInt8) :
    String.utf8EncodeChar c ++ after < String.utf8EncodeChar d ++ behind := by
  have hlt : c.val.toNat < d.val.toNat := h
  have hbound := val_lt d
  simp only [String.utf8EncodeChar]
  generalize c.val.toNat = v at hlt ⊢
  generalize d.val.toNat = w at hlt hbound ⊢
  have hlow := digit_lt hlt
  have hmiddle : v / 64 < w / 64 → _ := digit_lt
  have hhigh : v / 64 / 64 < w / 64 / 64 → _ := digit_lt
  simp only [Nat.div_div_eq_div_mul, Nat.reduceMul] at hmiddle hhigh
  -- the number of bytes grows with the character, and with it the first byte
  split_ifs <;>
    simp only [List.cons_append, List.nil_append, List.cons_lt_cons_iff, UInt8.lt_iff_toNat_lt,
      ← UInt8.toNat_inj, UInt8.toNat_ofNat'] <;>
    simp (disch := omega) only [Nat.mod_eq_of_lt] <;>
    omega

theorem flatMap_encode_lt {cs ds : List Char} (h : cs < ds) :
    cs.flatMap String.utf8EncodeChar < ds.flatMap String.utf8EncodeChar := by
  induction cs generalizing ds with
  | nil =>
    cases ds with
    | nil => exact absurd h (List.not_lt_nil [])
    | cons d ds =>
      have hne : String.utf8EncodeChar d ≠ [] := String.utf8EncodeChar_ne_nil
      obtain ⟨byte, bytes, hbytes⟩ := List.exists_cons_of_ne_nil hne
      rw [List.flatMap_nil, List.flatMap_cons, hbytes]
      exact List.nil_lt_cons _ _
  | cons c cs ih =>
    cases ds with
    | nil => exact absurd h (List.not_lt_nil _)
    | cons d ds =>
      rw [List.flatMap_cons, List.flatMap_cons]
      rcases List.cons_lt_cons_iff.1 h with hcd | ⟨rfl, hrest⟩
      · exact encode_append_lt hcd _ _
      · exact List.append_left_lt (ih hrest)

theorem bytes_lt {a b : String} (h : a < b) : bytes a < bytes b := by
  rw [bytes_eq, bytes_eq]
  exact flatMap_encode_lt (String.lt_iff.1 h)

/-- The order of texts is that of their bytes. -/
theorem lt_iff_bytes_lt {a b : String} : a < b ↔ bytes a < bytes b := by
  refine ⟨bytes_lt, fun h => ?_⟩
  rcases lt_trichotomy a b with hlt | rfl | hgt
  · exact hlt
  · exact absurd h (List.lt_irrefl _)
  · exact absurd (bytes_lt hgt) (List.lt_asymm h)

end LocalCloud.Text
