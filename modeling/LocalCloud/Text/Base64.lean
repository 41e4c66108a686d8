/-!
# Base 64

The standard alphabet with padding: three bytes become four letters, and a last group of one or
two bytes is filled up with zero bits and `=`.
-/

namespace LocalCloud.Text

/-- The 64 letters in order. -/
def base64Alphabet : List Char :=
  "ABCDEFGHIJKLMNOPQRSTUVWXYZabcdefghijklmnopqrstuvwxyz0123456789+/".toList

/-- The letter that writes the six lowest bits of a number. -/
def base64Letter (n : Nat) : Char := base64Alphabet.getD (n % 64) 'A'

/-- The letters of a byte sequence. -/
def encodeBase64 : List UInt8 → List Char
  | a :: b :: c :: rest =>
    let n := a.toNat * 65536 + b.toNat * 256 + c.toNat
    base64Letter (n / 262144) :: base64Letter (n / 4096) :: base64Letter (n / 64) ::
      base64Letter n :: encodeBase64 rest
  | [a, b] =>
    let n := a.toNat * 65536 + b.toNat * 256
    [base64Letter (n / 262144), base64Letter (n / 4096), base64Letter (n / 64), '=']
  | [a] =>
    let n := a.toNat * 65536
    [base64Letter (n / 262144), base64Letter (n / 4096), '=', '=']
  | [] => []

/-- The base 64 form of the UTF-8 bytes of a text. -/
def base64OfText (text : String) : String :=
  String.ofList (encodeBase64 text.toUTF8.toList)

/-- The number that a letter writes. -/
def base64Value? (c : Char) : Option Nat :=
  base64Alphabet.findIdx? (· == c)

/-- The bytes of a padded base 64 text. -/
def decodeBase64? : List Char → Option (List UInt8)
  | [] => some []
  | [a, b, '=', '='] => do
    let n := (← base64Value? a) * 64 + (← base64Value? b)
    some [(n / 16).toUInt8]
  | [a, b, c, '='] => do
    let n := ((← base64Value? a) * 64 + (← base64Value? b)) * 64 + (← base64Value? c)
    some [(n / 1024).toUInt8, (n / 4).toUInt8]
  | a :: b :: c :: d :: rest => do
    let n := (((← base64Value? a) * 64 + (← base64Value? b)) * 64 + (← base64Value? c)) * 64 +
      (← base64Value? d)
    let bytes ← decodeBase64? rest
    some ((n / 65536).toUInt8 :: (n / 256).toUInt8 :: n.toUInt8 :: bytes)
  | _ => none

end LocalCloud.Text
