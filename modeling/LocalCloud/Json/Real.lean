import LocalCloud.Json.Shortest

/-!
# Real numbers in JSON texts

Writing takes the shortest decimal of the double; `RealFormat` says how it is laid out.  Reading
keeps as many digits as fit 64 bits and scales them by a power of ten, rounding once for each
multiplication or division; a number too large for a double cannot be read.
-/

namespace LocalCloud.Json

/-- The layout of a real number: the exponents of the first digit for which the number is written
without an exponent part. -/
structure RealFormat where
  /-- The least such exponent. -/
  lowest : Int
  /-- The first exponent above them. -/
  bound : Int

/-- Numbers from `0.00001` up to sixteen digits before the point are written in full, all others
with an exponent that has a sign in any case. -/
def realFormat : RealFormat := ⟨-5, 16⟩

/-- A decimal in the given layout. -/
def RealFormat.layout (f : RealFormat) (d : Decimal) : List Char :=
  let digits := Nat.toDigits 10 d.digits
  let exponent := d.exponent + digits.length - 1
  if f.lowest ≤ exponent ∧ exponent < f.bound then
    if exponent < 0 then
      ['0', '.'] ++ List.replicate (-exponent - 1).toNat '0' ++ digits
    else
      let places := exponent.toNat + 1
      if places < digits.length then digits.take places ++ '.' :: digits.drop places
      else digits ++ List.replicate (places - digits.length) '0' ++ ['.', '0']
  else
    let sign := if exponent < 0 then '-' else '+'
    let fraction := match digits.drop 1 with
      | [] => []
      | rest => '.' :: rest
    digits.take 1 ++ fraction ++ 'e' :: sign :: Nat.toDigits 10 exponent.natAbs

/-- The text of a finite double. -/
def writeReal (x : Float) : String :=
  let bits := x.toBits.toNat
  let sign := if bits < Nat.pow 2 63 then [] else ['-']
  let magnitude := bits % Nat.pow 2 63
  let body :=
    if magnitude = 0 then ['0', '.', '0']
    else realFormat.layout (RoundingSpan.ofBits magnitude).shortest
  String.ofList (sign ++ body)

/-- Digits read so far: `significand * 10 ^ exponent`, the significand below `2 ^ 64`. -/
structure Significand where
  significand : Nat
  exponent : Int
  /-- Whether a digit has been left out already. -/
  full : Bool := false

/-- One more digit before the point; a digit that no longer fits counts as a zero. -/
def Significand.pushWhole (s : Significand) (digit : Nat) : Significand :=
  let next := s.significand * 10 + digit
  if !s.full && next < Nat.pow 2 64 then { s with significand := next }
  else { s with exponent := s.exponent + 1, full := true }

/-- One more digit behind the point; the digits from the first one that no longer fits are
ignored. -/
def Significand.pushFraction (s : Significand) (digit : Nat) : Significand :=
  let next := s.significand * 10 + digit
  if !s.full && next < Nat.pow 2 64 then
    { s with significand := next, exponent := s.exponent - 1 }
  else { s with full := true }

/-- The powers of ten that a double holds. -/
def tenToThe (n : Nat) : Float := Float.ofScientific 1 false n

/-- A double times a power of ten, `none` when it is too large. -/
def scaleByTen (x : Float) (exponent : Int) : Option Float :=
  if x == 0.0 then some x
  else if exponent < -308 then scaleByTen (x / tenToThe 308) (exponent + 308)
  else if exponent < 0 then some (x / tenToThe exponent.natAbs)
  else if 308 < exponent then none
  else
    let y := x * tenToThe exponent.natAbs
    if y.isInf then none else some y
termination_by exponent.natAbs
decreasing_by omega

/-- The double that the digits stand for. -/
def Significand.value? (s : Significand) : Option Float :=
  scaleByTen s.significand.toUInt64.toFloat s.exponent

end LocalCloud.Json
