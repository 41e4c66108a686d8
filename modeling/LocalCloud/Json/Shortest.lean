/-!
# The shortest decimal that reads back

A positive double is a mantissa times a power of two, and the reals that round to it form an
interval around it.  The shortest decimal of the double is the one with the fewest digits inside
that interval and, of those, the one nearest to the double.  All of this is arithmetic on natural
numbers: the interval and the decimal grid are brought to a common denominator.

If some point of a decimal grid lies in the interval, so does one of the two grid points next to
the double itself; hence looking at those two is enough for each number of digits.
-/

namespace LocalCloud.Json

/-- The reals that round to a double, over the common denominator `unit`. -/
structure RoundingSpan where
  low : Nat
  centre : Nat
  high : Nat
  unit : Nat
  /-- Whether the two ends belong to the interval. -/
  closed : Bool

/-- A decimal: `digits * 10 ^ exponent`. -/
structure Decimal where
  digits : Nat
  exponent : Int
  deriving DecidableEq, Inhabited

/-- The interval of a finite double with the given bits, the sign left out.  Below a power of two
the neighbouring double is only half as far away as above it. -/
def RoundingSpan.ofBits (bits : Nat) : RoundingSpan :=
  let fraction : Nat := bits % Nat.pow 2 52
  let field : Nat := bits / Nat.pow 2 52 % 2048
  let mantissa := if field = 0 then fraction else Nat.pow 2 52 + fraction
  let binaryExponent : Int := (if field = 0 then -1074 else (field : Int) - 1075) - 2
  let up := Nat.pow 2 binaryExponent.toNat
  let down := Nat.pow 2 (-binaryExponent).toNat
  let below := if fraction = 0 ∧ 1 < field then 1 else 2
  { low := (4 * mantissa - below) * up
    centre := 4 * mantissa * up
    high := (4 * mantissa + 2) * up
    unit := down
    closed := mantissa % 2 = 0 }

/-- The interval measured in steps of `10 ^ exponent`. -/
def RoundingSpan.inSteps (s : RoundingSpan) (exponent : Int) : RoundingSpan :=
  let factor := Nat.pow 10 (-exponent).toNat
  { s with
    low := s.low * factor
    centre := s.centre * factor
    high := s.high * factor
    unit := s.unit * Nat.pow 10 exponent.toNat }

/-- Whether the interval holds the whole number `n`. -/
def RoundingSpan.holds (s : RoundingSpan) (n : Nat) : Bool :=
  let x := n * s.unit
  if s.closed then s.low ≤ x ∧ x ≤ s.high else s.low < x ∧ x < s.high

/-- The whole number next to the centre that the interval holds: of two the nearer one, of two
equally near ones the even one. -/
def RoundingSpan.nearest? (s : RoundingSpan) : Option Nat :=
  let below := s.centre / s.unit
  let above := below + 1
  match s.holds below, s.holds above with
  | true, true =>
    let down := s.centre - below * s.unit
    let up := above * s.unit - s.centre
    if down < up ∨ (down = up ∧ below % 2 = 0) then some below else some above
  | true, false => some below
  | false, true => some above
  | false, false => none

/-- The least `j` from `from` on, within `fuel` steps, with `unit ≤ centre * 10 ^ j`. -/
def leadingPlace (centre unit : Nat) : (fuel : Nat) → Nat → Nat
  | 0, j => j
  | fuel + 1, j => if unit ≤ centre * Nat.pow 10 j then j else leadingPlace centre unit fuel (j + 1)

/-- The exponent of the first digit of the centre. -/
def RoundingSpan.leadingExponent (s : RoundingSpan) : Int :=
  if s.unit ≤ s.centre then ((Nat.toDigits 10 (s.centre / s.unit)).length : Int) - 1
  else -(leadingPlace s.centre s.unit 400 1 : Int)

/-- The decimal without zeros at its end. -/
def Decimal.trimmed (d : Decimal) : Decimal :=
  let text := (Nat.toDigits 10 d.digits).reverse
  let zeros := (text.takeWhile (· == '0')).length
  { digits := d.digits / Nat.pow 10 zeros, exponent := d.exponent + zeros }

/-- The shortest decimal in an interval.  Seventeen digits always suffice for a double. -/
def RoundingSpan.shortest (s : RoundingSpan) : Decimal :=
  let top := s.leadingExponent
  let found := (List.range 17).findSome? fun (more : Nat) =>
    let exponent := top - (more : Int)
    (s.inSteps exponent).nearest?.map fun digits => Decimal.mk digits exponent
  (found.getD ⟨0, 0⟩).trimmed

end LocalCloud.Json
