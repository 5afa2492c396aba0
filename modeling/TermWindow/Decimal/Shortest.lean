/-!
# The shortest decimal of a double

Many decimals round to one and the same double. Its shortest decimal is the one of them with the
fewest digits, and of several with equally few the one closest to the double, an even last digit
deciding between two that are equally close. All comparisons are exact, over natural numbers.
-/

namespace TermWindow.Decimal

/-! ### The reals that round to a double -/

/-- A positive double `middle / unit` with the interval of the reals that round to it. The ends
belong to the interval when the mantissa of the double is even. -/
structure Rounding where
  low : Nat
  middle : Nat
  high : Nat
  unit : Nat
  closed : Bool

/-- The interval around `mantissa * 2 ^ exponent`. Below a power of two the next double is nearer
than above it, and `narrow` says so. -/
def Rounding.around (mantissa : Nat) (exponent : Int) (narrow : Bool) : Rounding :=
  let scale := Nat.pow 2 (exponent - 2).toNat
  { low := (4 * mantissa - if narrow then 1 else 2) * scale
    middle := 4 * mantissa * scale
    high := (4 * mantissa + 2) * scale
    unit := Nat.pow 2 (2 - exponent).toNat
    closed := mantissa % 2 = 0 }

def Rounding.holds (r : Rounding) (count : Nat) (place : Int) : Bool :=
  let point := count * (r.unit * Nat.pow 10 place.toNat)
  let low := r.low * Nat.pow 10 (-place).toNat
  let high := r.high * Nat.pow 10 (-place).toNat
  if r.closed then low ≤ point && point ≤ high else low < point && point < high

/-- The multiple of `10 ^ place` that lies in the interval and is closest to its middle: one of the
two neighbours of the middle. -/
def Rounding.multiple? (r : Rounding) (place : Int) : Option Nat :=
  let step := r.unit * Nat.pow 10 place.toNat
  let middle := r.middle * Nat.pow 10 (-place).toNat
  let below := middle / step
  let halfway := (2 * below + 1) * step
  match r.holds below place, r.holds (below + 1) place with
  | true, true =>
    if 2 * middle < halfway ∨ (2 * middle = halfway ∧ below % 2 = 0) then some below
    else some (below + 1)
  | true, false => some below
  | false, true => some (below + 1)
  | false, false => none

/-- The place of the first digit of the middle: the greatest `e` for which it is at least
`10 ^ e`. -/
def Rounding.leadingPlace (r : Rounding) : Int :=
  if r.unit ≤ r.middle then ((Nat.toDigits 10 (r.middle / r.unit)).length : Int) - 1
  else -((Nat.toDigits 10 ((r.unit - 1) / r.middle)).length : Int)

/-! ### Digits and point -/

/-- The number `0.d₁d₂… * 10 ^ point` for the digits `d₁`, `d₂`, …. -/
structure Digits where
  digits : List Char
  point : Int

/-- The digits of `count * 10 ^ place`, without zeros at the end. -/
def Digits.ofMultiple (count : Nat) (place : Int) : Digits :=
  let digits := Nat.toDigits 10 count
  ⟨(digits.reverse.dropWhile (· = '0')).reverse, digits.length + place⟩

/-- The shortest decimal of `mantissa * 2 ^ exponent`. Seventeen digits are always enough. -/
def shortest (mantissa : Nat) (exponent : Int) (narrow : Bool) : Digits :=
  let r := Rounding.around mantissa exponent narrow
  let found := (List.range 17).findSome? fun more : Nat =>
    let place := r.leadingPlace - (more : Int)
    (r.multiple? place).map (Digits.ofMultiple · place)
  let exact := mantissa * Nat.pow 2 exponent.toNat * Nat.pow 5 (-exponent).toNat
  found.getD (Digits.ofMultiple exact (min exponent 0))

end TermWindow.Decimal
