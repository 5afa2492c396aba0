import TermWindow.Decimal.Shortest

/-!
# Displayed doubles

A double is displayed by its shortest decimal: with a point, and with at least one digit after
it, from `0.0001` up to below `10 ^ 16`, and otherwise as a power of ten with a signed exponent of
at least two digits.
-/

namespace TermWindow.Decimal

def Digits.positional (d : Digits) : List Char :=
  if d.point ≤ 0 then
    '0' :: '.' :: (List.replicate (-d.point).toNat '0' ++ d.digits)
  else
    let count := d.point.toNat
    let whole := d.digits.take count
    let fraction := d.digits.drop count
    whole.rightpad count '0' ++ '.' :: (if fraction.isEmpty then ['0'] else fraction)

/-- The first digit, the others after a point, and the exponent. -/
def Digits.scientific (d : Digits) : List Char :=
  let exponent := d.point - 1
  let fraction := d.digits.drop 1
  d.digits.take 1 ++ (if fraction.isEmpty then [] else '.' :: fraction) ++
    'e' :: (if exponent < 0 then '-' else '+') ::
      (Nat.toDigits 10 exponent.natAbs).leftpad 2 '0'

def Digits.display (d : Digits) : List Char :=
  if -4 ≤ d.point - 1 ∧ d.point - 1 < 16 then d.positional else d.scientific

/-- The number of mantissas with the same exponent: the double has 52 bits for them. -/
def mantissas : Nat := 0x10000000000000

/-- The number of exponents: the double has 11 bits for them, between the sign and the mantissa. -/
def exponents : Nat := 0x800

def display (x : Float) : String :=
  let bits := x.toBits.toNat
  let biased := bits / mantissas % exponents
  let fraction := bits % mantissas
  let sign := if bits < exponents * mantissas then "" else "-"
  if biased + 1 = exponents then
    if fraction = 0 then sign ++ "inf" else "nan"
  else if biased = 0 && fraction = 0 then sign ++ "0.0"
  else if biased = 0 then
    sign ++ String.ofList (shortest fraction (-1074) false).display
  else
    let narrow := fraction = 0 && 1 < biased
    sign ++ String.ofList (shortest (mantissas + fraction) (Int.ofNat biased - 1075) narrow).display

end TermWindow.Decimal
