import TermWindow.Text.Blank
import TermWindow.Text.DecimalDigit

/-!
# Doubles from their text

A double is written with an optional sign as `nan`, as `inf` or `infinity`, or as decimal digits
with an optional point and an optional exponent. The digits may be those of any script, single
underscores may stand between them, and blanks may surround the whole. The decimal is rounded to
the nearest double, an exact half to the even mantissa.
-/

namespace TermWindow.Decimal

open Text

/-! ### Plain digits -/

def plainDigits (cs : List Char) : List Char :=
  cs.map fun c => match digitValue? c with
    | some v => Nat.digitChar v
    | none => c

/-- The text without its underscores, each of which has to stand between two ASCII digits. `digit`
says whether a digit was read last. -/
def joined? (digit : Bool) : List Char → Option (List Char)
  | [] => some []
  | c :: rest =>
    if c = '_' then
      match rest with
      | [] => none
      | d :: rest => if digit && d.isDigit then (joined? true rest).map (d :: ·) else none
    else (joined? c.isDigit rest).map (c :: ·)

def splitSign : List Char → Bool × List Char
  | '-' :: rest => (true, rest)
  | '+' :: rest => (false, rest)
  | cs => (false, cs)

/-! ### The nearest double -/

/-- The double nearest to the number with the given digits and a power of ten as its unit. Zeros in
front do not count, and beyond the range of the doubles the size of the exponent no longer
matters. -/
def nearest (digits : List Char) (exponent : Int) : Float :=
  let significant := digits.dropWhile (· = '0')
  let place : Int := exponent + significant.length
  if significant.isEmpty || place < -400 then 0
  else if 400 < place then Float.ofScientific 1 false 400
  else Float.ofScientific (digitsValue significant) (exponent < 0) exponent.natAbs

/-- The exponent written after the digits; a text without one has the exponent zero. -/
def exponent? : List Char → Option Int
  | [] => some 0
  | mark :: rest =>
    let (negative, digits) := splitSign rest
    if mark.toLower = 'e' && !digits.isEmpty && digits.all Char.isDigit then
      some (if negative then -(digitsValue digits : Int) else digitsValue digits)
    else none

/-- The double written by digits with an optional point and exponent. -/
def unsigned? (cs : List Char) : Option Float :=
  let whole := cs.takeWhile Char.isDigit
  let afterWhole := cs.dropWhile Char.isDigit
  let (fraction, tail) := match afterWhole with
    | '.' :: rest => (rest.takeWhile Char.isDigit, rest.dropWhile Char.isDigit)
    | _ => ([], afterWhole)
  let digits := whole ++ fraction
  if digits.isEmpty then none
  else (exponent? tail).map fun exponent => nearest digits (exponent - fraction.length)

/-! ### Reading -/

def signed? (cs : List Char) : Option Float :=
  let (negative, rest) := splitSign cs
  let word := String.ofList (rest.map Char.toLower)
  let size :=
    if word = "nan" then some (0.0 / 0.0)
    else if word = "inf" || word = "infinity" then some (1.0 / 0.0)
    else unsigned? rest
  size.map fun x => if negative then -x else x

def ofText? (s : String) : Option Float := do
  signed? (← joined? false (plainDigits (trimEnd (dropBlanks s.toList))))

end TermWindow.Decimal
