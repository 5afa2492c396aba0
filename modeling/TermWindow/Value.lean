import TermWindow.Decimal.Layout
import TermWindow.Text.Listing
import TermWindow.Text.Quoted

/-!
# Values

What a caller may hand over in the place of a distance, of a position or of a list of positions.
Most of these values are wrong there, and the messages about them show them.
-/

namespace TermWindow

/-- A value of a caller. -/
inductive Value where
  | missing
  | truth (b : Bool)
  | whole (n : Int)
  | real (x : Float)
  | text (s : String)
  | list (items : List Value)

namespace Value

open Text

mutual

def describe : Value → String
  | missing => absent
  | truth b => if b then "True" else "False"
  | whole n => toString n
  | real x => Decimal.display x
  | text s => quoted s
  | list items => bracketed (describeAll items)

def describeAll : List Value → List String
  | [] => []
  | item :: items => item.describe :: describeAll items

end

theorem describeAll_eq_map (items : List Value) : describeAll items = items.map describe := by
  induction items with
  | nil => rfl
  | cons item items ih => simp [describeAll, ih]

def isMissing : Value → Bool
  | missing => true
  | _ => false

theorem isMissing_iff (v : Value) : v.isMissing = true ↔ v = missing := by
  cases v <;> simp [isMissing]

def items? : Value → Option (List Value)
  | list items => some items
  | _ => none

/-- The elements that a value holds one after the other: the items of a list, the characters of a
text. -/
def elements? : Value → Option (List Value)
  | list items => some items
  | text s => some (s.toList.map fun c => text (String.ofList [c]))
  | _ => none

/-- The word for the kind of a value in messages. -/
def kindName : Value → String
  | missing => "NoneType"
  | truth _ => "bool"
  | whole _ => "int"
  | real _ => "float"
  | text _ => "str"
  | list _ => "list"

def ofInts (xs : List Int) : Value := list (xs.map whole)

end Value

end TermWindow
