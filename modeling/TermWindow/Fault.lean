import TermWindow.Value

/-!
# Faults

The reasons for which positions, distances, requests and queries are refused, the message about each
of them and the kind under which it is reported.
-/

namespace TermWindow

open Text

/-- A reason for a refusal. -/
inductive Fault where
  /-- Positions are given by a value that holds no elements. -/
  | notSequence (value : Value)
  /-- Lists among the positions differ in length or stand beside other values, below the given
  dimensions. -/
  | ragged (dims : List Nat)
  /-- Lists among the positions are nested beyond the greatest number of dimensions. -/
  | tooDeep (limit : Nat)
  /-- The positions have more than one dimension. -/
  | nested (dims : List Nat)
  /-- The positions are of a kind without whole numbers. -/
  | notWhole (kind : String)
  /-- The least position is negative. -/
  | negativePosition (least : Int)
  /-- A reader is to hold less than one position. -/
  | multiplicityTooSmall (multiplicity : Int)
  /-- A distance is no whole number. -/
  | distanceNotWhole (value : Value)
  /-- A distance is negative. -/
  | distanceNegative (distance : Int)
  /-- There are more lists of positions than terms. -/
  | surplusLists (terms lists : Nat)
  /-- A matcher has no terms. -/
  | noTerms
  /-- The text is not of the form of a query. -/
  | notQuery (text : String)
  /-- The arguments cannot be divided at their commas. -/
  | unreadableArguments (arguments : String)
  /-- Quote marks stand elsewhere than around a whole argument. -/
  | malformedArgument (argument : String)
  /-- The arguments of a query hold no distance in its place. -/
  | distanceExpected (text : String)
  /-- A distance has more digits than are read. -/
  | tooManyDigits (limit count : Nat)
  /-- An argument in the place of a term is not quoted. -/
  | quotedExpected (argument : String)
  /-- A query has no terms. -/
  | termsExpected (text : String)

def Fault.message : Fault → String
  | notSequence value => s!"'{value.kindName}' object is not iterable"
  | ragged dims =>
    "setting an array element with a sequence. The requested array has an inhomogeneous shape " ++
      s!"after {dims.length} dimensions. The detected shape was " ++
      parenthesized (dims.map toString) ++ " + inhomogeneous part."
  | tooDeep limit =>
    "setting an array element with a sequence. The requested array would exceed the maximum " ++
      s!"number of dimension of {limit}."
  | nested dims =>
    s!"Offsets must be one-dimensional, got shape {parenthesized (dims.map toString)}."
  | notWhole kind => s!"Offsets must be integers, got dtype {kind}."
  | negativePosition least => s!"Offsets must be non-negative, got {least}."
  | multiplicityTooSmall multiplicity => s!"multiplicity must be >= 1, got {multiplicity}."
  | distanceNotWhole value => s!"distance must be an integer, got {value.describe}."
  | distanceNegative distance => s!"distance must be non-negative, got {distance}."
  | surplusLists terms lists => s!"Fewer terms ({terms}) than offset lists received ({lists})."
  | noTerms => "At least one term is required."
  | notQuery text => s!"Not a within() predicate: {quoted text}"
  | unreadableArguments arguments => s!"Cannot parse within() arguments: {quoted arguments}"
  | malformedArgument argument => s!"Malformed within() argument: {quoted argument}"
  | distanceExpected text => s!"within() needs a non-negative integer distance: {quoted text}"
  | tooManyDigits limit count =>
    s!"Exceeds the limit ({limit} digits) for integer string conversion: value has {count} " ++
      "digits; use sys.set_int_max_str_digits() to increase the limit"
  | quotedExpected argument => s!"Expected a quoted term, got {quoted argument}"
  | termsExpected text => s!"within() needs at least one term: {quoted text}"

/-- What a fault is found with: the type of what is given, or what it says. -/
inductive Fault.Kind where
  | wrongType
  | wrongValue

def Fault.kind : Fault → Kind
  | notSequence _ => .wrongType
  | _ => .wrongValue

/-- The name under which faults of a kind are reported. -/
def Fault.Kind.name : Kind → String
  | wrongType => "TypeError"
  | wrongValue => "ValueError"

theorem exists_of_bind_eq_ok {α β : Type} {x : Except Fault α} {f : α → Except Fault β} {b : β}
    (h : x.bind f = .ok b) : ∃ a, x = .ok a ∧ f a = .ok b := by
  cases x with
  | error fault => cases h
  | ok a => exact ⟨a, rfl, h⟩

theorem exists_of_bind_eq_error {α β : Type} {x : Except Fault α} {f : α → Except Fault β}
    {fault : Fault} (h : x.bind f = .error fault) :
    x = .error fault ∨ ∃ a, x = .ok a ∧ f a = .error fault := by
  cases x with
  | error found =>
    obtain rfl := Except.error.inj h
    exact Or.inl rfl
  | ok a => exact Or.inr ⟨a, rfl, h⟩

end TermWindow
