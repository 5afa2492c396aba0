import TermWindow.Fault

/-!
# Elements of values

Where several things are asked for, a list gives its items and a text gives its characters. All
other values are refused there.
-/

namespace TermWindow.Value

def elements (v : Value) : Except Fault (List Value) :=
  match v.elements? with
  | some elements => .ok elements
  | none => .error (.notSequence v)

end TermWindow.Value
