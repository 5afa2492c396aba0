import TermWindow.Fault

/-!
# Distances

The distance of a window is the greatest difference between two positions in it: a natural number.
-/

namespace TermWindow.Distance

/-- The distance given by a value. A truth value is no number here. -/
def ofValue : Value → Except Fault Nat
  | .whole (.ofNat n) => .ok n
  | .whole n => .error (.distanceNegative n)
  | v => .error (.distanceNotWhole v)

theorem ofValue_natCast (n : Nat) : ofValue (.whole n) = .ok n := rfl

theorem ofValue_eq_ok_iff (v : Value) (n : Nat) : ofValue v = .ok n ↔ v = .whole n := by
  constructor
  · intro h
    match v, h with
    | .whole (.ofNat m), h =>
      have : m = n := Except.ok.inj h
      rw [this]
      rfl
  · rintro rfl
    rfl

end TermWindow.Distance
