import TermWindow.Value

/-!
# The shape of nested lists

Nested lists have one more dimension for each level on which all elements are lists of one and
the same length. The nesting is regular when it ends with a level that holds no lists at all.
-/

namespace TermWindow

/-- What the nesting of a list comes to. -/
inductive Shape where
  /-- All levels agree, down to elements that are no lists. -/
  | regular (dims : List Nat)
  /-- The levels agree for the given dimensions, and the next one does not. -/
  | ragged (dims : List Nat)
  /-- There are lists below the last dimension allowed. -/
  | tooDeep
  deriving DecidableEq

namespace Shape

def maxDims : Nat := 64

/-- A shape below one more dimension. -/
def below (n : Nat) : Shape → Shape
  | regular dims => regular (n :: dims)
  | ragged dims => ragged (n :: dims)
  | tooDeep => tooDeep

/-- The rows of a level on which all elements are lists of the same length, with that length. -/
def rows? (level : List Value) : Option (Nat × List (List Value)) :=
  match level.mapM Value.items? with
  | some (row :: rows) =>
    if rows.all (·.length = row.length) then some (row.length, row :: rows) else none
  | _ => none

/-- The shape of the elements on one level, with room for so many more dimensions. -/
def ofLevel : Nat → List Value → Shape
  | room, level =>
    if level.all (·.items?.isNone) then regular []
    else match room, rows? level with
      | 0, _ => tooDeep
      | _ + 1, none => ragged []
      | room + 1, some (n, rows) => (ofLevel room rows.flatten).below n

def ofItems (items : List Value) : Shape := (ofLevel (maxDims - 1) items).below items.length

theorem ofLevel_flat (room : Nat) {level : List Value} (h : ∀ v ∈ level, v.items? = none) :
    ofLevel room level = regular [] := by
  unfold ofLevel
  exact if_pos (List.all_eq_true.2 fun v hv => by rw [h v hv]; rfl)

theorem ofItems_flat {items : List Value} (h : ∀ v ∈ items, v.items? = none) :
    ofItems items = regular [items.length] := by
  rw [ofItems, ofLevel_flat _ h, below]

end Shape

end TermWindow
