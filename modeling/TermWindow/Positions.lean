import TermWindow.Positions.Kind
import TermWindow.Positions.Shape
import TermWindow.Value.Elements

/-!
# Positions

The positions at which a term occurs, in ascending order. They are made of the elements of a
value, which have to be whole numbers, none of them negative. Positions are stored in 64 bits with
a sign, so that one beyond `2 ^ 63` comes out `2 ^ 64` less.
-/

namespace TermWindow

/-- Positions in ascending order. -/
structure Positions where
  toArray : Array Int
  ascending : toArray.toList.Pairwise (· ≤ ·)

namespace Positions

/-! ### Positions of numbers -/

def ofList (xs : List Int) : Positions where
  toArray := xs.mergeSort.toArray
  ascending := by
    have hs := @List.pairwise_mergeSort Int (fun a b => decide (a ≤ b))
      (fun a b c => by simp only [decide_eq_true_eq]; exact Int.le_trans)
      (fun a b => by simp only [Bool.or_eq_true, decide_eq_true_eq]; exact Int.le_total a b) xs
    simpa using hs

def empty : Positions := ⟨#[], by simp⟩

def toList (p : Positions) : List Int := p.toArray.toList

def size (p : Positions) : Nat := p.toArray.size

def get? (p : Positions) (i : Nat) : Option Int := p.toArray[i]?

def last? (p : Positions) : Option Int := p.toArray.back?

theorem toList_ofList (xs : List Int) : (ofList xs).toList = xs.mergeSort := by
  simp [ofList, toList]

theorem perm_toList_ofList (xs : List Int) : (ofList xs).toList.Perm xs := by
  rw [toList_ofList]
  exact List.mergeSort_perm xs _

theorem get?_eq_toList (p : Positions) (i : Nat) : p.get? i = p.toList[i]? := by
  simp [get?, toList]

theorem size_eq_length (p : Positions) : p.size = p.toList.length := by
  simp [size, toList]

theorem last?_eq_toList (p : Positions) : p.last? = p.toList.getLast? := by
  simp [last?, toList]

/-! ### Positions of values -/

/-- The number that a truth value or a whole number stands for. -/
def number? : Value → Option Int
  | .truth b => some (if b then 1 else 0)
  | .whole n => some n
  | _ => none

/-- A number as 64 bits with a sign hold it. -/
def stored (n : Int) : Int := n.bmod 0x10000000000000000

def ofFlat : List Value → Except Fault Positions
  | [] => .ok empty
  | first :: others =>
    let kind := Kind.ofValues first others
    let numbers := (first :: others).filterMap number?
    if !kind.isWhole then .error (.notWhole kind.name)
    else match numbers.min? with
      | none => .ok empty
      | some least =>
        if least < 0 then .error (.negativePosition least) else .ok (ofList (numbers.map stored))

def ofElements (elements : List Value) : Except Fault Positions :=
  match Shape.ofItems elements with
  | .ragged dims => .error (.ragged dims)
  | .tooDeep => .error (.tooDeep Shape.maxDims)
  | .regular dims => if dims.length = 1 then ofFlat elements else .error (.nested dims)

def ofValue (v : Value) : Except Fault Positions := do ofElements (← v.elements)

end Positions

end TermWindow
