import TermWindow.Positions

/-!
# Readers

A reader goes through the positions of one term in ascending order and only forward. It holds a
block of consecutive positions at a time, as many as its multiplicity says; a step moves the block
by one position. A reader is spent when the positions left no longer fill a block.
-/

namespace TermWindow

/-- A reader of the positions of a term, whose block begins at `index`. -/
structure Reader where
  term : String
  multiplicity : Nat
  positions : Positions
  index : Nat
  positive : 0 < multiplicity

namespace Reader

/-- A reader at the beginning of the positions given by a value. Without a multiplicity it holds
one position. -/
def ofValue (term : String) (multiplicity : Option Int) (v : Value) : Except Fault Reader := do
  let count := multiplicity.getD 1
  if h : count < 1 then
    throw (.multiplicityTooSmall count)
  else
    let positions ← Positions.ofValue v
    return ⟨term, count.toNat, positions, 0, by omega⟩

theorem ofValue_eq_ok (term : String) (count : Nat) (hc : 0 < count) (v : Value) (p : Positions)
    (hp : Positions.ofValue v = .ok p) :
    ofValue term (some (count : Int)) v = .ok ⟨term, count, p, 0, hc⟩ := by
  have hcount : ¬((count : Int) < 1) := by omega
  simp only [ofValue, Option.getD_some, hcount, dite_false, hp]
  rfl

/-! ### What a reader shows -/

/-- The number of positions, also of those passed. -/
def size (r : Reader) : Nat := r.positions.size

/-- Whether the positions left do not fill a block. -/
def spent (r : Reader) : Bool := r.size < r.index + r.multiplicity

def low? (r : Reader) : Option Int := if r.spent then none else r.positions.get? r.index

def high? (r : Reader) : Option Int :=
  if r.spent then none else r.positions.get? (r.index + r.multiplicity - 1)

def last? (r : Reader) : Option Int := r.positions.last?

def remaining (r : Reader) : Nat := r.size - r.index

def describe (r : Reader) : String :=
  s!"OffsetCursor({Text.quoted r.term}, current={Text.orAbsent r.low?}, " ++
    s!"series_max={Text.orAbsent r.last?}, remaining={r.remaining})"

/-! ### Steps -/

/-- The reader after a step. A spent reader stays where it is. -/
def advance (r : Reader) : Reader := if r.spent then r else { r with index := r.index + 1 }

theorem advance_of_spent {r : Reader} (h : r.spent = true) : r.advance = r := if_pos h

theorem size_advance (r : Reader) : r.advance.size = r.size := by
  unfold advance
  split <;> rfl

theorem spent_of_advance {r : Reader} (h : r.advance.spent = false) : r.spent = false := by
  cases hs : r.spent with
  | false => rfl
  | true => rw [advance_of_spent hs, hs] at h; exact h

theorem remaining_advance_lt {r : Reader} (h : r.spent = false) :
    r.advance.remaining < r.remaining := by
  have hr : r.index + r.multiplicity ≤ r.size := by
    simpa [spent] using h
  have hp := r.positive
  simp only [remaining, size_advance]
  simp only [advance, h, Bool.false_eq_true, if_false]
  omega

/-- A step with what it gives: the first position of the block then held, or nothing. -/
def next (r : Reader) : Option Int × Reader := (r.advance.low?, r.advance)

/-- The blocks of a reader, each by its first and last position, from the present one on, and the
reader behind the last block. A spent reader shows one block without positions. -/
def drain (r : Reader) : List (Option Int × Option Int) × Reader :=
  if _h : r.advance.spent then
    ([(r.low?, r.high?)], r.advance)
  else
    let (blocks, done) := drain r.advance
    ((r.low?, r.high?) :: blocks, done)
termination_by r.remaining
decreasing_by exact remaining_advance_lt (spent_of_advance (Bool.eq_false_iff.2 _h))

/-! ### Order -/

/-- Whether `a` comes before `b`: by the first position of the block, then by the term. Spent
readers come last, in no order among themselves. -/
def precedes (a b : Reader) : Bool :=
  match a.low?, b.low? with
  | some x, some y => x < y || (x = y && a.term < b.term)
  | some _, none => true
  | none, _ => false

theorem precedes_irrefl (a : Reader) : a.precedes a = false := by
  unfold precedes
  cases a.low? <;> simp

/-- The items in the order of their readers. Items whose readers are not ordered keep their
places. -/
def sortOn {α : Type} (reader : α → Reader) (items : List α) : List α :=
  items.mergeSort fun a b => !(reader b).precedes (reader a)

theorem perm_sortOn {α : Type} (reader : α → Reader) (items : List α) :
    (sortOn reader items).Perm items :=
  List.mergeSort_perm items _

end Reader

end TermWindow
