import Mathlib.Logic.Function.Iterate
import TermWindow.Proofs.Blocks

/-!
# The walk of a reader

A reader that is moved step by step comes to every block of consecutive positions of its term, from
the first to the last, and then it is spent and stays where it is. What it shows on the way depends
on nothing but the positions, its multiplicity and the number of steps.
-/

namespace TermWindow.Reader

/-- The number of blocks that the positions of a reader have. -/
def blocks (r : Reader) : Nat := r.size + 1 - r.multiplicity

theorem spent_iff (r : Reader) : r.spent = true ↔ r.blocks ≤ r.index := by
  have hp := r.positive
  rw [spent, blocks, decide_eq_true_eq]
  omega

/-! ### Steps -/

theorem advance_eq (r : Reader) (h : r.index ≤ r.blocks) :
    r.advance = { r with index := min (r.index + 1) r.blocks } := by
  by_cases hs : r.spent = true
  · have hend := r.spent_iff.1 hs
    have hstay : min (r.index + 1) r.blocks = r.index := by omega
    rw [advance_of_spent hs, hstay]
  · have hmore := mt r.spent_iff.2 hs
    have hmove : min (r.index + 1) r.blocks = r.index + 1 := by omega
    rw [advance, if_neg hs, hmove]

/-- From the first block on, each step goes to the next one as long as there is one. -/
theorem steps_eq (r : Reader) (h : r.index = 0) (k : Nat) :
    advance^[k] r = { r with index := min k r.blocks } := by
  induction k with
  | zero =>
    have hstart : min 0 r.blocks = r.index := by omega
    rw [Function.iterate_zero_apply, hstart]
  | succ k ih =>
    rw [Function.iterate_succ_apply', ih, advance_eq _ (Nat.min_le_right k r.blocks)]
    have hindex : min (min k r.blocks + 1) r.blocks = min (k + 1) r.blocks := by omega
    show ({ r with index := min (min k r.blocks + 1) r.blocks } : Reader) = _
    rw [hindex]

/-! ### What is met on the way -/

section Met

variable (r : Reader) (h : r.index = 0)

include h

theorem steps_of_lt (k : Nat) (hk : k < r.blocks) :
    (advance^[k] r).spent = false ∧ (advance^[k] r).low? = r.positions.get? k ∧
      (advance^[k] r).high? = r.positions.get? (k + r.multiplicity - 1) ∧
      (advance^[k] r).remaining = r.size - k := by
  have hstate : advance^[k] r = { r with index := k } := by
    rw [steps_eq r h, Nat.min_eq_left (Nat.le_of_lt hk)]
  have hheld : ({ r with index := k } : Reader).spent = false :=
    Bool.eq_false_iff.2 (mt (spent_iff _).1 (Nat.not_le.2 hk))
  rw [hstate, low?, high?, hheld]
  exact ⟨rfl, rfl, rfl, rfl⟩

theorem steps_of_ge (k : Nat) (hk : r.blocks ≤ k) :
    (advance^[k] r).spent = true ∧ (advance^[k] r).low? = none ∧
      (advance^[k] r).high? = none ∧ (advance^[k] r).remaining = r.size - r.blocks ∧
      (advance^[k] r).next = (none, advance^[k] r) := by
  have hstate : advance^[k] r = { r with index := r.blocks } := by
    rw [steps_eq r h, Nat.min_eq_right hk]
  have hspent : ({ r with index := r.blocks } : Reader).spent = true :=
    (spent_iff _).2 (Nat.le_refl r.blocks)
  rw [hstate, next, advance_of_spent hspent, low?, high?, hspent]
  exact ⟨rfl, rfl, rfl, rfl, rfl⟩

theorem low?_steps_le (j k : Nat) (hjk : j ≤ k) (a b : Int)
    (ha : (advance^[j] r).low? = some a) (hb : (advance^[k] r).low? = some b) : a ≤ b := by
  have hj := ((low?_eq_some_iff _ a).1 ha).2
  have hk := ((low?_eq_some_iff _ b).1 hb).2
  rw [steps_eq r h] at hj hk
  exact r.positions.get?_le_get? _ _ a b (by dsimp only; omega) hj hk

theorem high?_steps_le (j k : Nat) (hjk : j ≤ k) (a b : Int)
    (ha : (advance^[j] r).high? = some a) (hb : (advance^[k] r).high? = some b) : a ≤ b := by
  have hj := ((high?_eq_some_iff _ a).1 ha).2
  have hk := ((high?_eq_some_iff _ b).1 hb).2
  rw [steps_eq r h] at hj hk
  exact r.positions.get?_le_get? _ _ a b (by dsimp only; omega) hj hk

end Met

/-- A reader of accepted positions shows after `k` steps the block that begins at the index `k`, as
long as there is one. Behind the last block it shows none, and further steps give and change
nothing. -/
theorem next_steps_blocks (term : String) (v : Value) (p : Positions)
    (hp : Positions.ofValue v = .ok p) (m : Nat) (hm : 1 ≤ m) :
    ∃ r, ofValue term (some m) v = .ok r ∧ ∀ k,
      (k < p.size + 1 - m →
        (advance^[k] r).spent = false ∧ (advance^[k] r).remaining = p.size - k ∧
        ∃ low high, p.toList[k]? = some low ∧ p.toList[k + m - 1]? = some high ∧
          (advance^[k] r).low? = some low ∧ (advance^[k] r).high? = some high) ∧
      (p.size + 1 - m ≤ k →
        (advance^[k] r).spent = true ∧ (advance^[k] r).low? = none ∧
        (advance^[k] r).high? = none ∧ (advance^[k] r).remaining = p.size - (p.size + 1 - m) ∧
        (advance^[k] r).next = (none, advance^[k] r)) ∧
      (advance^[k] r).next = ((advance^[k + 1] r).low?, advance^[k + 1] r) ∧
      (advance^[k] r).last? = p.toList.getLast? ∧
      ((advance^[k] r).last? = none ↔ p.size = 0) ∧ (advance^[k] r).size = p.size ∧
      ∀ j ≤ k,
        (∀ a b, (advance^[j] r).low? = some a → (advance^[k] r).low? = some b → a ≤ b) ∧
        ∀ a b, (advance^[j] r).high? = some a → (advance^[k] r).high? = some b → a ≤ b := by
  let r : Reader := ⟨term, m, p, 0, hm⟩
  refine ⟨r, ofValue_eq_ok term m hm v p hp, fun k => ⟨fun hk => ?_, r.steps_of_ge rfl k, ?_⟩⟩
  · obtain ⟨hheld, hlow, hhigh, hremaining⟩ := r.steps_of_lt rfl k hk
    obtain ⟨low, hl⟩ := (advance^[k] r).exists_low? hheld
    obtain ⟨high, hh⟩ := (advance^[k] r).exists_high? hheld
    refine ⟨hheld, hremaining, low, high, ?_, ?_, hl, hh⟩
    · rw [← Positions.get?_eq_toList, ← hl, hlow]
    · rw [← Positions.get?_eq_toList, ← hh, hhigh]
  · have hlast : (advance^[k] r).last? = p.toList.getLast? := by
      rw [steps_eq r rfl, last?, Positions.last?_eq_toList]
    refine ⟨?_, hlast, ?_, ?_, fun j hj => ⟨r.low?_steps_le rfl j k hj,
      r.high?_steps_le rfl j k hj⟩⟩
    · rw [next, Function.iterate_succ_apply']
    · rw [hlast, List.getLast?_eq_none_iff, Positions.size_eq_length, List.length_eq_zero_iff]
    · rw [steps_eq r rfl]
      rfl

/-- Four positions in blocks of three: two blocks, the second one after a step. -/
theorem next_steps_blocks_four :
    ∃ r, ofValue "a" (some 3) (.list [.whole 9, .truth true, .whole 5, .whole 5]) = .ok r ∧
      (r.low? = some 1 ∧ r.high? = some 5) ∧ r.next = (some 5, r.advance) ∧
      (r.advance.low? = some 5 ∧ r.advance.high? = some 9) ∧
      r.advance.next = (none, r.advance.advance) ∧
      r.advance.advance.next = (none, r.advance.advance) := by
  have hread : Positions.ofValue (.list [.whole 9, .truth true, .whole 5, .whole 5]) =
      .ok (Positions.ofList [9, 1, 5, 5]) := rfl
  have hlist : (Positions.ofList [9, 1, 5, 5]).toList = [1, 5, 5, 9] := by
    simp [Positions.toList_ofList, List.mergeSort]
  have hsize : (Positions.ofList [9, 1, 5, 5]).size = 4 := by
    rw [Positions.size_eq_length, hlist]
    rfl
  obtain ⟨r, hr, hsteps⟩ := next_steps_blocks "a" _ _ hread 3 (by decide)
  simp only [hlist, hsize] at hsteps
  obtain ⟨-, -, low, high, hlow, hhigh, hl, hh⟩ := (hsteps 0).1 (by decide)
  obtain rfl := Option.some.inj hlow
  obtain rfl := Option.some.inj hhigh
  obtain ⟨-, -, low', high', hlow', hhigh', hl', hh'⟩ := (hsteps 1).1 (by decide)
  obtain rfl := Option.some.inj hlow'
  obtain rfl := Option.some.inj hhigh'
  obtain ⟨-, hend, -, -, hstay⟩ := (hsteps 2).2.1 (by decide)
  have hfirst := (hsteps 0).2.2.1
  have hsecond := (hsteps 1).2.2.1
  refine ⟨r, hr, ⟨hl, hh⟩, ?_, ⟨hl', hh'⟩, ?_, hstay⟩
  · exact hfirst.trans (congrArg (·, r.advance) hl')
  · exact hsecond.trans (congrArg (·, r.advance.advance) hend)

end TermWindow.Reader
