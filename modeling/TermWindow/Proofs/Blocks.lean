import Mathlib.Data.List.Sort
import TermWindow.Reader

/-!
# Blocks of consecutive positions

A reader holds a block of consecutive positions of its term. Whatever positions are picked out of an
ascending list, some block of as many consecutive ones lies between the least and the greatest of
them, so that a search need not look at anything but blocks.
-/

namespace TermWindow

namespace Positions

theorem get?_le_get? (p : Positions) (i j : Nat) (x y : Int) (hij : i ≤ j)
    (hx : p.get? i = some x) (hy : p.get? j = some y) : x ≤ y := by
  rw [get?_eq_toList] at hx hy
  obtain ⟨hi, rfl⟩ := List.getElem?_eq_some_iff.1 hx
  obtain ⟨hj, rfl⟩ := List.getElem?_eq_some_iff.1 hy
  rcases Nat.lt_or_eq_of_le hij with hlt | rfl
  · exact List.pairwise_iff_getElem.1 p.ascending i j hi hj hlt
  · exact Int.le_refl _

theorem exists_get? (p : Positions) (i : Nat) (h : i < p.size) : ∃ x, p.get? i = some x := by
  rw [size_eq_length] at h
  exact ⟨p.toList[i], by rw [get?_eq_toList, List.getElem?_eq_getElem h]⟩

theorem lt_size_of_get? (p : Positions) (i : Nat) (x : Int) (h : p.get? i = some x) :
    i < p.size := by
  rw [get?_eq_toList] at h
  rw [size_eq_length]
  exact (List.getElem?_eq_some_iff.1 h).1

theorem size_ofList (xs : List Int) : (ofList xs).size = xs.length := by
  rw [size_eq_length, (perm_toList_ofList xs).length_eq]

/-! ### Blocks -/

def block (p : Positions) (start count : Nat) : List Int := (p.toList.drop start).take count

theorem mem_block_iff (p : Positions) (start count : Nat) (x : Int) :
    x ∈ p.block start count ↔ ∃ i, start ≤ i ∧ i < start + count ∧ p.get? i = some x := by
  simp only [block, List.mem_iff_getElem?, List.getElem?_take, List.getElem?_drop, get?_eq_toList]
  refine ⟨?_, ?_⟩
  · intro ⟨k, hk⟩
    split at hk
    · exact ⟨start + k, by omega, by omega, hk⟩
    · cases hk
  · intro ⟨i, hs, hi, hx⟩
    refine ⟨i - start, ?_⟩
    rw [if_pos (by omega), Nat.add_sub_cancel' hs]
    exact hx

theorem sublist_block (p : Positions) (start count : Nat) :
    (p.block start count).Sublist p.toList :=
  (List.take_sublist count _).trans (List.drop_sublist start _)

theorem length_block (p : Positions) (start count : Nat) (h : start + count ≤ p.size) :
    (p.block start count).length = count := by
  rw [size_eq_length] at h
  rw [block, List.length_take, List.length_drop]
  omega

theorem exists_ge_in_block (p : Positions) (i start count : Nat) (x : Int) (hx : p.get? i = some x)
    (hi : i < start + count) (hc : 0 < count) (hs : start + count ≤ p.size) :
    ∃ y ∈ p.block start count, x ≤ y := by
  obtain ⟨y, hy⟩ := p.exists_get? (start + count - 1) (by omega)
  have hle := p.get?_le_get? i (start + count - 1) x y (by omega) hx hy
  exact ⟨y, (p.mem_block_iff start count y).2 ⟨_, by omega, by omega, hy⟩, hle⟩

/-! ### Blocks below picked positions -/

theorem exists_ge_of_mem_take (xs ys : List Int) (hs : xs.Pairwise (· ≤ ·)) (h : ys.Sublist xs) :
    ∀ x ∈ xs.take ys.length, ∃ y ∈ ys, x ≤ y := by
  induction h with
  | slnil => simp
  | @cons ys xs a h ih =>
    intro x hx
    cases ys with
    | nil => simp at hx
    | cons b ys =>
      rw [List.length_cons, List.take_succ_cons, List.mem_cons] at hx
      rcases hx with rfl | hx
      · have hb : b ∈ xs := h.subset (List.mem_cons_self ..)
        exact ⟨b, List.mem_cons_self .., List.rel_of_pairwise_cons hs hb⟩
      · have hm : x ∈ xs.take (ys.length + 1) := List.take_subset_take_left xs (by omega) hx
        exact ih hs.of_cons x hm
  | @cons_cons ys xs a h ih =>
    intro x hx
    rw [List.length_cons, List.take_succ_cons, List.mem_cons] at hx
    rcases hx with rfl | hx
    · exact ⟨x, List.mem_cons_self .., Int.le_refl x⟩
    · obtain ⟨y, hy, hle⟩ := ih hs.of_cons x hx
      exact ⟨y, List.mem_cons_of_mem a hy, hle⟩

theorem exists_window_of_sublist (xs ys : List Int) (hs : xs.Pairwise (· ≤ ·))
    (h : ys.Sublist xs) (hne : ys ≠ []) :
    ∃ start, start + ys.length ≤ xs.length ∧
      ∀ x ∈ (xs.drop start).take ys.length, (∃ y ∈ ys, y ≤ x) ∧ ∃ y ∈ ys, x ≤ y := by
  induction h with
  | slnil => exact absurd rfl hne
  | @cons ys xs a h ih =>
    obtain ⟨start, hl, hw⟩ := ih hs.of_cons hne
    exact ⟨start + 1, by rw [List.length_cons]; omega, hw⟩
  | @cons_cons ys xs a h ih =>
    have hl := h.length_le
    refine ⟨0, by simp only [List.length_cons]; omega, fun x hx => ?_⟩
    rw [List.drop_zero] at hx
    have hm := List.mem_of_mem_take hx
    refine ⟨⟨a, List.mem_cons_self .., ?_⟩, exists_ge_of_mem_take _ _ hs (h.cons_cons a) x hx⟩
    rcases List.mem_cons.1 hm with rfl | ht
    · exact Int.le_refl x
    · exact List.rel_of_pairwise_cons hs ht

/-- Some block lies between the least and the greatest of the positions picked. -/
theorem exists_block_of_subperm (p : Positions) (ys : List Int) (h : ys.Subperm p.toList)
    (hne : ys ≠ []) :
    ∃ start, start + ys.length ≤ p.size ∧
      ∀ x ∈ p.block start ys.length, (∃ y ∈ ys, y ≤ x) ∧ ∃ y ∈ ys, x ≤ y := by
  obtain ⟨zs, hp, hz⟩ := h
  have hlen := hp.length_eq
  have hzne : zs ≠ [] := by
    intro hnil
    rw [hnil] at hp
    exact hne (List.nil_perm.1 hp)
  obtain ⟨start, hl, hw⟩ := exists_window_of_sublist p.toList zs p.ascending hz hzne
  rw [hlen, ← size_eq_length] at hl
  refine ⟨start, hl, fun x hx => ?_⟩
  obtain ⟨⟨a, ha, hax⟩, b, hb, hxb⟩ := hw x (by rw [hlen]; exact hx)
  exact ⟨⟨a, hp.subset ha, hax⟩, b, hp.subset hb, hxb⟩

end Positions

namespace Reader

/-! ### The block of a reader -/

def block (r : Reader) : List Int := r.positions.block r.index r.multiplicity

theorem not_spent_iff (r : Reader) : r.spent = false ↔ r.index + r.multiplicity ≤ r.size := by
  simp [spent]

theorem low?_eq_some_iff (r : Reader) (a : Int) :
    r.low? = some a ↔ r.spent = false ∧ r.positions.get? r.index = some a := by
  unfold low?
  cases r.spent <;> simp

theorem high?_eq_some_iff (r : Reader) (b : Int) :
    r.high? = some b ↔
      r.spent = false ∧ r.positions.get? (r.index + r.multiplicity - 1) = some b := by
  unfold high?
  cases r.spent <;> simp

theorem exists_low? (r : Reader) (h : r.spent = false) : ∃ a, r.low? = some a := by
  have hp := r.positive
  have hs := r.not_spent_iff.1 h
  obtain ⟨a, ha⟩ := r.positions.exists_get? r.index (by rw [size] at hs; omega)
  exact ⟨a, (r.low?_eq_some_iff a).2 ⟨h, ha⟩⟩

theorem exists_high? (r : Reader) (h : r.spent = false) : ∃ b, r.high? = some b := by
  have hp := r.positive
  have hs := r.not_spent_iff.1 h
  obtain ⟨b, hb⟩ := r.positions.exists_get? (r.index + r.multiplicity - 1) (by
    rw [size] at hs
    omega)
  exact ⟨b, (r.high?_eq_some_iff b).2 ⟨h, hb⟩⟩

theorem mem_block_of_low? (r : Reader) (a : Int) (h : r.low? = some a) : a ∈ r.block := by
  have hp := r.positive
  have ha := ((r.low?_eq_some_iff a).1 h).2
  exact (r.positions.mem_block_iff _ _ a).2 ⟨r.index, by omega, by omega, ha⟩

theorem mem_block_of_high? (r : Reader) (b : Int) (h : r.high? = some b) : b ∈ r.block := by
  have hp := r.positive
  have hb := ((r.high?_eq_some_iff b).1 h).2
  exact (r.positions.mem_block_iff _ _ b).2 ⟨_, by omega, by omega, hb⟩

theorem low?_le_of_mem_block (r : Reader) (a x : Int) (h : r.low? = some a) (hx : x ∈ r.block) :
    a ≤ x := by
  obtain ⟨i, hi, -, hxi⟩ := (r.positions.mem_block_iff _ _ x).1 hx
  exact r.positions.get?_le_get? _ _ a x hi ((r.low?_eq_some_iff a).1 h).2 hxi

theorem le_high?_of_mem_block (r : Reader) (b x : Int) (h : r.high? = some b)
    (hx : x ∈ r.block) : x ≤ b := by
  obtain ⟨i, -, hi, hxi⟩ := (r.positions.mem_block_iff _ _ x).1 hx
  exact r.positions.get?_le_get? _ _ x b (by omega) hxi ((r.high?_eq_some_iff b).1 h).2

theorem le_last?_of_get? (r : Reader) (i : Nat) (x last : Int) (h : r.last? = some last)
    (hx : r.positions.get? i = some x) : x ≤ last := by
  have hi := r.positions.lt_size_of_get? i x hx
  have hl : r.positions.get? (r.positions.size - 1) = some last := by
    rw [last?, Positions.last?_eq_toList, List.getLast?_eq_getElem?] at h
    rw [Positions.get?_eq_toList, Positions.size_eq_length]
    exact h
  exact r.positions.get?_le_get? i _ x last (by omega) hx hl

/-! ### The reader after a step -/

theorem term_advance (r : Reader) : r.advance.term = r.term := by
  unfold advance
  split <;> rfl

theorem multiplicity_advance (r : Reader) : r.advance.multiplicity = r.multiplicity := by
  unfold advance
  split <;> rfl

theorem positions_advance (r : Reader) : r.advance.positions = r.positions := by
  unfold advance
  split <;> rfl

theorem index_advance (r : Reader) (h : r.spent = false) : r.advance.index = r.index + 1 := by
  simp [advance, h]

theorem high?_advance_ge (r : Reader) (b c : Int) (hb : r.high? = some b)
    (hc : r.advance.high? = some c) : b ≤ c := by
  have hr := (r.high?_eq_some_iff b).1 hb
  have ha := (r.advance.high?_eq_some_iff c).1 hc
  rw [positions_advance, multiplicity_advance, r.index_advance hr.1] at ha
  exact r.positions.get?_le_get? _ _ b c (by omega) hr.2 ha.2

end Reader

end TermWindow
