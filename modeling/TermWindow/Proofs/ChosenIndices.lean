import Mathlib.Data.Finset.Fin
import Mathlib.Data.Finset.Sort
import Mathlib.Data.Int.LeastGreatest
import Mathlib.Order.Bounds.Basic
import TermWindow.Proofs.GivenPositions

/-!
# Choices by index

To pick some of the positions of a term is to pick a set of indices into their ascending list: equal
positions at different indices count as different ones. The brute-force choice says yes just when
there are such sets, one for each term and of the right sizes, whose positions all lie within the
distance of each other.
-/

namespace TermWindow

namespace Positions

/-! ### Indices of picked positions -/

theorem exists_indices_of_subperm (p : Positions) (ys : List Int) (h : ys.Subperm p.toList) :
    ∃ index : Finset Nat, index.card = ys.length ∧
      ∀ i ∈ index, ∃ x ∈ ys, p.get? i = some x := by
  -- Indices tell equal positions apart, so they are taken from the sublist, not from the values.
  obtain ⟨zs, hperm, hsub⟩ := h
  obtain ⟨is, hzs, hascending⟩ := List.sublist_eq_map_getElem hsub
  have hnodup : (is.map Fin.val).Nodup := by
    apply List.Pairwise.map _ _ hascending
    intro a b hab
    exact Nat.ne_of_lt hab
  refine ⟨(is.map Fin.val).toFinset, ?_, fun i hi => ?_⟩
  · rw [List.toFinset_card_of_nodup hnodup, List.length_map, ← hperm.length_eq, hzs,
      List.length_map]
  · obtain ⟨j, hj, rfl⟩ := List.mem_map.1 (List.mem_toFinset.1 hi)
    refine ⟨p.toList[j], hperm.subset ?_, ?_⟩
    · rw [hzs]
      exact List.mem_map_of_mem hj
    · rw [get?_eq_toList, List.getElem?_eq_getElem j.isLt]
      rfl

theorem exists_subperm_of_indices (p : Positions) (index : Finset Nat)
    (h : ∀ i ∈ index, i < p.size) :
    ∃ ys : List Int, ys.Subperm p.toList ∧ ys.length = index.card ∧
      ∀ x ∈ ys, ∃ i ∈ index, p.get? i = some x := by
  have hlt : ∀ i ∈ index, i < p.toList.length := by
    intro i hi
    rw [← size_eq_length]
    exact h i hi
  let is := (index.attachFin hlt).sort (· ≤ ·)
  refine ⟨is.map (p.toList[·]), ?_, ?_, fun x hx => ?_⟩
  · exact (List.map_getElem_sublist (index.attachFin hlt).sortedLT_sort.pairwise).subperm
  · rw [List.length_map, Finset.length_sort, Finset.card_attachFin]
  · obtain ⟨i, hi, rfl⟩ := List.mem_map.1 hx
    have hmem : (i : Nat) ∈ index := by simpa [is] using hi
    refine ⟨i, hmem, ?_⟩
    rw [get?_eq_toList, List.getElem?_eq_getElem i.isLt]
    rfl

/-- The positions that stand at chosen indices of the terms. -/
def atIndices (positions : String → Positions) (terms : List String)
    (index : String → Finset Nat) : Set Int :=
  {x | ∃ t ∈ terms, ∃ i ∈ index t, (positions t).get? i = some x}

/-- Numbers that are close to each other have a least and a greatest one, and these are close. -/
theorem close_iff_extent {chosen : Set Int} (hne : chosen.Nonempty) (distance : Nat) :
    (∀ x ∈ chosen, ∀ y ∈ chosen, x - y ≤ (distance : Int)) ↔
      ∃ least greatest, IsLeast chosen least ∧ IsGreatest chosen greatest ∧
        greatest - least ≤ (distance : Int) := by
  refine ⟨fun hclose => ?_, fun h => ?_⟩
  · obtain ⟨x, hx⟩ := hne
    have hbelow : ∀ y, y ∈ chosen → x - distance ≤ y := by
      intro y hy
      have hxy := hclose x hx y hy
      omega
    have habove : ∀ y, y ∈ chosen → y ≤ x + distance := by
      intro y hy
      have hyx := hclose y hy x hx
      omega
    obtain ⟨least, hleast, hle⟩ := Int.exists_least_of_bdd ⟨_, hbelow⟩ ⟨x, hx⟩
    obtain ⟨greatest, hgreatest, hge⟩ := Int.exists_greatest_of_bdd ⟨_, habove⟩ ⟨x, hx⟩
    exact ⟨least, greatest, ⟨hleast, hle⟩, ⟨hgreatest, hge⟩,
      hclose greatest hgreatest least hleast⟩
  · obtain ⟨least, greatest, hleast, hgreatest, hextent⟩ := h
    intro x hx y hy
    have hxg := hgreatest.2 hx
    have hly := hleast.2 hy
    omega

end Positions

namespace Task

/-- Chosen indices of each term, as many as needed, whose positions lie within the distance of each
other. -/
structure Selects (T : Task) (index : String → Finset Nat) : Prop where
  enough : ∀ t ∈ T.terms, (index t).card = T.needed t
  inside : ∀ t ∈ T.terms, ∀ i ∈ index t, i < (T.sorted t).size
  close : ∀ x ∈ Positions.atIndices T.sorted T.terms index,
    ∀ y ∈ Positions.atIndices T.sorted T.terms index, x - y ≤ (T.distance : Int)

theorem exists_selects_of_fits (T : Task) (pick : String → List Int) (h : T.Fits pick) :
    ∃ index, T.Selects index := by
  have hex : ∀ t, ∃ index : Finset Nat, t ∈ T.terms → index.card = T.needed t ∧
      ∀ i ∈ index, ∃ x ∈ pick t, (T.sorted t).get? i = some x := by
    intro t
    by_cases ht : t ∈ T.terms
    · obtain ⟨index, hcard, hpicked⟩ := (T.sorted t).exists_indices_of_subperm (pick t)
        ((T.perm_sorted t).subperm_left.2 (h.taken t ht))
      exact ⟨index, fun _ => ⟨hcard.trans (h.enough t ht), hpicked⟩⟩
    · exact ⟨∅, fun hm => absurd hm ht⟩
  choose index hindex using hex
  have hpicked : ∀ x ∈ Positions.atIndices T.sorted T.terms index,
      ∃ t ∈ T.terms, x ∈ pick t := by
    intro x hx
    obtain ⟨t, ht, i, hi, hget⟩ := hx
    obtain ⟨y, hy, hget'⟩ := (hindex t ht).2 i hi
    obtain rfl := Option.some.inj (hget.symm.trans hget')
    exact ⟨t, ht, hy⟩
  refine ⟨index, fun t ht => (hindex t ht).1, fun t ht i hi => ?_, fun x hx y hy => ?_⟩
  · obtain ⟨x, -, hget⟩ := (hindex t ht).2 i hi
    exact (T.sorted t).lt_size_of_get? i x hget
  · obtain ⟨t, ht, hxt⟩ := hpicked x hx
    obtain ⟨u, hu, hyu⟩ := hpicked y hy
    exact h.close t ht u hu x hxt y hyu

theorem exists_fits_of_selects (T : Task) (index : String → Finset Nat) (h : T.Selects index) :
    ∃ pick, T.Fits pick := by
  have hex : ∀ t, ∃ ys : List Int, t ∈ T.terms → ys.Subperm (T.sorted t).toList ∧
      ys.length = (index t).card ∧ ∀ x ∈ ys, ∃ i ∈ index t, (T.sorted t).get? i = some x := by
    intro t
    by_cases ht : t ∈ T.terms
    · obtain ⟨ys, hys⟩ := (T.sorted t).exists_subperm_of_indices (index t) (h.inside t ht)
      exact ⟨ys, fun _ => hys⟩
    · exact ⟨[], fun hm => absurd hm ht⟩
  choose pick hpick using hex
  refine ⟨pick, fun t ht => ?_, fun t ht => ?_, fun t ht u hu x hx y hy => ?_⟩
  · exact (T.perm_sorted t).subperm_left.1 (hpick t ht).1
  · exact (hpick t ht).2.1.trans (h.enough t ht)
  · exact h.close x ⟨t, ht, (hpick t ht).2.2 x hx⟩ y ⟨u, hu, (hpick u hu).2.2 y hy⟩

theorem atIndices_nonempty {T : Task} {index : String → Finset Nat} (hne : T.terms ≠ [])
    (henough : ∀ t ∈ T.terms, (index t).card = T.needed t)
    (hinside : ∀ t ∈ T.terms, ∀ i ∈ index t, i < (T.sorted t).size) :
    (Positions.atIndices T.sorted T.terms index).Nonempty := by
  obtain ⟨t, ht⟩ := List.exists_mem_of_ne_nil T.terms hne
  have hpos := T.needed_pos t ht
  rw [← henough t ht, Finset.card_pos] at hpos
  obtain ⟨i, hi⟩ := hpos
  obtain ⟨x, hx⟩ := (T.sorted t).exists_get? i (hinside t ht i hi)
  exact ⟨x, t, ht, i, hi, hx⟩

end Task

namespace Choice

/-- The brute-force choice over slots that give positions says yes just when there are indices for
each term, as many as its repetitions or one where these are shared, such that the least and the
greatest of all positions at them lie within the distance of each other. -/
theorem possible_iff_indices (distance : Nat) (terms : List String) (hne : terms ≠ [])
    (slots : List Value) (hlen : slots.length = terms.length)
    (hgiven : ∀ v ∈ slots, v.isMissing = false) (positions : String → Positions)
    (hread : ∀ t v, (terms.zip slots).lookup t = some v →
      Positions.ofValue v = .ok (positions t)) (shared : Bool) :
    ∃ b, ofValues (.whole distance) terms (.list slots) shared = .ok b ∧
      (b = true ↔ ∃ index : String → Finset Nat,
        (∀ t ∈ terms, (index t).card = (if shared then 1 else terms.count t) ∧
          ∀ i ∈ index t, i < (positions t).size) ∧
        ∃ least greatest, IsLeast (Positions.atIndices positions terms index) least ∧
          IsGreatest (Positions.atIndices positions terms index) greatest ∧
          greatest - least ≤ (distance : Int)) := by
  let T := Task.ofPositions distance terms shared positions
  have hsorted : T.sorted = positions :=
    funext (Task.sorted_ofPositions distance terms shared positions)
  have hgives : Task.Gives (terms.zip slots) positions := fun t v hv _ => hread t v hv
  obtain ⟨b, hb, hiff⟩ := possible_iff T slots hlen (hgives.reads distance terms shared)
  refine ⟨b, hb, hiff.trans ⟨fun h => ?_, fun h => ?_⟩⟩
  · obtain ⟨-, -, pick, hfits⟩ := h
    obtain ⟨index, hselects⟩ := T.exists_selects_of_fits pick hfits
    have hnonempty := Task.atIndices_nonempty hne hselects.enough hselects.inside
    have hextent := (Positions.close_iff_extent hnonempty distance).1 hselects.close
    have hinside := hselects.inside
    rw [hsorted] at hextent hinside
    exact ⟨index, fun t ht => ⟨hselects.enough t ht, hinside t ht⟩, hextent⟩
  · obtain ⟨index, hindex, hextent⟩ := h
    have hinside : ∀ t ∈ T.terms, ∀ i ∈ index t, i < (T.sorted t).size := by
      rw [hsorted]
      exact fun t ht => (hindex t ht).2
    have hnonempty := Task.atIndices_nonempty hne (fun t ht => (hindex t ht).1) hinside
    rw [← hsorted] at hextent
    have hclose := (Positions.close_iff_extent hnonempty distance).2 hextent
    obtain ⟨pick, hfits⟩ := T.exists_fits_of_selects index
      ⟨fun t ht => (hindex t ht).1, hinside, hclose⟩
    exact ⟨hne, hgiven, pick, hfits⟩

/-- Two of the positions 5, 6, 9 and one of 1, 7, 7; the last slot does not count. -/
theorem possible_iff_indices_repeated :
    ofValues (.whole 2) ["a", "b", "a"] (.list [.ofInts [9, 5, 6], .ofInts [7, 1, 7], .truth true])
      false = .ok true := by
  let slots : List Value := [.ofInts [9, 5, 6], .ofInts [7, 1, 7], .truth true]
  let positions (t : String) : Positions :=
    if t = "a" then ⟨#[5, 6, 9], by decide⟩ else ⟨#[1, 7, 7], by decide⟩
  have hread : ∀ t v, (["a", "b", "a"].zip slots).lookup t = some v →
      Positions.ofValue v = .ok (positions t) := by
    intro t v hv
    by_cases ha : t = "a"
    · subst ha
      obtain rfl := Option.some.inj hv
      exact Positions.ofValue_ofInts_perm (by decide) (by simp [Positions.Plain])
    · by_cases hb : t = "b"
      · subst hb
        obtain rfl := Option.some.inj hv
        exact Positions.ofValue_ofInts_perm (by decide) (by simp [Positions.Plain])
      · simp [slots, List.lookup_cons, beq_eq_false_iff_ne.2 ha, beq_eq_false_iff_ne.2 hb] at hv
  obtain ⟨b, hb, hiff⟩ := possible_iff_indices 2 ["a", "b", "a"] (by decide) slots rfl (by decide)
    positions hread false
  let index (t : String) : Finset Nat := if t = "a" then {0, 1} else {2}
  have hbetween : ∀ t ∈ ["a", "b", "a"], ∀ i ∈ index t, ∀ x ∈ (positions t).get? i,
      5 ≤ x ∧ x ≤ 7 := by
    decide
  have hextent : ∀ x ∈ Positions.atIndices positions ["a", "b", "a"] index, 5 ≤ x ∧ x ≤ 7 := by
    intro x hx
    obtain ⟨t, ht, i, hi, hget⟩ := hx
    exact hbetween t ht i hi x hget
  have hyes : b = true := by
    refine hiff.2 ⟨index, by decide, 5, 7, ⟨?_, fun x hx => (hextent x hx).1⟩,
      ⟨?_, fun x hx => (hextent x hx).2⟩, by decide⟩
    · exact ⟨"a", by decide, 0, by decide, rfl⟩
    · exact ⟨"b", by decide, 2, by decide, rfl⟩
  subst hyes
  exact hb

end Choice

end TermWindow
