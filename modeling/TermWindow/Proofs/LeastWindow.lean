import Mathlib.Order.Bounds.Basic
import TermWindow.Proofs.SearchStart

/-!
# The least window

A search that finds a window finds the least one: no reader stands behind its block in any other
window, and no picks that fit end further left than the rightmost position of the search.
-/

namespace TermWindow

namespace Entry

/-! ### Readers in the order of their terms -/

section Serves

variable {T : Task} {terms : List String} {queue : List Entry}

theorem Serves.order_eq_idxOf (h : Serves T terms queue) (e : Entry) (he : e ∈ queue) :
    e.order = (Demand.distinct terms).idxOf e.reader.term := by
  obtain ⟨hlt, heq⟩ := List.getElem?_eq_some_iff.1 (h.ranked e he)
  rw [← heq, (Demand.nodup_distinct terms).idxOf_getElem e.order hlt]

theorem pairwise_idxOf (ts : List String) (hn : ts.Nodup) :
    ts.Pairwise fun a b => ts.idxOf a ≤ ts.idxOf b := by
  rw [List.pairwise_iff_getElem]
  intro i j hi hj hij
  rw [hn.idxOf_getElem i hi, hn.idxOf_getElem j hj]
  omega

/-- Sorted by their orders, the readers stand in the order in which their terms first occur. -/
theorem Serves.map_term_mergeSort (h : Serves T terms queue) :
    (queue.mergeSort fun a b => a.order ≤ b.order).map (·.reader.term) =
      Demand.distinct terms := by
  have hperm := List.mergeSort_perm queue fun a b => decide (a.order ≤ b.order)
  have hserves := h.of_perm _ hperm.symm
  have hsorted := @List.pairwise_mergeSort Entry (fun a b => decide (a.order ≤ b.order))
    (fun a b c => by simp only [decide_eq_true_eq]; exact Nat.le_trans)
    (fun a b => by simp only [Bool.or_eq_true, decide_eq_true_eq]; exact Nat.le_total _ _) queue
  let sooner (a b : String) : Prop :=
    (Demand.distinct terms).idxOf a ≤ (Demand.distinct terms).idxOf b
  have hequal : ∀ a b, a ∈ (queue.mergeSort fun a b => a.order ≤ b.order).map (·.reader.term) →
      b ∈ Demand.distinct terms → sooner a b → sooner b a → a = b := by
    intro a b ha _ hab hba
    have hmem : a ∈ Demand.distinct terms := hserves.covers.mem_iff.1 ha
    exact (List.idxOf_inj hmem).1 (Nat.le_antisymm hab hba)
  have hreaders : ((queue.mergeSort fun a b => a.order ≤ b.order).map
      (·.reader.term)).Pairwise sooner := by
    rw [List.pairwise_map]
    apply hsorted.imp_of_mem
    intro a b ha hb hab
    show List.idxOf _ _ ≤ List.idxOf _ _
    rw [← hserves.order_eq_idxOf a ha, ← hserves.order_eq_idxOf b hb]
    exact of_decide_eq_true hab
  have hterms : (Demand.distinct terms).Pairwise sooner :=
    pairwise_idxOf _ (Demand.nodup_distinct terms)
  exact List.Perm.eq_of_pairwise hequal hreaders hterms hserves.covers

end Serves

end Entry

namespace Search

section Landed

variable {T : Task} {s : Search} {start : String → Nat}

theorem Landed.map_term_readers (h : Landed T s start) :
    s.readers.map (·.term) = Demand.distinct T.terms := by
  rw [readers, List.map_map]
  exact h.served.map_term_mergeSort

theorem Landed.reader (h : Landed T s start) (r : Reader) (hr : r ∈ s.readers) :
    r.multiplicity = T.needed r.term ∧ r.positions = T.sorted r.term ∧ r.index = start r.term := by
  obtain ⟨e, he, rfl⟩ := List.mem_map.1 hr
  have hm : e ∈ s.entries := (List.mergeSort_perm _ _).mem_iff.1 he
  exact ⟨h.served.multiplicity e hm, h.served.positions e hm, h.standing e hm⟩

/-- Among positions that are not negative, the rightmost one is that of a block. -/
theorem Landed.exists_mem_block (h : Landed T s start) (hne : T.terms ≠ [])
    (hnonneg : ∀ t ∈ T.terms, ∀ x ∈ T.occurrences t, 0 ≤ x) :
    ∃ t ∈ T.terms, s.rightmost ∈ T.block start t := by
  rcases h.attained with hidle | hmem
  · obtain ⟨t, ht⟩ := List.exists_mem_of_ne_nil T.terms hne
    have hpos := T.needed_pos t ht
    have hlen := (T.fits_block start h.places).enough t ht
    obtain ⟨x, hx⟩ := List.exists_mem_of_length_pos (l := T.block start t) (by omega)
    have h0 := hnonneg t ht x (T.mem_occurrences_of_mem_block start t x hx)
    have hle := h.bounded t ht x hx
    omega
  · exact hmem

theorem Landed.rightEnd (h : Landed T s start) (hne : T.terms ≠ [])
    (hnonneg : ∀ t ∈ T.terms, ∀ x ∈ T.occurrences t, 0 ≤ x) :
    T.RightEnd (T.block start) s.rightmost :=
  ⟨h.exists_mem_block hne hnonneg, h.bounded⟩

theorem Landed.rightmost_le (h : Landed T s start) (hne : T.terms ≠ [])
    (hnonneg : ∀ t ∈ T.terms, ∀ x ∈ T.occurrences t, 0 ≤ x) (pick : String → List Int)
    (hfits : T.Fits pick) (last : Int) (hlast : T.RightEnd pick last) : s.rightmost ≤ last := by
  obtain ⟨other, hplaces, hbelow⟩ := T.exists_places_of_fits pick hfits
  obtain ⟨t, ht, hmem⟩ := h.exists_mem_block hne hnonneg
  obtain ⟨i, -, hi, hget⟩ := ((T.sorted t).mem_block_iff _ _ _).1 hmem
  have hstart := h.least other hplaces (T.above_of_nonneg other hnonneg) t ht
  obtain ⟨y, hy, hle⟩ := (T.sorted t).exists_ge_in_block i (other t) (T.needed t) s.rightmost hget
    (by omega) (T.needed_pos t ht) (by rw [Task.size_sorted]; exact hplaces.inside t ht)
  obtain ⟨-, z, hz, hyz⟩ := hbelow t ht y hy
  have hzl := hlast.2 t ht z hz
  omega

end Landed

/-- A search over given numbers that has found a window has one reader for each term, on the least
block of that term in any window, and the rightmost position is the least at which picks that fit
can end. -/
theorem settle_least (distance : Nat) (terms : List String) (slots : List (Option (List Int)))
    (shared : Bool) (hplain : ∀ xs, some xs ∈ slots → ∀ x ∈ xs, Positions.Plain x) (s : Search)
    (hs : ofValues (.whole distance) terms (.list (slots.map Value.slot)) shared = .ok s)
    (hf : s.found = true) :
    let T := Task.ofSlots distance terms slots shared
    ∃ start : String → Nat,
      s.settle.readers.map (·.term) = Demand.distinct terms ∧
      (∀ r ∈ s.settle.readers, r.multiplicity = T.needed r.term ∧
        r.positions = T.sorted r.term ∧ r.index = start r.term) ∧
      T.Places start ∧
      (∀ other, T.Places other → ∀ t ∈ terms, start t ≤ other t) ∧
      IsLeast {last | ∃ pick, T.Fits pick ∧ T.RightEnd pick last} s.settle.rightmost := by
  intro T
  have hstart : Search.start distance terms (slots.map Value.slot) shared = .ok s := hs
  have hlen := length_eq_of_found distance terms _ shared s hstart hf
  have hreads := Task.reads_ofSlots distance terms slots shared hplain
  obtain ⟨s', hs', hcases⟩ := start_outcome T (slots.map Value.slot) hlen hreads
  have heq : s' = s := Except.ok.inj (hs'.symm.trans hstart)
  subst heq
  rcases hcases with ⟨-, hne, -, start, hl⟩ | ⟨hfalse, -⟩
  · have hnonneg : ∀ t ∈ T.terms, ∀ x ∈ T.occurrences t, 0 ≤ x :=
      fun t _ x hx => (Task.plain_firstSlot terms slots hplain t x hx).1
    refine ⟨start, hl.map_term_readers, hl.reader, hl.places, ?_, ?_, ?_⟩
    · intro other hp
      exact hl.least other hp (T.above_of_nonneg other hnonneg)
    · exact ⟨T.block start, T.fits_block start hl.places, hl.rightEnd hne hnonneg⟩
    · intro last hl'
      obtain ⟨pick, hfits, hlast⟩ := hl'
      exact hl.rightmost_le hne hnonneg pick hfits last hlast
  · rw [hf] at hfalse
    cases hfalse

/-- The position 1 lies too far from 5 and 6, so that the search moves on from it. -/
theorem settle_least_repeated :
    let slots : List (Option (List Int)) := [some [9, 5, 6], some [1, 7, 7], some []]
    ∃ s, ofValues (.whole 4) ["a", "b", "a"] (.list (slots.map Value.slot)) false = .ok s ∧
      s.found = true ∧ s.settle.rightmost ≤ 7 := by
  intro slots
  have hplain : ∀ xs, some xs ∈ slots → ∀ x ∈ xs, Positions.Plain x := by
    simp [slots, Positions.Plain]
  let T := Task.ofSlots 4 ["a", "b", "a"] slots false
  have hfits : T.Fits fun t => if t = "a" then [5, 6] else [7] := by
    exact ⟨by decide, by decide, by decide⟩
  have hnonneg : ∀ t ∈ T.terms, ∀ x ∈ T.occurrences t, 0 ≤ x :=
    fun t _ x hx => (Task.plain_firstSlot _ slots hplain t x hx).1
  obtain ⟨start, hplaces⟩ := T.exists_places_iff.2 ⟨_, hfits⟩
  obtain ⟨s, hs, hfound⟩ := found_start_iff T (slots.map Value.slot) rfl
    (Task.reads_ofSlots 4 ["a", "b", "a"] slots false hplain)
  have hf : s.found = true :=
    hfound.2 ⟨by decide, by decide, start, hplaces, T.above_of_nonneg start hnonneg⟩
  obtain ⟨-, -, -, -, -, hleast⟩ := settle_least 4 ["a", "b", "a"] slots false hplain s hs hf
  refine ⟨s, hs, hf, hleast.2 ⟨_, hfits, ?_, ?_⟩⟩
  · exact ⟨"b", by decide, by decide⟩
  · decide

end Search

end TermWindow
