import TermWindow.Demand
import TermWindow.Proofs.Blocks

/-!
# Tasks

What is asked of a search and of the brute-force choice, said without either of them: whether as
many occurrences of every term as it needs can be picked so that all lie within the distance of
each other. Picks may be replaced by blocks of consecutive positions.
-/

namespace TermWindow

/-- A distance, the terms of a query, whether their repetitions may share an occurrence, and where
each term occurs, in any order. -/
structure Task where
  distance : Nat
  terms : List String
  shared : Bool
  occurrences : String → List Int

namespace Task

variable (T : Task)

def needed (term : String) : Nat := Demand.needed T.shared T.terms term

theorem needed_pos (term : String) (h : term ∈ T.terms) : 0 < T.needed term :=
  Demand.needed_pos T.shared h

def sorted (term : String) : Positions := Positions.ofList (T.occurrences term)

theorem perm_sorted (term : String) : (T.sorted term).toList.Perm (T.occurrences term) :=
  Positions.perm_toList_ofList _

theorem size_sorted (term : String) : (T.sorted term).size = (T.occurrences term).length :=
  Positions.size_ofList _

/-! ### Picks -/

/-- The picked occurrences are as many as needed and lie within the distance of each other. -/
structure Fits (pick : String → List Int) : Prop where
  taken : ∀ t ∈ T.terms, (pick t).Subperm (T.occurrences t)
  enough : ∀ t ∈ T.terms, (pick t).length = T.needed t
  close : ∀ t ∈ T.terms, ∀ u ∈ T.terms, ∀ x ∈ pick t, ∀ y ∈ pick u, x - y ≤ (T.distance : Int)

/-- The greatest of the picked occurrences. -/
def RightEnd (pick : String → List Int) (last : Int) : Prop :=
  (∃ t ∈ T.terms, last ∈ pick t) ∧ ∀ t ∈ T.terms, ∀ x ∈ pick t, x ≤ last

theorem fits_congr (distance : Nat) (terms : List String) (shared : Bool)
    (occurrences others : String → List Int) (pick : String → List Int)
    (hp : ∀ t ∈ terms, (occurrences t).Perm (others t)) :
    Fits ⟨distance, terms, shared, occurrences⟩ pick ↔
      Fits ⟨distance, terms, shared, others⟩ pick := by
  refine ⟨?_, ?_⟩
  · intro h
    exact ⟨fun t ht => (hp t ht).subperm_left.1 (h.taken t ht), h.enough, h.close⟩
  · intro h
    exact ⟨fun t ht => (hp t ht).subperm_left.2 (h.taken t ht), h.enough, h.close⟩

theorem occurrences_ne_nil_of_fits (pick : String → List Int) (h : T.Fits pick) (t : String)
    (ht : t ∈ T.terms) : T.occurrences t ≠ [] := by
  intro hnil
  have hpos := T.needed_pos t ht
  have hle := (h.taken t ht).length_le
  rw [h.enough t ht, hnil, List.length_nil] at hle
  omega

/-! ### Blocks -/

def block (start : String → Nat) (term : String) : List Int :=
  (T.sorted term).block (start term) (T.needed term)

/-- All blocks are full and lie within the distance of each other. -/
structure Places (start : String → Nat) : Prop where
  inside : ∀ t ∈ T.terms, start t + T.needed t ≤ (T.occurrences t).length
  close : ∀ t ∈ T.terms, ∀ u ∈ T.terms, ∀ x ∈ T.block start t, ∀ y ∈ T.block start u,
    x - y ≤ (T.distance : Int)

/-- No block lies further than the distance below the position at which a search starts. -/
def Above (start : String → Nat) : Prop :=
  ∀ t ∈ T.terms, ∀ x ∈ T.block start t, -1 - x ≤ (T.distance : Int)

theorem mem_occurrences_of_mem_block (start : String → Nat) (term : String) (x : Int)
    (h : x ∈ T.block start term) : x ∈ T.occurrences term :=
  (T.perm_sorted term).subset (((T.sorted term).sublist_block _ _).subset h)

theorem above_of_nonneg (start : String → Nat)
    (h : ∀ t ∈ T.terms, ∀ x ∈ T.occurrences t, 0 ≤ x) : T.Above start := by
  intro t ht x hx
  have h0 := h t ht x (T.mem_occurrences_of_mem_block start t x hx)
  omega

theorem fits_block (start : String → Nat) (h : T.Places start) : T.Fits (T.block start) where
  taken t _ := (T.perm_sorted t).subperm_left.1 ((T.sorted t).sublist_block _ _).subperm
  enough t ht := (T.sorted t).length_block _ _ (by
    rw [size_sorted]
    exact h.inside t ht)
  close := h.close

/-- Every pick of a term has a block that does not reach beyond it on either side. -/
theorem exists_block_of_fits (pick : String → List Int) (h : T.Fits pick) (t : String)
    (ht : t ∈ T.terms) :
    ∃ start, start + T.needed t ≤ (T.occurrences t).length ∧
      ∀ x ∈ (T.sorted t).block start (T.needed t),
        (∃ y ∈ pick t, y ≤ x) ∧ ∃ y ∈ pick t, x ≤ y := by
  have hlen := h.enough t ht
  have hne : pick t ≠ [] := by
    have hpos := T.needed_pos t ht
    intro hnil
    rw [hnil, List.length_nil] at hlen
    omega
  have hsub : (pick t).Subperm (T.sorted t).toList :=
    (T.perm_sorted t).subperm_left.2 (h.taken t ht)
  obtain ⟨start, hs, hb⟩ := (T.sorted t).exists_block_of_subperm (pick t) hsub hne
  rw [hlen, size_sorted] at hs
  rw [hlen] at hb
  exact ⟨start, hs, hb⟩

theorem exists_places_of_fits (pick : String → List Int) (h : T.Fits pick) :
    ∃ start, T.Places start ∧ ∀ t ∈ T.terms, ∀ x ∈ T.block start t,
      (∃ y ∈ pick t, y ≤ x) ∧ ∃ y ∈ pick t, x ≤ y := by
  have hex : ∀ t, ∃ start, t ∈ T.terms → start + T.needed t ≤ (T.occurrences t).length ∧
      ∀ x ∈ (T.sorted t).block start (T.needed t),
        (∃ y ∈ pick t, y ≤ x) ∧ ∃ y ∈ pick t, x ≤ y := by
    intro t
    by_cases ht : t ∈ T.terms
    · obtain ⟨start, hs⟩ := T.exists_block_of_fits pick h t ht
      exact ⟨start, fun _ => hs⟩
    · exact ⟨0, fun hm => absurd hm ht⟩
  choose start hstart using hex
  refine ⟨start, ⟨fun t ht => (hstart t ht).1, ?_⟩, fun t ht => (hstart t ht).2⟩
  intro t ht u hu x hx y hy
  obtain ⟨-, a, ha, hxa⟩ := (hstart t ht).2 x hx
  obtain ⟨⟨b, hb, hby⟩, -⟩ := (hstart u hu).2 y hy
  have hab := h.close t ht u hu a ha b hb
  omega

/-- A pick exists just when there are blocks in its place. -/
theorem exists_places_iff : (∃ start, T.Places start) ↔ ∃ pick, T.Fits pick := by
  refine ⟨?_, ?_⟩
  · intro ⟨start, h⟩
    exact ⟨T.block start, T.fits_block start h⟩
  · intro ⟨pick, h⟩
    obtain ⟨start, hs, -⟩ := T.exists_places_of_fits pick h
    exact ⟨start, hs⟩

theorem exists_places_above_iff (h : ∀ t ∈ T.terms, ∀ x ∈ T.occurrences t, 0 ≤ x) :
    (∃ start, T.Places start ∧ T.Above start) ↔ ∃ pick, T.Fits pick := by
  rw [← exists_places_iff]
  exact exists_congr fun start => and_iff_left (T.above_of_nonneg start h)

/-- No picked occurrence lies further than the distance below the position at which a search
starts. -/
def Reached (pick : String → List Int) : Prop :=
  ∀ t ∈ T.terms, ∀ x ∈ pick t, -1 - x ≤ (T.distance : Int)

theorem exists_places_above_iff_reached :
    (∃ start, T.Places start ∧ T.Above start) ↔ ∃ pick, T.Fits pick ∧ T.Reached pick := by
  refine ⟨fun h => ?_, fun h => ?_⟩
  · obtain ⟨start, hplaces, habove⟩ := h
    exact ⟨T.block start, T.fits_block start hplaces, habove⟩
  · obtain ⟨pick, hfits, hreached⟩ := h
    obtain ⟨start, hplaces, hbetween⟩ := T.exists_places_of_fits pick hfits
    refine ⟨start, hplaces, fun t ht x hx => ?_⟩
    obtain ⟨⟨y, hy, hle⟩, -⟩ := hbetween t ht x hx
    have hr := hreached t ht y hy
    omega

end Task

end TermWindow
