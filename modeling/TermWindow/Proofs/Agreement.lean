import TermWindow.Choice
import TermWindow.Proofs.SearchStart

/-!
# Search and choice agree

The brute-force choice answers its task exactly: it says yes just when positions can be picked that
fit. A search looks at blocks only and never goes back, and still comes to the same answer.
-/

namespace TermWindow

namespace Choice

/-! ### Picks of all terms -/

theorem anyFits_iff (distance : Nat) (terms : List String) (hn : terms.Nodup)
    (count : String → Nat) (positions : String → List Int) (e : Extent) :
    anyFits distance e (terms.map fun t => (count t, positions t)) = true ↔
      ∃ pick : String → List Int,
        (∀ t ∈ terms, (pick t).Sublist (positions t) ∧ (pick t).length = count t) ∧
          ((terms.flatMap pick).foldl Extent.widen e).within distance = true := by
  induction terms generalizing e with
  | nil =>
    refine ⟨?_, ?_⟩
    · intro h
      exact ⟨fun _ => [], by simp, h⟩
    · intro ⟨_, _, h⟩
      exact h
  | cons t terms ih =>
    have ht := List.nodup_cons.1 hn
    rw [List.map_cons, anyFits, anyPick_iff (by omega) fun f hf => within_of_anyFits hf]
    refine ⟨?_, ?_⟩
    · intro ⟨ys, hsub, hlen, hrest⟩
      obtain ⟨pick, hpick, hw⟩ := (ih ht.2 _).1 hrest
      have hother : ∀ u ∈ terms, Function.update pick t ys u = pick u := by
        intro u hu
        have hne : u ≠ t := fun heq => ht.1 (heq ▸ hu)
        exact Function.update_of_ne hne ys pick
      refine ⟨Function.update pick t ys, ?_, ?_⟩
      · refine List.forall_mem_cons.2 ⟨?_, fun u hu => ?_⟩
        · rw [Function.update_self]
          exact ⟨hsub, hlen⟩
        · rw [hother u hu]
          exact hpick u hu
      · rw [List.flatMap_cons, Function.update_self, List.foldl_append,
          List.flatMap_congr hother]
        exact hw
    · intro ⟨pick, hpick, hw⟩
      have hcons := List.forall_mem_cons.1 hpick
      rw [List.flatMap_cons, List.foldl_append] at hw
      exact ⟨pick t, hcons.1.1, hcons.1.2, (ih ht.2 _).2 ⟨pick, hcons.2, hw⟩⟩

def demands (T : Task) : List (Nat × List Int) :=
  (Demand.distinct T.terms).map fun t => (T.needed t, (T.sorted t).toList)

theorem anyFits_demands (T : Task) :
    anyFits T.distance .empty (demands T) = true ↔ ∃ pick, T.Fits pick := by
  rw [demands, anyFits_iff _ _ (Demand.nodup_distinct _)]
  simp only [Extent.within_foldl_iff, List.mem_flatMap, Demand.mem_distinct]
  refine ⟨?_, ?_⟩
  · intro ⟨pick, hpick, hw⟩
    refine ⟨pick, ⟨fun t ht => ?_, fun t ht => (hpick t ht).2, ?_⟩⟩
    · exact (T.perm_sorted t).subperm_left.1 (hpick t ht).1.subperm
    · intro t ht u hu x hx y hy
      exact hw x ⟨t, ht, hx⟩ y ⟨u, hu, hy⟩
  · intro hfits
    obtain ⟨start, hp⟩ := T.exists_places_iff.2 hfits
    have hb := T.fits_block start hp
    refine ⟨T.block start, fun t ht => ⟨(T.sorted t).sublist_block _ _, hb.enough t ht⟩, ?_⟩
    intro x hpx y hpy
    obtain ⟨t, ht, hx⟩ := hpx
    obtain ⟨u, hu, hy⟩ := hpy
    exact hp.close t ht u hu x hx y hy

/-! ### Reading the slots -/

def Gathered (T : Task) (done : List String) (found : Table Positions) : Prop :=
  found.entries = (Demand.distinct done).map fun t => (t, T.sorted t)

theorem Gathered.keys {T : Task} {done : List String} {found : Table Positions}
    (h : Gathered T done found) : found.keys = Demand.distinct done := by
  rw [Table.keys, h, List.map_map]
  exact List.map_id _

theorem Gathered.isSome_iff {T : Task} {done : List String} {found : Table Positions}
    (h : Gathered T done found) (t : String) : (found.get? t).isSome = true ↔ t ∈ done := by
  rw [Table.get?_isSome_iff, h.keys, Demand.mem_distinct]

theorem Gathered.skip {T : Task} {done : List String} {found : Table Positions}
    (h : Gathered T done found) (t : String) (ht : t ∈ done) : Gathered T (done ++ [t]) found := by
  rw [Gathered, Demand.distinct_concat, if_pos ht]
  exact h

theorem Gathered.insert {T : Task} {done : List String} {found : Table Positions}
    (h : Gathered T done found) (t : String) (ht : t ∉ done) :
    Gathered T (done ++ [t]) (found.insert t (T.sorted t)) := by
  have hk : t ∉ found.entries.map Prod.fst := by
    have hkeys := h.keys
    rw [Table.keys] at hkeys
    rw [hkeys, Demand.mem_distinct]
    exact ht
  rw [Gathered, Demand.distinct_concat, if_neg ht, List.map_append]
  show Table.put t (T.sorted t) found.entries = _
  rw [Table.put_of_not_mem t _ _ hk, h]
  rfl

/-- Where the reading of some slots ends: the terms have their positions, or a slot is missing. -/
def Collected (T : Task) (terms : List String) (slots : List Value) :
    Option (Table Positions) → Prop
  | some found => Gathered T terms found ∧ ∀ v ∈ slots, v.isMissing = false
  | none => ∃ v ∈ slots, v.isMissing = true

theorem Collected.cons {T : Task} {terms : List String} {slots : List Value}
    {gathered : Option (Table Positions)} (h : Collected T terms slots gathered) (v : Value)
    (hgiven : v.isMissing = false) : Collected T terms (v :: slots) gathered := by
  cases gathered with
  | some found => exact ⟨h.1, List.forall_mem_cons.2 ⟨hgiven, h.2⟩⟩
  | none =>
    obtain ⟨w, hw, hmissing⟩ := h
    exact ⟨w, List.mem_cons_of_mem v hw, hmissing⟩

theorem gather_cases (T : Task) (before rest : List (String × Value)) (found : Table Positions)
    (hreads : T.Reads (before ++ rest)) (h : Gathered T (before.map Prod.fst) found) :
    ∃ gathered, gather found rest = .ok gathered ∧
      Collected T ((before ++ rest).map Prod.fst) (rest.map Prod.snd) gathered := by
  induction rest generalizing before found with
  | nil =>
    rw [List.append_nil]
    exact ⟨some found, rfl, h, by simp⟩
  | cons p rest ih =>
    obtain ⟨t, v⟩ := p
    have happ : before ++ (t, v) :: rest = (before ++ [(t, v)]) ++ rest := by simp
    cases hgiven : v.isMissing with
    | true => exact ⟨none, by simp [gather, hgiven], v, by simp, hgiven⟩
    | false =>
      -- the rest is read into a table that also has this slot
      have hnext : ∀ found₁, Gathered T (before.map Prod.fst ++ [t]) found₁ →
          gather found ((t, v) :: rest) = gather found₁ rest →
          ∃ gathered, gather found ((t, v) :: rest) = .ok gathered ∧
            Collected T ((before ++ (t, v) :: rest).map Prod.fst) (v :: rest.map Prod.snd)
              gathered := by
        intro found₁ hfound heq
        rw [happ] at hreads ⊢
        have hdone : Gathered T ((before ++ [(t, v)]).map Prod.fst) found₁ := by
          rw [List.map_append]
          exact hfound
        obtain ⟨gathered, hg, hc⟩ := ih (before ++ [(t, v)]) found₁ hreads hdone
        exact ⟨gathered, heq.trans hg, hc.cons v hgiven⟩
      by_cases hd : t ∈ before.map Prod.fst
      · have hsome := (h.isSome_iff t).2 hd
        exact hnext found (h.skip t hd) (by simp [gather, hgiven, hsome])
      · have hnone : (found.get? t).isSome = false := by
          rw [Bool.eq_false_iff]
          exact fun hs => hd ((h.isSome_iff t).1 hs)
        have hv := hreads t v (Table.lookup_of_new before rest t v hd) hgiven
        apply hnext (found.insert t (T.sorted t)) (h.insert t hd)
        simp only [gather, hgiven, hnone, Bool.false_eq_true, if_false, hv]
        rfl

theorem Gathered.demands_eq {T : Task} {found : Table Positions} (h : Gathered T T.terms found) :
    (found.entries.map fun (term, positions) =>
      (Demand.needed T.shared T.terms term, positions.toList)) = demands T := by
  rw [h, List.map_map]
  rfl

theorem all_demands_of_fits (T : Task) (pick : String → List Int) (h : T.Fits pick) :
    (demands T).all (fun (n, positions) => n ≤ positions.length) = true := by
  apply List.all_eq_true.2
  intro demand hd
  obtain ⟨t, ht, rfl⟩ := List.mem_map.1 hd
  have ht' := (Demand.mem_distinct t T.terms).1 ht
  have hle := (h.taken t ht').length_le
  rw [h.enough t ht', ← T.size_sorted, Positions.size_eq_length] at hle
  exact decide_eq_true hle

theorem possible_of_gather (distance : Nat) (terms : List String) (slots : List Value)
    (shared : Bool) (hlen : slots.length = terms.length) (hne : terms ≠ []) :
    possible distance terms slots shared =
      (gather Table.empty (terms.zip slots)).bind fun gathered =>
        match gathered with
        | none => .ok false
        | some found =>
          let demands := found.entries.map fun (term, positions) =>
            (Demand.needed shared terms term, positions.toList)
          .ok (demands.all (fun (n, positions) => n ≤ positions.length) &&
            anyFits distance .empty demands) := by
  have hempty : terms.isEmpty = false := by simpa using hne
  have hfew : ¬slots.length < terms.length := by omega
  have hmany : ¬terms.length < slots.length := by omega
  simp only [possible, hempty, hfew, hmany, decide_false, Bool.or_self, Bool.false_eq_true,
    if_false]
  rfl

/-- The choice is possible just when all slots are given and positions of all terms fit. -/
theorem possible_iff (T : Task) (slots : List Value) (hlen : slots.length = T.terms.length)
    (hreads : T.Reads (T.terms.zip slots)) :
    ∃ b, possible T.distance T.terms slots T.shared = .ok b ∧
      (b = true ↔ T.terms ≠ [] ∧ (∀ v ∈ slots, v.isMissing = false) ∧ ∃ pick, T.Fits pick) := by
  have hfst : (T.terms.zip slots).map Prod.fst = T.terms := List.map_fst_zip (by omega)
  have hsnd : (T.terms.zip slots).map Prod.snd = slots := List.map_snd_zip (by omega)
  by_cases hne : T.terms = []
  · exact ⟨false, by simp [possible, hne], by simp [hne]⟩
  · have hgathered : Gathered T [] Table.empty := rfl
    rw [possible_of_gather T.distance T.terms slots T.shared hlen hne]
    obtain ⟨gathered, hg, hc⟩ := gather_cases T [] (T.terms.zip slots) Table.empty hreads hgathered
    rw [List.nil_append, hfst, hsnd] at hc
    rw [hg]
    cases gathered with
    | some found =>
      refine ⟨_, rfl, ?_⟩
      rw [hc.1.demands_eq, Bool.and_eq_true, anyFits_demands]
      refine ⟨?_, ?_⟩
      · intro ⟨_, hfits⟩
        exact ⟨hne, hc.2, hfits⟩
      · intro ⟨_, _, pick, hfits⟩
        exact ⟨all_demands_of_fits T pick hfits, pick, hfits⟩
    | none =>
      obtain ⟨v, hv, hm⟩ := hc
      refine ⟨false, rfl, iff_of_false Bool.false_ne_true ?_⟩
      intro hposs
      obtain ⟨-, hall, -⟩ := hposs
      rw [hall v hv] at hm
      cases hm

end Choice

/-! ### The same answer -/

theorem Search.found_iterate_settle (s : Search) (n : Nat) :
    (Search.settle^[n] s).found = s.found := by
  induction n generalizing s with
  | zero => rfl
  | succ n ih =>
    rw [Function.iterate_succ_apply, ih, found, found, settle_settle]

theorem Task.missing_iff (slots : List (Option (List Int))) :
    (∀ v ∈ slots.map Value.slot, v.isMissing = false) ↔ none ∉ slots := by
  refine ⟨?_, ?_⟩
  · intro h hnone
    have hv := h (Value.slot none) (List.mem_map_of_mem hnone)
    cases hv
  · intro h v hv
    obtain ⟨slot, hslot, rfl⟩ := List.mem_map.1 hv
    cases slot with
    | none => exact absurd hslot h
    | some xs => rfl

/-- Over given numbers a search and the brute-force choice give one answer: whether occurrences of
all terms fit. -/
theorem answers_ofSlots (distance : Nat) (terms : List String) (slots : List (Option (List Int)))
    (shared : Bool) (hlen : slots.length = terms.length)
    (hplain : ∀ xs, some xs ∈ slots → ∀ x ∈ xs, Positions.Plain x) :
    ∃ s b, Search.start distance terms (slots.map Value.slot) shared = .ok s ∧
      Choice.possible distance terms (slots.map Value.slot) shared = .ok b ∧ s.found = b ∧
      (b = true ↔ terms ≠ [] ∧ none ∉ slots ∧
        ∃ pick, (Task.ofSlots distance terms slots shared).Fits pick) := by
  have hlen' : (slots.map Value.slot).length = terms.length := by rw [List.length_map, hlen]
  have hreads := Task.reads_ofSlots distance terms slots shared hplain
  obtain ⟨s, hs, hfound⟩ := Search.found_start_iff _ _ hlen' hreads
  obtain ⟨b, hb, hpossible⟩ := Choice.possible_iff _ _ hlen' hreads
  rw [Task.exists_places_above_iff _ fun t _ x hx =>
    (Task.plain_firstSlot terms slots hplain t x hx).1] at hfound
  rw [Task.missing_iff] at hpossible hfound
  exact ⟨s, b, hs, hb, Bool.eq_iff_iff.2 (hfound.trans hpossible.symm), hpossible⟩

/-- A search over given numbers starts, and each time it is asked for a window it gives the answer
of the brute-force choice: whether occurrences of all terms fit. -/
theorem found_eq_possible (distance : Nat) (terms : List String)
    (slots : List (Option (List Int))) (shared : Bool) (hlen : slots.length = terms.length)
    (hplain : ∀ xs, some xs ∈ slots → ∀ x ∈ xs, Positions.Plain x) :
    ∃ s b,
      Search.ofValues (.whole distance) terms (.list (slots.map Value.slot)) shared = .ok s ∧
      Choice.ofValues (.whole distance) terms (.list (slots.map Value.slot)) shared = .ok b ∧
      (∀ n, (Search.settle^[n] s).found = b) ∧
      (b = true ↔ terms ≠ [] ∧ none ∉ slots ∧
        ∃ pick, (Task.ofSlots distance terms slots shared).Fits pick) := by
  obtain ⟨s, b, hs, hb, hfound, hiff⟩ :=
    answers_ofSlots distance terms slots shared hlen hplain
  refine ⟨s, b, hs, hb, fun n => ?_, hiff⟩
  rw [Search.found_iterate_settle, hfound]

/-- A repeated term with its positions out of order, and a term with a position given twice. -/
theorem found_eq_possible_repeated :
    let slots : List (Option (List Int)) := [some [9, 5, 6], some [7, 7], some []]
    ∃ s, Search.ofValues (.whole 4) ["a", "b", "a"] (.list (slots.map Value.slot)) false = .ok s ∧
      Choice.ofValues (.whole 4) ["a", "b", "a"] (.list (slots.map Value.slot)) false = .ok true ∧
      ∀ n, (Search.settle^[n] s).found = true := by
  intro slots
  have hplain : ∀ xs, some xs ∈ slots → ∀ x ∈ xs, Positions.Plain x := by
    simp [slots, Positions.Plain]
  obtain ⟨s, b, hs, hb, hfound, hiff⟩ :=
    found_eq_possible 4 ["a", "b", "a"] slots false rfl hplain
  have hfits : (Task.ofSlots 4 ["a", "b", "a"] slots false).Fits
      fun t => if t = "a" then [5, 6] else [7] := by
    exact ⟨by decide, by decide, by decide⟩
  have hyes : b = true := hiff.2 ⟨by decide, by decide, _, hfits⟩
  subst hyes
  exact ⟨s, hs, hb, hfound⟩

end TermWindow
