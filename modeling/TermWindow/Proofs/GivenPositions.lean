import TermWindow.Proofs.Refusals
import TermWindow.Proofs.StoredNumbers

/-!
# Slots that give positions

Slots of any values set a task as soon as the first slot of each term can be read. A search that
finds a window has read all of these, so that its question is such a task, whatever stands in the
other slots.
-/

namespace TermWindow

namespace Task

/-- The task of terms that occur at the given positions. -/
def ofPositions (distance : Nat) (terms : List String) (shared : Bool)
    (positions : String → Positions) : Task :=
  ⟨distance, terms, shared, fun t => (positions t).toList⟩

/-- The first slots of the terms give the positions. -/
def Gives (pairs : List (String × Value)) (positions : String → Positions) : Prop :=
  ∀ t v, pairs.lookup t = some v → v.isMissing = false → Positions.ofValue v = .ok (positions t)

theorem sorted_ofPositions (distance : Nat) (terms : List String) (shared : Bool)
    (positions : String → Positions) (t : String) :
    (ofPositions distance terms shared positions).sorted t = positions t :=
  Positions.ofList_toList (positions t)

theorem Gives.reads {pairs : List (String × Value)} {positions : String → Positions}
    (h : Gives pairs positions) (distance : Nat) (terms : List String) (shared : Bool) :
    (ofPositions distance terms shared positions).Reads pairs := by
  intro t v hv hgiven
  rw [sorted_ofPositions]
  exact h t v hv hgiven

theorem exists_gives (pairs : List (String × Value))
    (h : ∀ t v, pairs.lookup t = some v → v.isMissing = false → ∃ p, Positions.ofValue v = .ok p) :
    ∃ positions, Gives pairs positions := by
  have hex : ∀ t, ∃ p, ∀ v, pairs.lookup t = some v → v.isMissing = false →
      Positions.ofValue v = .ok p := by
    intro t
    cases hl : pairs.lookup t with
    | none => exact ⟨Positions.empty, by simp⟩
    | some v =>
      cases hgiven : v.isMissing with
      | true =>
        refine ⟨Positions.empty, fun w hw hw' => ?_⟩
        rw [Option.some.inj hw, hw'] at hgiven
        cases hgiven
      | false =>
        obtain ⟨p, hp⟩ := h t v hl hgiven
        exact ⟨p, fun w hw _ => Option.some.inj hw ▸ hp⟩
  choose positions hpositions using hex
  exact ⟨positions, hpositions⟩

end Task

namespace Search

theorem found_of_fits {T : Task} {slots : List Value} (hlen : slots.length = T.terms.length)
    (hreads : T.Reads (T.terms.zip slots)) (hne : T.terms ≠ [])
    (hgiven : ∀ v ∈ slots, v.isMissing = false) {pick : String → List Int} (hfits : T.Fits pick)
    (hreached : T.Reached pick) :
    ∃ s, start T.distance T.terms slots T.shared = .ok s ∧ s.found = true := by
  obtain ⟨s, hs, hfound⟩ := found_start_iff T slots hlen hreads
  have hwindow := T.exists_places_above_iff_reached.2 ⟨pick, hfits, hreached⟩
  exact ⟨s, hs, hfound.2 ⟨hne, hgiven, hwindow⟩⟩

/-! ### What a search with an answer has read -/

/-- Slots that are read without a refusal leave nothing in the queue, or all that count are read. -/
theorem fill_reads (needed : String → Nat) (pairs : List (String × Value)) (s s' : Search)
    (hpos : ∀ q ∈ pairs, 0 < needed q.1) (hs : fill needed s pairs = .ok s') :
    s'.queue = [] ∨ ∀ t v, s.holds t = false → pairs.lookup t = some v →
      ∃ p, Positions.ofValue v = .ok p := by
  induction pairs generalizing s with
  | nil =>
    exact Or.inr fun t v _ hv => by cases hv
  | cons pair rest ih =>
    obtain ⟨t, v⟩ := pair
    have hpos' := List.forall_mem_cons.1 hpos
    cases hgiven : v.isMissing with
    | true =>
      obtain rfl : s.abandon = s' := by simpa [fill, hgiven] using hs
      exact Or.inl rfl
    | false =>
      cases hholds : s.holds t with
      | true =>
        have hskip : fill needed s rest = .ok s' := by simpa [fill, hgiven, hholds] using hs
        refine (ih s hpos'.2 hskip).imp_right fun hread u w hu hw => ?_
        have hne : u ≠ t := by
          rintro rfl
          rw [hholds] at hu
          cases hu
        rw [List.lookup_cons, beq_eq_false_iff_ne.2 hne] at hw
        exact hread u w hu hw
      | false =>
        cases hv : Positions.ofValue v with
        | error refused =>
          rw [fill_refused needed s t v rest hpos'.1 hgiven hholds hv] at hs
          cases hs
        | ok p =>
          rcases fill_new needed s t v p hpos'.1 hgiven hholds hv with
            ⟨heq, -⟩ | ⟨r, low, high, rfl, -, -, -, -, -, -, heq⟩
          · obtain rfl := Except.ok.inj ((heq rest).symm.trans hs)
            exact Or.inl rfl
          · have hrest := ih (s.enter r low high) hpos'.2 ((heq rest).symm.trans hs)
            refine hrest.imp_right fun hread u w hu hw => ?_
            -- From here on the term is held, and no other slot of it counts.
            by_cases heq : u = r.term
            · subst heq
              rw [List.lookup_cons_self] at hw
              exact ⟨p, Option.some.inj hw ▸ hv⟩
            · rw [List.lookup_cons, beq_eq_false_iff_ne.2 heq] at hw
              have hu' : (s.enter r low high).holds u = false := by
                rw [Bool.eq_false_iff, ne_eq, holds_enter_iff, hu]
                simp [heq]
              exact hread u w hu' hw

theorem exists_gives_of_found (distance : Nat) (terms : List String) (slots : List Value)
    (shared : Bool) (s : Search) (hs : start distance terms slots shared = .ok s)
    (hf : s.found = true) : ∃ positions, Task.Gives (terms.zip slots) positions := by
  have hlen := length_eq_of_found distance terms slots shared s hs hf
  have hpos : ∀ q ∈ terms.zip slots, 0 < Demand.needed shared terms q.1 :=
    fun q hq => Demand.needed_pos shared (List.of_mem_zip hq).1
  have ha := answer_of_start hs
  rw [start_eq_fill distance shared hlen] at hs
  rcases fill_reads _ _ _ s hpos hs with hqueue | hread
  · rw [found_of_no_queue s ha hqueue] at hf
    cases hf
  · exact Task.exists_gives _ fun t v hv _ => hread t v rfl hv

end Search

end TermWindow
