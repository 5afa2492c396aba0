import Mathlib.Algebra.Group.Int.Defs
import TermWindow.Proofs.Tables
import TermWindow.Proofs.Task

/-!
# Slots

Numbers that 63 bits hold are read as they are, whatever their order. A slot either gives such
numbers or is missing, and the slots of a query set a task: each term occurs where its first slot
says.
-/

namespace TermWindow

def Value.slot : Option (List Int) → Value
  | some xs => ofInts xs
  | none => missing

theorem Value.isMissing_slot (slot : Option (List Int)) :
    (Value.slot slot).isMissing = slot.isNone := by
  cases slot <;> rfl

namespace Positions

/-- Whether a number is stored as it is and may stand among positions. -/
def Plain (x : Int) : Prop := 0 ≤ x ∧ x < 2 ^ 63

/-! ### Reading numbers -/

theorem ofItems_whole (xs : List Int) :
    Shape.ofItems (xs.map Value.whole) = .regular [xs.length] := by
  have hflat : ∀ v ∈ xs.map Value.whole, v.items? = none := by
    intro v hv
    obtain ⟨x, -, rfl⟩ := List.mem_map.1 hv
    rfl
  rw [Shape.ofItems_flat hflat, List.length_map]

theorem ofValue_plain (x : Int) (h : Plain x) : Kind.ofValue (.whole x) = .signed := by
  unfold Plain at h
  have hlow : -Kind.signedEnd ≤ x := by
    unfold Kind.signedEnd
    omega
  have hhigh : x < Kind.signedEnd := by
    unfold Kind.signedEnd
    omega
  simp [Kind.ofValue, Kind.isSigned, hlow, hhigh]

theorem ofValues_plain (x : Int) (xs : List Int) (h : ∀ y ∈ x :: xs, Plain y) :
    Kind.ofValues (.whole x) (xs.map Value.whole) = .signed := by
  have hx := List.forall_mem_cons.1 h
  unfold Kind.ofValues
  rw [ofValue_plain x hx.1]
  -- a signed number joined with another one stays signed
  induction xs with
  | nil => rfl
  | cons y ys ih =>
    have hy := List.forall_mem_cons.1 hx.2
    rw [List.map_cons, List.foldl_cons, ofValue_plain y hy.1, Kind.join_self]
    exact ih (List.forall_mem_cons.2 ⟨hx.1, hy.2⟩) ⟨hx.1, hy.2⟩

theorem filterMap_number?_whole (xs : List Int) :
    (xs.map Value.whole).filterMap number? = xs := by
  induction xs with
  | nil => rfl
  | cons x xs ih =>
    have hx : number? (.whole x) = some x := rfl
    rw [List.map_cons, List.filterMap_cons_some hx, ih]

theorem stored_plain (x : Int) (h : Plain x) : stored x = x := by
  unfold Plain at h
  exact Int.bmod_eq_of_le (by omega) (by omega)

theorem map_stored_plain (xs : List Int) (h : ∀ x ∈ xs, Plain x) : xs.map stored = xs :=
  (List.map_congr_left fun x hx => stored_plain x (h x hx)).trans (List.map_id xs)

theorem empty_eq_ofList : empty = ofList [] := by
  simp [empty, ofList]

theorem ofElements_plain (xs : List Int) (h : ∀ x ∈ xs, Plain x) :
    ofElements (xs.map Value.whole) = .ok (ofList xs) := by
  unfold ofElements
  rw [ofItems_whole]
  show ofFlat (xs.map Value.whole) = .ok (ofList xs)
  cases xs with
  | nil =>
    rw [← empty_eq_ofList]
    rfl
  | cons x xs =>
    rw [List.map_cons, ofFlat, ofValues_plain x xs h, ← List.map_cons, filterMap_number?_whole]
    obtain ⟨least, hleast⟩ : ∃ least, (x :: xs).min? = some least := by
      simp [List.min?_cons]
    have hpos : ¬least < 0 := by
      have hmem := h least (List.min?_mem hleast)
      unfold Plain at hmem
      omega
    simp only [Kind.isWhole, hleast, hpos, map_stored_plain (x :: xs) h]
    rfl

theorem ofValue_ofInts (xs : List Int) (h : ∀ x ∈ xs, Plain x) :
    ofValue (Value.ofInts xs) = .ok (ofList xs) :=
  ofElements_plain xs h

end Positions

namespace Task

/-! ### The task of a query -/

def firstSlot (terms : List String) (slots : List (Option (List Int))) (term : String) :
    List Int :=
  (((terms.zip slots).lookup term).getD none).getD []

/-- The task that a query with the given slots sets. -/
def ofSlots (distance : Nat) (terms : List String) (slots : List (Option (List Int)))
    (shared : Bool) : Task :=
  ⟨distance, terms, shared, firstSlot terms slots⟩

/-- The first slots of the terms give the occurrences of the task. -/
def Reads (T : Task) (pairs : List (String × Value)) : Prop :=
  ∀ t v, pairs.lookup t = some v → v.isMissing = false →
    Positions.ofValue v = .ok (T.sorted t)

theorem lookup_zip_map {α β : Type} (f : α → β) (terms : List String) (slots : List α)
    (term : String) :
    (terms.zip (slots.map f)).lookup term = ((terms.zip slots).lookup term).map f := by
  induction terms generalizing slots with
  | nil => rfl
  | cons t terms ih =>
    cases slots with
    | nil => rfl
    | cons slot slots =>
      simp only [List.map_cons, List.zip_cons_cons, List.lookup_cons]
      cases term == t with
      | true => rfl
      | false => exact ih slots

theorem ofSlots_map (f : List Int → List Int) (hf : f [] = []) (distance : Nat)
    (terms : List String) (slots : List (Option (List Int))) (shared : Bool) :
    ofSlots distance terms (slots.map (Option.map f)) shared =
      ⟨distance, terms, shared, fun t => f (firstSlot terms slots t)⟩ := by
  have hfirst : ∀ t, firstSlot terms (slots.map (Option.map f)) t =
      f (firstSlot terms slots t) := by
    intro t
    rw [firstSlot, firstSlot, lookup_zip_map]
    rcases (terms.zip slots).lookup t with _ | _ | xs <;> simp [hf]
  rw [ofSlots, funext hfirst]

theorem mem_of_lookup_zip (terms : List String) (slots : List (Option (List Int)))
    (term : String) (slot : Option (List Int))
    (h : (terms.zip slots).lookup term = some slot) : slot ∈ slots := by
  obtain ⟨l₁, l₂, heq, -⟩ := List.lookup_eq_some_iff.1 h
  have hm : (term, slot) ∈ terms.zip slots := by
    rw [heq]
    simp
  exact (List.of_mem_zip hm).2

theorem reads_ofSlots (distance : Nat) (terms : List String) (slots : List (Option (List Int)))
    (shared : Bool) (h : ∀ xs, some xs ∈ slots → ∀ x ∈ xs, Positions.Plain x) :
    (ofSlots distance terms slots shared).Reads (terms.zip (slots.map Value.slot)) := by
  intro t v hv hgiven
  rw [lookup_zip_map] at hv
  obtain ⟨slot, hslot, rfl⟩ := Option.map_eq_some_iff.1 hv
  cases slot with
  | none => cases hgiven
  | some xs =>
    have hm := mem_of_lookup_zip terms slots t (some xs) hslot
    have hocc : (ofSlots distance terms slots shared).occurrences t = xs := by
      simp [ofSlots, firstSlot, hslot]
    rw [sorted, hocc]
    exact Positions.ofValue_ofInts xs (h xs hm)

theorem plain_firstSlot (terms : List String) (slots : List (Option (List Int)))
    (h : ∀ xs, some xs ∈ slots → ∀ x ∈ xs, Positions.Plain x) (term : String) :
    ∀ x ∈ firstSlot terms slots term, Positions.Plain x := by
  unfold firstSlot
  cases hl : (terms.zip slots).lookup term with
  | none => simp
  | some slot =>
    cases slot with
    | none => simp
    | some xs =>
      have hm := mem_of_lookup_zip terms slots term (some xs) hl
      exact h xs hm

end Task

end TermWindow
