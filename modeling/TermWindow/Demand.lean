import TermWindow.Table

/-!
# Demand of positions

A term that is listed several times needs that many positions at once, unless its repetitions may
share one.
-/

namespace TermWindow.Demand

/-- Each term once, in the order of first occurrence. -/
def distinct : List String → List String
  | [] => []
  | t :: ts => t :: (distinct ts).filter (· ≠ t)

theorem mem_distinct (t : String) (ts : List String) : t ∈ distinct ts ↔ t ∈ ts := by
  induction ts with
  | nil => rfl
  | cons s ts ih =>
    by_cases h : t = s <;> simp [distinct, ih, h]

theorem nodup_distinct (ts : List String) : (distinct ts).Nodup := by
  induction ts with
  | nil => exact List.nodup_nil
  | cons t ts ih => exact List.nodup_cons.2 ⟨by simp, ih.filter _⟩

/-- How many positions a term needs at once. -/
def needed (shared : Bool) (terms : List String) (term : String) : Nat :=
  if shared then 1 else terms.count term

theorem needed_pos (shared : Bool) {terms : List String} {term : String} (h : term ∈ terms) :
    1 ≤ needed shared terms term := by
  unfold needed
  split
  · exact Nat.le_refl 1
  · exact List.count_pos_iff.2 h

def ofTerms (shared : Bool) (terms : List String) : List (String × Nat) :=
  (distinct terms).map fun t => (t, needed shared terms t)

end TermWindow.Demand
