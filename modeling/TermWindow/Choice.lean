import TermWindow.Demand
import TermWindow.Distance
import TermWindow.Positions

/-!
# Choices of positions

The question that a search answers, answered by trying everything: whether for every term as many
of its positions as it needs can be chosen so that all chosen positions lie within the distance of
each other. The number of choices grows fast with the number of positions.
-/

namespace TermWindow.Choice

/-! ### How far chosen positions spread -/

/-- The least and the greatest of the positions chosen so far. -/
inductive Extent where
  | empty
  | between (least greatest : Int)

namespace Extent

def widen : Extent → Int → Extent
  | empty, x => between x x
  | between least greatest, x => between (min least x) (max greatest x)

/-- Whether no two of the positions are further apart than the distance. -/
def within (distance : Nat) : Extent → Bool
  | empty => true
  | between least greatest => greatest - least ≤ (distance : Int)

theorem within_of_widen {distance : Nat} {e : Extent} {x : Int}
    (h : (e.widen x).within distance = true) : e.within distance = true := by
  cases e with
  | empty => rfl
  | between least greatest =>
    simp only [widen, within, decide_eq_true_eq] at h ⊢
    omega

theorem within_of_foldl {distance : Nat} {e : Extent} (xs : List Int)
    (h : (xs.foldl widen e).within distance = true) : e.within distance = true := by
  induction xs generalizing e with
  | nil => exact h
  | cons x xs ih => exact within_of_widen (ih h)

theorem within_foldl_between (distance : Nat) (xs : List Int) (a b : Int) :
    (xs.foldl widen (between a b)).within distance = true ↔
      b - a ≤ (distance : Int) ∧ ∀ x ∈ xs, x - a ≤ (distance : Int) ∧ b - x ≤ (distance : Int) ∧
        ∀ y ∈ xs, x - y ≤ (distance : Int) := by
  induction xs generalizing a b with
  | nil => simp [within]
  | cons z zs ih =>
    rw [List.foldl_cons, widen, ih]
    constructor
    · intro ⟨hab, h⟩
      refine ⟨by omega, fun x hx => ?_⟩
      have hz : ∀ y ∈ zs, y - z ≤ (distance : Int) ∧ z - y ≤ (distance : Int) := by
        intro y hy
        have hy' := h y hy
        omega
      rcases List.mem_cons.1 hx with rfl | ht
      · refine ⟨by omega, by omega, fun y hy => ?_⟩
        rcases List.mem_cons.1 hy with rfl | hs
        · omega
        · exact (hz y hs).2
      · have hx' := h x ht
        refine ⟨by omega, by omega, fun y hy => ?_⟩
        rcases List.mem_cons.1 hy with rfl | hs
        · exact (hz x ht).1
        · exact hx'.2.2 y hs
    · intro ⟨hab, h⟩
      have hz := h z (List.mem_cons_self ..)
      refine ⟨by omega, fun x hx => ?_⟩
      have hx' := h x (List.mem_cons_of_mem _ hx)
      have hxz := hx'.2.2 z (List.mem_cons_self ..)
      have hzx := hz.2.2 x (List.mem_cons_of_mem _ hx)
      exact ⟨by omega, by omega, fun y hy => hx'.2.2 y (List.mem_cons_of_mem _ hy)⟩

theorem within_foldl_iff (distance : Nat) (xs : List Int) :
    (xs.foldl widen empty).within distance = true ↔
      ∀ x ∈ xs, ∀ y ∈ xs, x - y ≤ (distance : Int) := by
  cases xs with
  | nil => simp [within]
  | cons z zs =>
    rw [List.foldl_cons, widen, within_foldl_between]
    constructor
    · intro ⟨hz, h⟩ x hx y hy
      rcases List.mem_cons.1 hx with rfl | ht
      · rcases List.mem_cons.1 hy with rfl | hs
        · exact hz
        · exact (h y hs).2.1
      · rcases List.mem_cons.1 hy with rfl | hs
        · exact (h x ht).1
        · exact (h x ht).2.2 y hs
    · intro h
      have hz : z ∈ z :: zs := List.mem_cons_self ..
      have ht : ∀ y ∈ zs, y ∈ z :: zs := fun y hy => List.mem_cons_of_mem _ hy
      exact ⟨h z hz z hz, fun x hx =>
        ⟨h x (ht x hx) z hz, h z hz x (ht x hx), fun y hy => h x (ht x hx) y (ht y hy)⟩⟩

end Extent

/-! ### Choosing -/

/-- Whether `p` holds of an extent after some `n` items of a list are added to it, of which none may
break the distance. No more than `spare` items are left out on the way. -/
def anyPick (distance : Nat) : Nat → Nat → List Int → Extent → (Extent → Bool) → Bool
  | 0, _, _, e, p => p e
  | _ + 1, _, [], _, _ => false
  | n + 1, spare, x :: xs, e, p =>
    ((e.widen x).within distance && anyPick distance n spare xs (e.widen x) p) ||
      (spare ≠ 0 && anyPick distance (n + 1) (spare - 1) xs e p)

theorem anyPick_iff {distance n spare : Nat} {xs : List Int} {e : Extent} {p : Extent → Bool}
    (hs : xs.length ≤ n + spare) (hp : ∀ f, p f = true → f.within distance = true) :
    anyPick distance n spare xs e p = true ↔
      ∃ ys : List Int, ys.Sublist xs ∧ ys.length = n ∧ p (ys.foldl Extent.widen e) = true := by
  induction xs generalizing n spare e with
  | nil =>
    cases n with
    | zero =>
      unfold anyPick
      constructor
      · exact fun h => ⟨[], List.Sublist.refl _, rfl, h⟩
      · intro ⟨ys, ht, _, h⟩
        rwa [List.sublist_nil.1 ht] at h
    | succ n =>
      simp only [anyPick, Bool.false_eq_true, false_iff]
      intro ⟨ys, ht, hl, _⟩
      rw [List.sublist_nil.1 ht] at hl
      exact absurd hl (by simp)
  | cons x xs ih =>
    rw [List.length_cons] at hs
    cases n with
    | zero =>
      unfold anyPick
      constructor
      · exact fun h => ⟨[], List.nil_sublist _, rfl, h⟩
      · intro ⟨ys, _, hl, h⟩
        rwa [List.length_eq_zero_iff.1 hl] at h
    | succ n =>
      unfold anyPick
      rw [Bool.or_eq_true, Bool.and_eq_true, Bool.and_eq_true, decide_eq_true_eq,
        ih (by omega)]
      constructor
      · intro h
        rcases h with ⟨_, ys, ht, hl, h⟩ | ⟨hn, h⟩
        · exact ⟨x :: ys, ht.cons_cons x, by rw [List.length_cons, hl], h⟩
        · obtain ⟨ys, ht, hl, h⟩ := (ih (by omega)).1 h
          exact ⟨ys, ht.cons x, hl, h⟩
      · intro ⟨ys, ht, hl, h⟩
        rcases List.sublist_cons_iff.1 ht with hr | ⟨zs, rfl, hr⟩
        · have hc := hr.length_le
          have hn : spare ≠ 0 := by omega
          exact .inr ⟨hn, (ih (by omega)).2 ⟨ys, hr, hl, h⟩⟩
        · exact .inl ⟨Extent.within_of_foldl zs (hp _ h), zs, hr, Nat.succ.inj hl, h⟩

/-- Whether as many positions as each demand says can be taken from its list, so that they and
those of an extent do not break the distance. -/
def anyFits (distance : Nat) (e : Extent) : List (Nat × List Int) → Bool
  | [] => e.within distance
  | (n, positions) :: demands =>
    anyPick distance n (positions.length - n) positions e fun f => anyFits distance f demands

theorem within_of_anyFits {distance : Nat} {e : Extent} {demands : List (Nat × List Int)}
    (h : anyFits distance e demands = true) : e.within distance = true := by
  induction demands generalizing e with
  | nil => exact h
  | cons demand demands ih =>
    obtain ⟨n, positions⟩ := demand
    obtain ⟨ys, _, _, hy⟩ := (anyPick_iff (by omega) fun f hf => ih hf).1 h
    exact Extent.within_of_foldl ys (ih hy)

/-! ### Reading the slots -/

/-- The positions of each term, from the first of its slots. A missing slot leaves nothing. -/
def gather (found : Table Positions) :
    List (String × Value) → Except Fault (Option (Table Positions))
  | [] => .ok (some found)
  | (term, slot) :: rest =>
    if slot.isMissing then .ok none
    else if (found.get? term).isSome then gather found rest
    else do gather (found.insert term (← Positions.ofValue slot)) rest

/-- Whether positions can be chosen for all terms from the positions in their slots. Nothing is
tried where a term has too few of them. -/
def possible (distance : Nat) (terms : List String) (slots : List Value) (shared : Bool) :
    Except Fault Bool :=
  if terms.isEmpty || slots.length < terms.length then .ok false
  else if terms.length < slots.length then .error (.surplusLists terms.length slots.length)
  else do
    match ← gather Table.empty (terms.zip slots) with
    | none => return false
    | some found =>
      let demands := found.entries.map fun (term, positions) =>
        (Demand.needed shared terms term, positions.toList)
      return demands.all (fun (n, positions) => n ≤ positions.length) &&
        anyFits distance .empty demands

def ofValues (distance : Value) (terms : List String) (slots : Value) (shared : Bool) :
    Except Fault Bool := do
  possible (← Distance.ofValue distance) terms (← slots.elements) shared

end TermWindow.Choice
