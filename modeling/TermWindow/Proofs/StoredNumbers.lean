import TermWindow.Proofs.Slots

/-!
# Numbers as they are stored

Elements that make up positions are all numbers, none of them negative, and each of them is stored.
Numbers below `2 ^ 63` are stored as they are, so that the positions can be read again. Greater
ones come out negative, and the positions with them are refused when they are read again.
-/

namespace TermWindow

namespace Kind

theorem join_eq_truth {a b : Kind} (h : a.join b = truth) : a = truth ∧ b = truth := by
  cases a <;> cases b <;> first | exact ⟨rfl, rfl⟩ | cases h

theorem join_eq_whole {a b k : Kind} (hk : k.isWhole = true) (h : a.join b = k) :
    (a = truth ∨ a = k) ∧ (b = truth ∨ b = k) := by
  subst h
  cases a <;> cases b <;> first
    | exact absurd hk Bool.false_ne_true
    | exact ⟨Or.inl rfl, Or.inr rfl⟩
    | exact ⟨Or.inr rfl, Or.inl rfl⟩
    | exact ⟨Or.inr rfl, Or.inr rfl⟩

theorem foldl_join_eq_whole {k start : Kind} {values : List Value} (hk : k.isWhole = true)
    (h : values.foldl (fun kind v => kind.join (ofValue v)) start = k) :
    (start = truth ∨ start = k) ∧ ∀ v ∈ values, ofValue v = truth ∨ ofValue v = k := by
  induction values generalizing start with
  | nil => exact ⟨Or.inr h, by simp⟩
  | cons v values ih =>
    obtain ⟨hjoin, hvalues⟩ := ih h
    -- a join of truth values is a truth value, any other one is of the kind in the end
    rcases hjoin with hjoin | hjoin
    · obtain ⟨hstart, hv⟩ := join_eq_truth hjoin
      exact ⟨Or.inl hstart, List.forall_mem_cons.2 ⟨Or.inl hv, hvalues⟩⟩
    · obtain ⟨hstart, hv⟩ := join_eq_whole hk hjoin
      exact ⟨hstart, List.forall_mem_cons.2 ⟨hv, hvalues⟩⟩

theorem ofValues_eq_whole {k : Kind} {first : Value} {others : List Value}
    (hk : k.isWhole = true) (h : ofValues first others = k) :
    ∀ v ∈ first :: others, ofValue v = truth ∨ ofValue v = k := by
  obtain ⟨hfirst, hothers⟩ := foldl_join_eq_whole hk h
  exact List.forall_mem_cons.2 ⟨hfirst, hothers⟩

theorem ofValue_whole (n : Int) :
    (ofValue (.whole n) = signed ∧ n < 2 ^ 63) ∨
      (ofValue (.whole n) = unsigned ∧ n < 2 ^ 64) ∨ ofValue (.whole n) = object := by
  simp only [ofValue]
  split
  · rename_i hsigned
    have hlt : n < 0x8000000000000000 := of_decide_eq_true (Bool.and_eq_true_iff.1 hsigned).2
    exact Or.inl ⟨rfl, by omega⟩
  · split
    · rename_i hunsigned
      have hlt : n < 0x10000000000000000 :=
        of_decide_eq_true (Bool.and_eq_true_iff.1 hunsigned).2
      exact Or.inr (Or.inl ⟨rfl, by omega⟩)
    · exact Or.inr (Or.inr rfl)

end Kind

namespace Positions

/-! ### Numbers among values -/

theorem exists_number? {v : Value} {k : Kind} (hk : k.isWhole = true)
    (h : Kind.ofValue v = .truth ∨ Kind.ofValue v = k) :
    ∃ x, number? v = some x ∧ x < 2 ^ 64 := by
  cases v with
  | truth b =>
    refine ⟨_, rfl, ?_⟩
    split <;> decide
  | whole n =>
    refine ⟨n, rfl, ?_⟩
    rcases Kind.ofValue_whole n with ⟨-, hn⟩ | ⟨-, hn⟩ | hobject
    · omega
    · exact hn
    · rw [hobject] at h
      rcases h with h | rfl
      · cases h
      · cases hk
  | missing | real | text | list =>
    rcases h with h | rfl
    · cases h
    · cases hk

theorem mapM_number? {values : List Value}
    (h : ∀ v ∈ values, ∃ x, number? v = some x ∧ x < 2 ^ 64) :
    ∃ xs, values.mapM number? = some xs ∧ values.filterMap number? = xs ∧
      ∀ x ∈ xs, x < 2 ^ 64 := by
  induction values with
  | nil => exact ⟨[], rfl, rfl, by simp⟩
  | cons v values ih =>
    obtain ⟨⟨x, hx, hlt⟩, hrest⟩ := List.forall_mem_cons.1 h
    obtain ⟨xs, hmap, hfilter, hxs⟩ := ih hrest
    refine ⟨x :: xs, ?_, ?_, List.forall_mem_cons.2 ⟨hlt, hxs⟩⟩
    · rw [List.mapM_cons, hx, hmap]
      rfl
    · rw [List.filterMap_cons_some hx, hfilter]

/-! ### What is stored -/

theorem stored_of_le (x : Int) (hlow : 2 ^ 63 ≤ x) (hhigh : x < 2 ^ 64) :
    stored x = x - 2 ^ 64 := by
  rw [stored, Int.bmod_def]
  omega

theorem ofFlat_eq_ok {elements : List Value} {p : Positions} (h : ofFlat elements = .ok p) :
    ∃ xs, elements.mapM number? = some xs ∧ p = ofList (xs.map stored) ∧
      ∀ x ∈ xs, 0 ≤ x ∧ x < 2 ^ 64 := by
  cases elements with
  | nil =>
    obtain rfl := Except.ok.inj h
    exact ⟨[], rfl, empty_eq_ofList, by simp⟩
  | cons first others =>
    rw [ofFlat] at h
    split at h
    · cases h
    · rename_i hkind
      have hwhole : (Kind.ofValues first others).isWhole = true := by simpa using hkind
      obtain ⟨xs, hmap, hfilter, hlt⟩ := mapM_number? fun v hv =>
        exists_number? hwhole (Kind.ofValues_eq_whole hwhole rfl v hv)
      rw [hfilter] at h
      split at h
      · rename_i hnone
        obtain rfl := List.min?_eq_none_iff.1 hnone
        obtain rfl := Except.ok.inj h
        exact ⟨[], hmap, empty_eq_ofList, by simp⟩
      · rename_i least hleast
        split at h
        · cases h
        · rename_i hnonneg
          obtain rfl := Except.ok.inj h
          refine ⟨xs, hmap, rfl, fun x hx => ⟨?_, hlt x hx⟩⟩
          have hle := (List.min?_eq_some_iff.1 hleast).2 x hx
          omega

/-- Positions are made of numbers only, all of them, and none of these is negative. -/
theorem ofElements_eq_ok {elements : List Value} {p : Positions}
    (h : ofElements elements = .ok p) :
    ∃ xs, elements.mapM number? = some xs ∧ p = ofList (xs.map stored) ∧
      ∀ x ∈ xs, 0 ≤ x ∧ x < 2 ^ 64 := by
  rw [ofElements] at h
  split at h
  · cases h
  · cases h
  · split at h
    · exact ofFlat_eq_ok h
    · cases h

/-! ### What is kept -/

theorem mapM_number?_whole (xs : List Int) : (xs.map Value.whole).mapM number? = some xs := by
  induction xs with
  | nil => rfl
  | cons x xs ih =>
    have hx : number? (.whole x) = some x := rfl
    rw [List.map_cons, List.mapM_cons, hx, ih]
    rfl

theorem nonneg_of_ofValue_ofInts {xs : List Int} {p : Positions}
    (h : ofValue (Value.ofInts xs) = .ok p) : ∀ x ∈ xs, 0 ≤ x := by
  obtain ⟨ys, hys, -, hnonneg⟩ := ofElements_eq_ok h
  obtain rfl := Option.some.inj ((mapM_number?_whole xs).symm.trans hys)
  exact fun x hx => (hnonneg x hx).1

theorem exists_neg_of_beyond {xs : List Int} (h : ∀ x ∈ xs, 0 ≤ x ∧ x < 2 ^ 64)
    (hbeyond : ¬∀ x ∈ xs, x < 2 ^ 63) : ∃ y ∈ (ofList (xs.map stored)).toList, y < 0 := by
  obtain ⟨x, hx⟩ := not_forall.1 hbeyond
  obtain ⟨hmem, hlow⟩ := Classical.not_imp.1 hx
  refine ⟨stored x, (perm_toList_ofList _).mem_iff.2 (List.mem_map_of_mem hmem), ?_⟩
  have hhigh := (h x hmem).2
  rw [stored_of_le x (by omega) hhigh]
  omega

theorem ofList_toList (p : Positions) : ofList p.toList = p := by
  obtain ⟨xs, hxs⟩ := p
  have hsorted : xs.toList.mergeSort = xs.toList := by
    apply List.mergeSort_of_pairwise
    simpa using hxs
  simp [ofList, toList, hsorted]

theorem ofList_congr {xs ys : List Int} (h : xs.Perm ys) : ofList xs = ofList ys := by
  have hperm : (ofList xs).toList.Perm (ofList ys).toList :=
    (perm_toList_ofList xs).trans (h.trans (perm_toList_ofList ys).symm)
  have heq : (ofList xs).toList = (ofList ys).toList :=
    List.Perm.eq_of_pairwise (fun a b _ _ => Int.le_antisymm) (ofList xs).ascending
      (ofList ys).ascending hperm
  rw [← ofList_toList (ofList xs), heq, ofList_toList]

theorem ofList_eq_of_perm {xs : List Int} {p : Positions} (h : xs.Perm p.toList) :
    ofList xs = p := by
  rw [ofList_congr h, ofList_toList]

theorem ofValue_ofInts_perm {xs : List Int} {p : Positions} (h : xs.Perm p.toList)
    (hplain : ∀ x ∈ xs, Plain x) : ofValue (Value.ofInts xs) = .ok p := by
  rw [ofValue_ofInts xs hplain, ofList_eq_of_perm h]

/-- Positions that are made of a list are in ascending order. They hold the numbers of the list,
hold no negative number and are read again as they are, each of these just when all numbers lie
below `2 ^ 63`. -/
theorem ofValue_list_keeps (elements : List Value) (p : Positions)
    (h : ofValue (.list elements) = .ok p) :
    p.toList.Pairwise (· ≤ ·) ∧
    ∃ xs, elements.mapM number? = some xs ∧
      ((∀ y ∈ p.toList, 0 ≤ y) ↔ ∀ x ∈ xs, x < 2 ^ 63) ∧
      (p.toList.Perm xs ↔ ∀ x ∈ xs, x < 2 ^ 63) ∧
      (ofValue (Value.ofInts p.toList) = .ok p ↔ ∀ x ∈ xs, x < 2 ^ 63) := by
  refine ⟨p.ascending, ?_⟩
  obtain ⟨xs, hnumbers, rfl, hxs⟩ := ofElements_eq_ok h
  refine ⟨xs, hnumbers, ?_⟩
  by_cases hplain : ∀ x ∈ xs, x < 2 ^ 63
  · have hall : ∀ x ∈ xs, Plain x := fun x hx => ⟨(hxs x hx).1, hplain x hx⟩
    have hperm := perm_toList_ofList xs
    have hkept : ∀ y ∈ (ofList xs).toList, Plain y := fun y hy => hall y (hperm.mem_iff.1 hy)
    rw [map_stored_plain xs hall]
    refine ⟨iff_of_true (fun y hy => (hkept y hy).1) hplain, iff_of_true hperm hplain,
      iff_of_true ?_ hplain⟩
    rw [ofValue_ofInts _ hkept, ofList_toList]
  · obtain ⟨y, hy, hneg⟩ := exists_neg_of_beyond hxs hplain
    refine ⟨iff_of_false (fun hnonneg => ?_) hplain, iff_of_false (fun hperm => ?_) hplain,
      iff_of_false (fun hagain => ?_) hplain⟩
    · have := hnonneg y hy
      omega
    · have := (hxs y (hperm.mem_iff.1 hy)).1
      omega
    · have := nonneg_of_ofValue_ofInts hagain y hy
      omega

theorem ofValue_list_keeps_three :
    ∃ p, ofValue (.list [.whole 9, .truth true, .whole 2]) = .ok p ∧ p.toList.Perm [9, 1, 2] := by
  have hread : ofValue (.list [.whole 9, .truth true, .whole 2]) = .ok (ofList [9, 1, 2]) := rfl
  obtain ⟨-, xs, hnumbers, -, hperm, -⟩ := ofValue_list_keeps _ _ hread
  obtain rfl : [9, 1, 2] = xs := Option.some.inj hnumbers
  exact ⟨_, hread, hperm.2 (by decide)⟩

/-- The least number that is not kept comes out as the least of 64 bits with a sign. -/
theorem ofValue_list_wraps :
    ∃ p, ofValue (.list [.whole (2 ^ 63)]) = .ok p ∧ p.toList = [-2 ^ 63] ∧
      ¬p.toList.Perm [2 ^ 63] ∧
      ofValue (Value.ofInts p.toList) = .error (.negativePosition (-2 ^ 63)) := by
  have hread : ofValue (.list [.whole (2 ^ 63)]) = .ok (ofList [-2 ^ 63]) := rfl
  have hlist : (ofList [-2 ^ 63]).toList = [-2 ^ 63] := by simp [toList_ofList]
  refine ⟨_, hread, hlist, ?_, ?_⟩
  · rw [hlist]
    decide
  · rw [hlist]
    rfl

end Positions

theorem Reader.ofValue_ofInts (term : String) {count : Nat} (hc : 0 < count) {xs : List Int}
    {p : Positions} (h : xs.Perm p.toList) (hplain : ∀ x ∈ xs, Positions.Plain x) :
    ofValue term (some (count : Int)) (Value.ofInts xs) = .ok ⟨term, count, p, 0, hc⟩ :=
  ofValue_eq_ok term count hc _ p (Positions.ofValue_ofInts_perm h hplain)

end TermWindow
