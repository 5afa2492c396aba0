import TermWindow.Proofs.StoredNumbers

/-!
# Elements in any order

Kinds are joined one after the other, and the texts in refusals show the order. Which elements are
taken for positions, and what positions they make, does not depend on it.
-/

namespace TermWindow

namespace Kind

theorem join_eq_truth_iff (a b : Kind) : a.join b = truth ↔ a = truth ∧ b = truth := by
  refine ⟨join_eq_truth, fun h => ?_⟩
  obtain ⟨rfl, rfl⟩ := h
  rfl

theorem truth_join {k : Kind} (hk : k.isWhole = true) : truth.join k = k := by
  cases k with
  | signed | unsigned => rfl
  | truth | real | text | object => cases hk

theorem join_eq_whole_iff {k : Kind} (hk : k.isWhole = true) (a b : Kind) :
    a.join b = k ↔ (a = truth ∨ a = k) ∧ (b = truth ∨ b = k) ∧ (a = k ∨ b = k) := by
  have hne : truth ≠ k := by
    rintro rfl
    cases hk
  refine ⟨fun h => ?_, fun h => ?_⟩
  · obtain ⟨ha, hb⟩ := join_eq_whole hk h
    refine ⟨ha, hb, ?_⟩
    -- two truth values are joined to a truth value
    rcases ha with rfl | ha
    · rcases hb with rfl | hb
      · exact absurd h hne
      · exact Or.inr hb
    · exact Or.inl ha
  · obtain ⟨ha, hb, h⟩ := h
    rcases ha with rfl | rfl
    · rw [h.resolve_left hne]
      exact truth_join hk
    · rcases hb with rfl | rfl
      · rw [join_comm]
        exact truth_join hk
      · exact join_self _

theorem join_alike_iff {k : Kind} (hk : k.isWhole = true) (a b : Kind) :
    (a.join b = truth ∨ a.join b = k) ↔ (a = truth ∨ a = k) ∧ (b = truth ∨ b = k) := by
  rw [join_eq_truth_iff, join_eq_whole_iff hk]
  refine ⟨fun h => ?_, fun h => ?_⟩
  · rcases h with ⟨ha, hb⟩ | ⟨ha, hb, -⟩
    · exact ⟨Or.inl ha, Or.inl hb⟩
    · exact ⟨ha, hb⟩
  · obtain ⟨ha, hb⟩ := h
    rcases ha with ha | ha
    · rcases hb with hb | hb
      · exact Or.inl ⟨ha, hb⟩
      · exact Or.inr ⟨Or.inl ha, Or.inr hb, Or.inr hb⟩
    · exact Or.inr ⟨Or.inr ha, hb, Or.inl ha⟩

theorem foldl_join_eq_whole_iff {k : Kind} (hk : k.isWhole = true) (kinds : List Kind)
    (start : Kind) :
    kinds.foldl join start = k ↔
      (∀ a ∈ start :: kinds, a = truth ∨ a = k) ∧ k ∈ start :: kinds := by
  induction kinds generalizing start with
  | nil =>
    rw [List.foldl_nil, List.forall_mem_singleton, List.mem_singleton, eq_comm (a := k)]
    exact ⟨fun h => ⟨Or.inr h, h⟩, And.right⟩
  | cons a kinds ih =>
    rw [List.foldl_cons, ih, List.forall_mem_cons, List.forall_mem_cons, List.forall_mem_cons,
      join_alike_iff hk]
    simp only [and_assoc]
    -- of two kinds that may be joined to `k`, the join is `k` just when one of them is
    refine and_congr_right fun hstart => and_congr_right fun ha => and_congr_right fun _ => ?_
    rw [List.mem_cons, List.mem_cons, List.mem_cons, ← or_assoc, eq_comm, join_eq_whole_iff hk,
      and_iff_right hstart, and_iff_right ha, eq_comm (b := k), eq_comm (b := k)]

/-- Values are stored as one whole kind just when some of them are of this kind, and all others are
truth values. -/
theorem ofValues_eq_whole_iff {k : Kind} (hk : k.isWhole = true) (first : Value)
    (others : List Value) :
    ofValues first others = k ↔
      (∀ v ∈ first :: others, ofValue v = truth ∨ ofValue v = k) ∧
        ∃ v ∈ first :: others, ofValue v = k := by
  have hfold : ofValues first others = (others.map ofValue).foldl join (ofValue first) :=
    List.foldl_map.symm
  rw [hfold, foldl_join_eq_whole_iff hk, ← List.map_cons, List.forall_mem_map, List.mem_map]

end Kind

namespace Shape

/-- A level that is regular without any further dimension holds no lists. -/
theorem items?_of_ofLevel {room : Nat} {level : List Value} (h : ofLevel room level = .regular []) :
    ∀ v ∈ level, v.items? = none := by
  unfold ofLevel at h
  split at h
  · rename_i hflat
    intro v hv
    exact Option.isNone_iff_eq_none.1 (List.all_eq_true.1 hflat v hv)
  · split at h
    · cases h
    · cases h
    · unfold below at h
      split at h <;> cases h

end Shape

namespace Positions

theorem items?_of_ofElements {elements : List Value} {p : Positions}
    (h : ofElements elements = .ok p) : ∀ v ∈ elements, v.items? = none := by
  unfold ofElements Shape.ofItems at h
  cases hlevel : Shape.ofLevel (Shape.maxDims - 1) elements with
  | ragged dims =>
    rw [hlevel] at h
    cases h
  | tooDeep =>
    rw [hlevel] at h
    cases h
  | regular dims =>
    rw [hlevel] at h
    cases dims with
    | nil => exact Shape.items?_of_ofLevel hlevel
    | cons n dims => cases h

theorem ofElements_flat {elements : List Value} (h : ∀ v ∈ elements, v.items? = none) :
    ofElements elements = ofFlat elements := by
  rw [ofElements, Shape.ofItems_flat h]
  rfl

theorem ofFlat_eq_ok_iff (first : Value) (others : List Value) (p : Positions) :
    ofFlat (first :: others) = .ok p ↔
      (Kind.ofValues first others).isWhole = true ∧
        (∀ x ∈ (first :: others).filterMap number?, 0 ≤ x) ∧
          p = ofList (((first :: others).filterMap number?).map stored) := by
  rw [ofFlat]
  generalize (first :: others).filterMap number? = numbers
  cases (Kind.ofValues first others).isWhole with
  | false => simp
  | true =>
    simp only [Bool.not_true, Bool.false_eq_true, if_false, true_and]
    cases hleast : numbers.min? with
    | none =>
      rw [List.min?_eq_none_iff.1 hleast]
      simp [← empty_eq_ofList, eq_comm]
    | some least =>
      obtain ⟨hmem, hle⟩ := List.min?_eq_some_iff.1 hleast
      by_cases hneg : least < 0
      · have hsome : ¬∀ x ∈ numbers, 0 ≤ x := by
          intro hall
          have h0 := hall least hmem
          omega
        simp [hneg, hsome]
      · have hall : ∀ x ∈ numbers, 0 ≤ x := by
          intro x hx
          have hx' := hle x hx
          omega
        simp only [hneg, if_false, Except.ok.injEq, eq_comm (a := p)]
        exact (and_iff_right hall).symm

theorem ofElements_perm {elements others : List Value} (hperm : elements.Perm others)
    {p : Positions} (h : ofElements elements = .ok p) : ofElements others = .ok p := by
  have hflat := items?_of_ofElements h
  have hflat' : ∀ v ∈ others, v.items? = none := fun v hv => hflat v (hperm.mem_iff.2 hv)
  rw [ofElements_flat hflat] at h
  rw [ofElements_flat hflat']
  cases elements with
  | nil =>
    rw [← hperm.nil_eq]
    exact h
  | cons first rest =>
    cases others with
    | nil => exact absurd hperm.eq_nil (List.cons_ne_nil first rest)
    | cons first' rest' =>
      obtain ⟨hwhole, hnonneg, rfl⟩ := (ofFlat_eq_ok_iff ..).1 h
      have hnumbers := hperm.filterMap number?
      obtain ⟨hkinds, v, hv, hkind⟩ := (Kind.ofValues_eq_whole_iff hwhole first rest).1 rfl
      have hkind' : Kind.ofValues first' rest' = Kind.ofValues first rest :=
        (Kind.ofValues_eq_whole_iff hwhole first' rest').2
          ⟨fun w hw => hkinds w (hperm.mem_iff.2 hw), v, hperm.mem_iff.1 hv, hkind⟩
      refine (ofFlat_eq_ok_iff ..).2 ⟨hkind' ▸ hwhole, fun x hx => ?_, ?_⟩
      · exact hnonneg x (hnumbers.mem_iff.2 hx)
      · exact ofList_congr (hnumbers.map stored)

end Positions

end TermWindow
