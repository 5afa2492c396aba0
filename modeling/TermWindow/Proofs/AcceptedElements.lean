import TermWindow.Proofs.ElementOrder

/-!
# Elements that are accepted

Positions are made of whole numbers and truth values with at least one whole number among them,
where either all whole numbers are stored as they are or all of them lie beyond `2 ^ 63`. All other
elements are refused, and the order of the elements decides neither of the two.
-/

namespace TermWindow

namespace Kind

/-! ### Kinds as ranges of numbers -/

theorem ofValue_eq_truth_iff (v : Value) : ofValue v = truth ↔ ∃ b, v = .truth b := by
  cases v with
  | truth b => simp [ofValue]
  | whole n =>
    simp only [ofValue]
    split
    · simp
    · split <;> simp
  | missing | real | text | list => simp [ofValue]

theorem ofValue_eq_signed_iff (v : Value) :
    ofValue v = signed ↔ ∃ n, v = .whole n ∧ -2 ^ 63 ≤ n ∧ n < 2 ^ 63 := by
  cases v with
  | whole n =>
    have hrange : isSigned n = true ↔ -2 ^ 63 ≤ n ∧ n < 2 ^ 63 := by
      rw [isSigned, Bool.and_eq_true, decide_eq_true_eq, decide_eq_true_eq]
      exact Iff.rfl
    simp only [ofValue, Value.whole.injEq, exists_eq_left', ← hrange]
    split
    · simp [*]
    · split <;> simp [*]
  | missing | truth | real | text | list => simp [ofValue]

theorem ofValue_eq_unsigned_iff (v : Value) :
    ofValue v = unsigned ↔ ∃ n, v = .whole n ∧ 2 ^ 63 ≤ n ∧ n < 2 ^ 64 := by
  cases v with
  | whole n =>
    have hrange : isUnsigned n = true ↔ 2 ^ 63 ≤ n ∧ n < 2 ^ 64 := by
      rw [isUnsigned, Bool.and_eq_true, decide_eq_true_eq, decide_eq_true_eq]
      exact Iff.rfl
    have hapart : isSigned n = true → ¬isUnsigned n = true := by
      rw [isSigned, Bool.and_eq_true, decide_eq_true_eq, decide_eq_true_eq, hrange]
      show -2 ^ 63 ≤ n ∧ n < 2 ^ 63 → _
      omega
    simp only [ofValue, Value.whole.injEq, exists_eq_left', ← hrange]
    split
    · rename_i hsigned
      simp [hapart hsigned]
    · split <;> simp [*]
  | missing | truth | real | text | list => simp [ofValue]

end Kind

namespace Positions

/-- The values are truth values and whole numbers, some of them whole numbers, and all these lie
from `low` on below `high`. -/
def Within (low high : Int) (values : List Value) : Prop :=
  (∀ v ∈ values, (∃ b, v = .truth b) ∨ ∃ n, v = .whole n) ∧ (∃ n, .whole n ∈ values) ∧
    ∀ n, .whole n ∈ values → low ≤ n ∧ n < high

theorem Within.items?_eq_none {low high : Int} {values : List Value} (h : Within low high values) :
    ∀ v ∈ values, v.items? = none := by
  intro v hv
  rcases h.1 v hv with ⟨b, rfl⟩ | ⟨n, rfl⟩ <;> rfl

theorem ofValues_eq_iff_within {k : Kind} (hk : k.isWhole = true) {low high : Int}
    (hrange : ∀ v, Kind.ofValue v = k ↔ ∃ n, v = .whole n ∧ low ≤ n ∧ n < high)
    (first : Value) (others : List Value) :
    Kind.ofValues first others = k ↔ Within low high (first :: others) := by
  rw [Kind.ofValues_eq_whole_iff hk]
  generalize first :: others = values
  refine ⟨fun h => ?_, fun h => ?_⟩
  · obtain ⟨hall, v, hv, hkind⟩ := h
    obtain ⟨n, rfl, -⟩ := (hrange v).1 hkind
    refine ⟨fun w hw => ?_, ⟨n, hv⟩, fun m hm => ?_⟩
    · rcases hall w hw with htruth | hwhole
      · exact Or.inl ((Kind.ofValue_eq_truth_iff w).1 htruth)
      · obtain ⟨m, rfl, -⟩ := (hrange w).1 hwhole
        exact Or.inr ⟨m, rfl⟩
    · rcases hall _ hm with htruth | hwhole
      · obtain ⟨b, hb⟩ := (Kind.ofValue_eq_truth_iff _).1 htruth
        cases hb
      · obtain ⟨_, heq, hwithin⟩ := (hrange _).1 hwhole
        obtain rfl := Value.whole.inj heq
        exact hwithin
  · obtain ⟨hall, ⟨n, hn⟩, hnumbers⟩ := h
    refine ⟨fun v hv => ?_, .whole n, hn, (hrange _).2 ⟨n, rfl, hnumbers n hn⟩⟩
    rcases hall v hv with ⟨b, rfl⟩ | ⟨m, rfl⟩
    · exact Or.inl rfl
    · exact Or.inr ((hrange _).2 ⟨m, rfl, hnumbers m hv⟩)

theorem isWhole_iff_within (first : Value) (others : List Value) :
    (Kind.ofValues first others).isWhole = true ↔
      Within (-2 ^ 63) (2 ^ 63) (first :: others) ∨ Within (2 ^ 63) (2 ^ 64) (first :: others) := by
  rw [← ofValues_eq_iff_within rfl Kind.ofValue_eq_signed_iff,
    ← ofValues_eq_iff_within rfl Kind.ofValue_eq_unsigned_iff]
  cases Kind.ofValues first others <;> simp [Kind.isWhole]

theorem eq_whole_of_number? {v : Value} {x : Int} (h : number? v = some x) :
    v = .whole x ∨ 0 ≤ x := by
  cases v with
  | truth b =>
    obtain rfl := Option.some.inj h
    right
    split <;> decide
  | whole n =>
    obtain rfl := Option.some.inj h
    exact Or.inl rfl
  | missing | real | text | list => cases h

theorem nonneg_numbers_iff (values : List Value) :
    (∀ x ∈ values.filterMap number?, 0 ≤ x) ↔ ∀ n, .whole n ∈ values → 0 ≤ n := by
  refine ⟨fun h n hn => h n (List.mem_filterMap.2 ⟨.whole n, hn, rfl⟩), fun h x hx => ?_⟩
  obtain ⟨v, hv, hnumber⟩ := List.mem_filterMap.1 hx
  rcases eq_whole_of_number? hnumber with rfl | hnonneg
  · exact h x hv
  · exact hnonneg

/-! ### What is accepted -/

/-- The elements of which positions can be made. -/
def Acceptable (elements : List Value) : Prop :=
  elements = [] ∨ Within 0 (2 ^ 63) elements ∨ Within (2 ^ 63) (2 ^ 64) elements

theorem acceptable_cons_iff (first : Value) (others : List Value) :
    Acceptable (first :: others) ↔ (Kind.ofValues first others).isWhole = true ∧
      ∀ x ∈ (first :: others).filterMap number?, 0 ≤ x := by
  rw [isWhole_iff_within, nonneg_numbers_iff, Acceptable,
    or_iff_right (List.cons_ne_nil first others)]
  generalize first :: others = values
  refine ⟨fun h => ?_, fun h => ?_⟩
  · rcases h with ⟨hall, hsome, hrange⟩ | h
    · refine ⟨Or.inl ⟨hall, hsome, fun n hn => ?_⟩, fun n hn => (hrange n hn).1⟩
      have := hrange n hn
      omega
    · refine ⟨Or.inr h, fun n hn => ?_⟩
      have := (h.2.2 n hn).1
      omega
  · obtain ⟨⟨hall, hsome, hrange⟩ | h, hnonneg⟩ := h
    · exact Or.inl ⟨hall, hsome, fun n hn => ⟨hnonneg n hn, (hrange n hn).2⟩⟩
    · exact Or.inr h

theorem items?_of_acceptable {elements : List Value} (h : Acceptable elements) :
    ∀ v ∈ elements, v.items? = none := by
  rcases h with rfl | hwithin | hbeyond
  · exact nofun
  · exact hwithin.items?_eq_none
  · exact hbeyond.items?_eq_none

theorem ofElements_eq_ok_iff (elements : List Value) (p : Positions) :
    ofElements elements = .ok p ↔
      Acceptable elements ∧ p = ofList ((elements.filterMap number?).map stored) := by
  refine ⟨fun h => ?_, fun h => ?_⟩
  · rw [ofElements_flat (items?_of_ofElements h)] at h
    cases elements with
    | nil =>
      obtain rfl := Except.ok.inj h
      exact ⟨Or.inl rfl, empty_eq_ofList⟩
    | cons first others =>
      obtain ⟨hkind, hnonneg, hp⟩ := (ofFlat_eq_ok_iff ..).1 h
      exact ⟨(acceptable_cons_iff ..).2 ⟨hkind, hnonneg⟩, hp⟩
  · obtain ⟨hacceptable, rfl⟩ := h
    rw [ofElements_flat (items?_of_acceptable hacceptable)]
    cases elements with
    | nil => exact congrArg Except.ok empty_eq_ofList
    | cons first others =>
      obtain ⟨hkind, hnonneg⟩ := (acceptable_cons_iff ..).1 hacceptable
      exact (ofFlat_eq_ok_iff ..).2 ⟨hkind, hnonneg, rfl⟩

/-! ### What is refused -/

/-- The faults with which elements can be refused. -/
inductive Refusal (elements : List Value) : Fault → Prop where
  | ragged (dims : List Nat) : Refusal elements (.ragged dims)
  | tooDeep : Refusal elements (.tooDeep Shape.maxDims)
  | nested (dims : List Nat) (h : dims.length ≠ 1) : Refusal elements (.nested dims)
  | notWhole (kind : Kind) (h : kind.isWhole = false) : Refusal elements (.notWhole kind.name)
  | negative (least : Int) (h : least < 0) (hmem : .whole least ∈ elements) :
      Refusal elements (.negativePosition least)

theorem Refusal.kind_eq {elements : List Value} {fault : Fault} (h : Refusal elements fault) :
    fault.kind = .wrongValue := by
  cases h <;> rfl

theorem mem_of_number?_neg {elements : List Value} {x : Int} (hneg : x < 0)
    (h : x ∈ elements.filterMap number?) : .whole x ∈ elements := by
  obtain ⟨v, hv, hnumber⟩ := List.mem_filterMap.1 h
  rcases eq_whole_of_number? hnumber with rfl | hnonneg
  · exact hv
  · omega

theorem refusal_of_ofFlat {elements : List Value} {fault : Fault}
    (h : ofFlat elements = .error fault) : Refusal elements fault := by
  cases elements with
  | nil => cases h
  | cons first others =>
    rw [ofFlat] at h
    split at h
    · rename_i hkind
      obtain rfl := Except.error.inj h
      exact .notWhole _ (by simpa using hkind)
    · split at h
      · cases h
      · rename_i least hleast
        split at h
        · rename_i hneg
          obtain rfl := Except.error.inj h
          exact .negative least hneg (mem_of_number?_neg hneg (List.min?_mem hleast))
        · cases h

theorem refusal_of_ofElements {elements : List Value} {fault : Fault}
    (h : ofElements elements = .error fault) : Refusal elements fault := by
  rw [ofElements] at h
  split at h
  · obtain rfl := Except.error.inj h
    exact .ragged _
  · obtain rfl := Except.error.inj h
    exact .tooDeep
  · split at h
    · exact refusal_of_ofFlat h
    · rename_i hdims
      obtain rfl := Except.error.inj h
      exact .nested _ hdims

/-- A list is taken for positions just when its elements are acceptable, with the numbers in it as
its positions, and every other one is refused for the elements in it. A list and a rearrangement of
it make the same positions, or both are refused. -/
theorem ofValue_list_acceptable (elements : List Value) :
    (∀ p, ofValue (.list elements) = .ok p ↔
      Acceptable elements ∧ p = ofList ((elements.filterMap number?).map stored)) ∧
    (¬Acceptable elements ↔
      ∃ fault, ofValue (.list elements) = .error fault ∧ fault.kind = .wrongValue ∧
        Refusal elements fault) ∧
    ∀ others, elements.Perm others →
      (∃ p, ofValue (.list elements) = .ok p ∧ ofValue (.list others) = .ok p) ∨
      ∃ fault fault', ofValue (.list elements) = .error fault ∧ Refusal elements fault ∧
        ofValue (.list others) = .error fault' ∧ Refusal others fault' := by
  refine ⟨ofElements_eq_ok_iff elements, ⟨fun h => ?_, fun h hacceptable => ?_⟩, ?_⟩
  · show ∃ fault, ofElements elements = .error fault ∧ _
    cases hread : ofElements elements with
    | error fault =>
      have hrefusal := refusal_of_ofElements hread
      exact ⟨fault, rfl, hrefusal.kind_eq, hrefusal⟩
    | ok p => exact absurd ((ofElements_eq_ok_iff ..).1 hread).1 h
  · obtain ⟨fault, hrefused, -⟩ := h
    have hread := (ofElements_eq_ok_iff elements _).2 ⟨hacceptable, rfl⟩
    cases hrefused.symm.trans hread
  · intro others hperm
    show (∃ p, ofElements elements = .ok p ∧ ofElements others = .ok p) ∨
      ∃ fault fault', ofElements elements = .error fault ∧ _ ∧
        ofElements others = .error fault' ∧ _
    cases hread : ofElements elements with
    | ok p => exact Or.inl ⟨p, rfl, ofElements_perm hperm hread⟩
    | error fault =>
      cases hother : ofElements others with
      | ok p => cases hread.symm.trans (ofElements_perm hperm.symm hother)
      | error fault' =>
        exact Or.inr ⟨fault, fault', rfl, refusal_of_ofElements hread, rfl,
          refusal_of_ofElements hother⟩

/-- Two orders of the same elements that are refused with different texts. -/
theorem ofValue_list_acceptable_texts :
    let elements : List Value := [.text "a", .whole 1, .text "b", .truth true]
    let others : List Value := [.truth true, .text "b", .whole 1, .text "a"]
    elements.Perm others ∧ ¬Acceptable elements ∧
      ∃ fault fault', ofValue (.list elements) = .error fault ∧ Refusal elements fault ∧
        ofValue (.list others) = .error fault' ∧ Refusal others fault' := by
  intro elements others
  have hperm : elements.Perm others := (List.reverse_perm elements).symm
  obtain ⟨-, hrefused, horder⟩ := ofValue_list_acceptable elements
  have hread : ofValue (.list elements) = .error (.notWhole "<U21") := rfl
  rcases horder others hperm with ⟨p, hp, -⟩ | ⟨fault, fault', h, hr, h', hr'⟩
  · cases hread.symm.trans hp
  · exact ⟨hperm, hrefused.2 ⟨fault, h, hr.kind_eq, hr⟩, fault, fault', h, hr, h', hr'⟩

end Positions

end TermWindow
