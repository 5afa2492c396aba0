import TermWindow.Proofs.AcceptedElements
import TermWindow.Proofs.GrowingDocuments

/-!
# Elements merged with positions

Positions that were made of some elements may be given in place of these elements. Whatever follows
them is then accepted or refused alike, with the same positions or for the same reason.
-/

namespace TermWindow

namespace Shape

theorem items?_of_mapM {items : List Value} {rows : List (List Value)}
    (h : items.mapM Value.items? = some rows) : ∀ v ∈ items, v.items? ≠ none := by
  induction items generalizing rows with
  | nil => simp
  | cons v items ih =>
    rw [List.mapM_cons] at h
    obtain ⟨row, hrow, h⟩ := Option.bind_eq_some_iff.1 h
    obtain ⟨rest, hrest, -⟩ := Option.bind_eq_some_iff.1 h
    refine List.forall_mem_cons.2 ⟨?_, ih hrest⟩
    rw [hrow]
    exact Option.some_ne_none row

/-- Lists beside other values are ragged from the first level on. -/
theorem ofItems_mixed {items : List Value} (hatom : ∃ v ∈ items, v.items? = none)
    (hlist : ∃ v ∈ items, v.items? ≠ none) : ofItems items = .ragged [items.length] := by
  have hall : items.all (·.items?.isNone) = false := by
    obtain ⟨v, hv, hsome⟩ := hlist
    rw [List.all_eq_false]
    exact ⟨v, hv, by simpa using hsome⟩
  have hrows : rows? items = none := by
    obtain ⟨v, hv, hnone⟩ := hatom
    cases hmap : items.mapM Value.items? with
    | none => rw [rows?, hmap]
    | some rows => exact absurd hnone (items?_of_mapM hmap v hv)
  have hlevel : ofLevel (maxDims - 1) items = .ragged [] := by
    show ofLevel 63 items = _
    rw [ofLevel, hall]
    · rfl
    · exact hrows
  rw [ofItems, hlevel]
  rfl

end Shape

namespace Positions

theorem min?_congr {xs ys : List Int} (h : xs.Perm ys) : xs.min? = ys.min? := by
  cases hmin : xs.min? with
  | none =>
    rw [List.min?_eq_none_iff] at hmin
    rw [eq_comm, List.min?_eq_none_iff]
    exact (hmin ▸ h).nil_eq.symm
  | some least =>
    obtain ⟨hmem, hle⟩ := List.min?_eq_some_iff.1 hmin
    exact (List.min?_eq_some_iff.2
      ⟨h.mem_iff.1 hmem, fun x hx => hle x (h.mem_iff.2 hx)⟩).symm

theorem ofFlat_congr {first first' : Value} {others others' : List Value}
    (hkind : Kind.ofValues first others = Kind.ofValues first' others')
    (hnumbers : ((first :: others).filterMap number?).Perm
      ((first' :: others').filterMap number?)) :
    ofFlat (first :: others) = ofFlat (first' :: others') := by
  rw [ofFlat, ofFlat, hkind, min?_congr hnumbers, ofList_congr (hnumbers.map stored)]

theorem Within.ne_nil {low high : Int} {values : List Value} (h : Within low high values) :
    values ≠ [] := by
  obtain ⟨-, ⟨n, hn⟩, -⟩ := h
  exact List.ne_nil_of_mem hn

theorem Within.ofValues_eq {first : Value} {others : List Value}
    (h : Within 0 (2 ^ 63) (first :: others)) : Kind.ofValues first others = .signed := by
  rw [ofValues_eq_iff_within rfl Kind.ofValue_eq_signed_iff]
  obtain ⟨hall, hsome, hrange⟩ := h
  refine ⟨hall, hsome, fun n hn => ?_⟩
  have hn' := hrange n hn
  omega

theorem ofValues_append (first : Value) (others elements : List Value) :
    Kind.ofValues first (others ++ elements) =
      elements.foldl (fun kind v => kind.join (Kind.ofValue v)) (Kind.ofValues first others) :=
  List.foldl_append

theorem ofElements_mixed {front elements : List Value} {low high : Int}
    (h : Within low high front) (hlist : ∃ v ∈ elements, v.items? ≠ none) :
    ofElements (front ++ elements) = .error (.ragged [(front ++ elements).length]) := by
  have hshape : Shape.ofItems (front ++ elements) = .ragged [(front ++ elements).length] := by
    apply Shape.ofItems_mixed
    · obtain ⟨-, ⟨n, hn⟩, -⟩ := h
      exact ⟨.whole n, List.mem_append_left elements hn, rfl⟩
    · obtain ⟨v, hv, hsome⟩ := hlist
      exact ⟨v, List.mem_append_right front hv, hsome⟩
  rw [ofElements, hshape]

/-- Of two beginnings that are signed, with the same numbers in some order, either may stand in
front of any elements. -/
theorem ofElements_congr_front {front front' : List Value} (h : Within 0 (2 ^ 63) front)
    (h' : Within 0 (2 ^ 63) front') (hlength : front.length = front'.length)
    (hnumbers : (front.filterMap number?).Perm (front'.filterMap number?))
    (elements : List Value) :
    ofElements (front ++ elements) = ofElements (front' ++ elements) := by
  by_cases hflat : ∀ v ∈ elements, v.items? = none
  · rw [ofElements_flat (List.forall_mem_append.2 ⟨h.items?_eq_none, hflat⟩),
      ofElements_flat (List.forall_mem_append.2 ⟨h'.items?_eq_none, hflat⟩)]
    cases front with
    | nil => exact absurd h.ne_nil (by simp)
    | cons first others =>
      cases front' with
      | nil => exact absurd h'.ne_nil (by simp)
      | cons first' others' =>
        rw [List.cons_append, List.cons_append]
        apply ofFlat_congr
        · rw [ofValues_append, ofValues_append, h.ofValues_eq, h'.ofValues_eq]
        · rw [← List.cons_append, ← List.cons_append, List.filterMap_append,
            List.filterMap_append]
          exact hnumbers.append_right _
  · have hlist : ∃ v ∈ elements, v.items? ≠ none := by simpa using hflat
    rw [ofElements_mixed h hlist, ofElements_mixed h' hlist, List.length_append,
      List.length_append, hlength]

theorem within_map_whole {xs : List Int} (hne : xs ≠ []) (h : ∀ x ∈ xs, Plain x) :
    Within 0 (2 ^ 63) (xs.map Value.whole) := by
  refine ⟨fun v hv => ?_, ?_, fun n hn => ?_⟩
  · obtain ⟨x, -, rfl⟩ := List.mem_map.1 hv
    exact Or.inr ⟨x, rfl⟩
  · obtain ⟨x, hx⟩ := List.exists_mem_of_ne_nil xs hne
    exact ⟨x, List.mem_map_of_mem hx⟩
  · obtain ⟨x, hx, heq⟩ := List.mem_map.1 hn
    obtain rfl := Value.whole.inj heq
    exact h x hx

theorem filterMap_of_mapM_number? {values : List Value} {xs : List Int}
    (h : values.mapM number? = some xs) :
    values.filterMap number? = xs ∧ xs.length = values.length := by
  induction values generalizing xs with
  | nil =>
    obtain rfl := Option.some.inj h
    exact ⟨rfl, rfl⟩
  | cons v values ih =>
    rw [List.mapM_cons] at h
    obtain ⟨x, hx, h⟩ := Option.bind_eq_some_iff.1 h
    obtain ⟨rest, hrest, h⟩ := Option.bind_eq_some_iff.1 h
    obtain rfl := Option.some.inj h
    obtain ⟨hfilter, hlength⟩ := ih hrest
    rw [List.filterMap_cons_some hx, hfilter, List.length_cons, List.length_cons, hlength]
    exact ⟨rfl, rfl⟩

/-- Elements may be given as the positions that were made of them. -/
theorem ofElements_merged {given : List Value} {p : Positions}
    (hsmall : ∀ n, .whole n ∈ given → n < 2 ^ 63) (h : ofElements given = .ok p)
    (elements : List Value) :
    ofElements (p.toList.map Value.whole ++ elements) = ofElements (given ++ elements) := by
  obtain ⟨hacceptable, rfl⟩ := (ofElements_eq_ok_iff ..).1 h
  rcases hacceptable with rfl | hwithin | hbeyond
  · have hempty : (ofList []).toList = [] := (perm_toList_ofList []).eq_nil
    rw [List.filterMap_nil, List.map_nil, hempty]
    rfl
  · obtain ⟨xs, hnumbers, hperm, hplain⟩ := ofElements_storable hsmall h
    obtain ⟨hfilter, hlength⟩ := filterMap_of_mapM_number? hnumbers
    refine ofElements_congr_front (within_map_whole ?_ fun x hx => ?_) hwithin ?_ ?_ elements
    · intro hnil
      have hxs : given.length = 0 := by
        rw [← hlength, ← hperm.length_eq, hnil]
        rfl
      exact hwithin.ne_nil (List.length_eq_zero_iff.1 hxs)
    · exact hplain x (hperm.subset hx)
    · rw [List.length_map, hperm.length_eq, hlength]
    · rw [filterMap_number?_whole, hfilter]
      exact hfilter ▸ hperm
  · obtain ⟨-, ⟨n, hn⟩, hrange⟩ := hbeyond
    have hlow := (hrange n hn).1
    have hhigh := hsmall n hn
    omega

end Positions

end TermWindow
