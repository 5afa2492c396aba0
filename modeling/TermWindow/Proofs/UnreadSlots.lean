import TermWindow.Proofs.Refusals

/-!
# Slots that are not read

Of the given slots of a term only the first is read, and nothing behind a missing slot is. Both a
search and the brute-force choice look at the slots that `consulted` keeps, so that another value in
a slot of a known term changes nothing. Where repetitions share their positions, the slots left are
those of a query that lists each of its terms once.
-/

namespace TermWindow

/-- The slots that are looked at when the terms in `seen` are known: the first one of every other
term, up to a missing one. -/
def consulted (seen : List String) : List (String × Value) → List (String × Value)
  | [] => []
  | (t, v) :: rest =>
    if v.isMissing then [(t, v)]
    else if t ∈ seen then consulted seen rest
    else (t, v) :: consulted (t :: seen) rest

theorem Reader.term_of_ofValue {term : String} {multiplicity : Option Int} {v : Value} {r : Reader}
    (h : ofValue term multiplicity v = .ok r) : r.term = term := by
  simp only [ofValue] at h
  split at h
  · cases h
  · obtain ⟨p, -, hr⟩ := exists_of_bind_eq_ok h
    obtain rfl := Except.ok.inj hr
    rfl

namespace Search

theorem fill_consulted (needed : String → Nat) (slots : List (String × Value)) (s : Search)
    (seen : List String) (hseen : ∀ t, s.holds t = true ↔ t ∈ seen) :
    fill needed s (consulted seen slots) = fill needed s slots := by
  induction slots generalizing s seen with
  | nil => rfl
  | cons slot rest ih =>
    obtain ⟨t, v⟩ := slot
    rw [consulted]
    cases hgiven : v.isMissing with
    | true => simp [fill, hgiven]
    | false =>
      rw [if_neg Bool.false_ne_true]
      by_cases hknown : t ∈ seen
      · have hskip : fill needed s ((t, v) :: rest) = fill needed s rest := by
          simp [fill, hgiven, (hseen t).2 hknown]
        rw [if_pos hknown, hskip]
        exact ih s seen hseen
      · have hholds : s.holds t = false := Bool.eq_false_iff.2 fun h => hknown ((hseen t).1 h)
        rw [if_neg hknown]
        cases hr : Reader.ofValue t (some (needed t)) v with
        | error refused => simp [fill, hgiven, hholds, hr, bind, Except.bind]
        | ok r =>
          obtain rfl := Reader.term_of_ofValue hr
          rcases fill_reader needed s r.term v r hgiven hholds hr with
            ⟨-, heq⟩ | ⟨-, low, high, -, -, heq⟩
          · rw [heq, heq]
          · rw [heq, heq]
            apply ih
            intro u
            rw [holds_enter_iff, List.mem_cons, hseen]

theorem fill_idle_consulted (needed : String → Nat) (distance : Nat)
    (slots : List (String × Value)) :
    fill needed (idle distance) (consulted [] slots) = fill needed (idle distance) slots :=
  fill_consulted needed slots (idle distance) [] (holds_idle_iff distance)

theorem fill_congr_needed {needed others : String → Nat} (slots : List (String × Value))
    (s : Search) (h : ∀ slot ∈ slots, needed slot.1 = others slot.1) :
    fill needed s slots = fill others s slots := by
  induction slots generalizing s with
  | nil => rfl
  | cons slot rest ih =>
    obtain ⟨t, v⟩ := slot
    have ht := List.forall_mem_cons.1 h
    have hrest : ∀ s', fill needed s' rest = fill others s' rest := fun s' => ih s' ht.2
    simp only [fill, ht.1, hrest]

end Search

namespace Choice

theorem gather_consulted (slots : List (String × Value)) (found : Table Positions)
    (seen : List String) (hseen : ∀ t, (found.get? t).isSome = true ↔ t ∈ seen) :
    gather found (consulted seen slots) = gather found slots := by
  induction slots generalizing found seen with
  | nil => rfl
  | cons slot rest ih =>
    obtain ⟨t, v⟩ := slot
    rw [consulted]
    cases hgiven : v.isMissing with
    | true => simp [gather, hgiven]
    | false =>
      rw [if_neg Bool.false_ne_true]
      by_cases hknown : t ∈ seen
      · have hskip : gather found ((t, v) :: rest) = gather found rest := by
          simp [gather, hgiven, (hseen t).2 hknown]
        rw [if_pos hknown, hskip]
        exact ih found seen hseen
      · have hnone : (found.get? t).isSome = false :=
          Bool.eq_false_iff.2 fun h => hknown ((hseen t).1 h)
        rw [if_neg hknown]
        simp only [gather, hgiven, hnone, Bool.false_eq_true, if_false]
        cases Positions.ofValue v with
        | error refused => rfl
        | ok p =>
          apply ih
          intro u
          rw [Table.get?_insert, List.mem_cons, ← hseen u]
          by_cases hu : u = t <;> simp [hu]

theorem gather_empty_consulted (slots : List (String × Value)) :
    gather Table.empty (consulted [] slots) = gather Table.empty slots :=
  gather_consulted slots Table.empty []
    fun _ => iff_of_false Bool.false_ne_true List.not_mem_nil

theorem keys_of_gather {slots : List (String × Value)} {found gathered : Table Positions}
    (h : gather found slots = .ok (some gathered)) :
    ∀ t ∈ gathered.keys, t ∈ found.keys ∨ t ∈ slots.map Prod.fst := by
  induction slots generalizing found with
  | nil =>
    obtain rfl := Option.some.inj (Except.ok.inj h)
    exact fun t ht => Or.inl ht
  | cons slot rest ih =>
    obtain ⟨u, v⟩ := slot
    rw [gather] at h
    intro t ht
    rw [List.map_cons, List.mem_cons]
    split at h
    · cases h
    · split at h
      · exact (ih h t ht).imp_right Or.inr
      · obtain ⟨p, -, hp⟩ := exists_of_bind_eq_ok h
        rcases ih hp t ht with hkeys | hrest
        · rw [Table.keys_insert] at hkeys
          split at hkeys
          · exact Or.inl hkeys
          · rcases List.mem_append.1 hkeys with hold | hnew
            · exact Or.inl hold
            · exact Or.inr (Or.inl (List.mem_singleton.1 hnew))
        · exact Or.inr (Or.inr hrest)

end Choice

/-! ### Other values in slots of known terms -/

/-- In the place `j` the slots are the same, or both are given and their term is known. -/
def AlikeAt (seen : List String) (slots others : List (String × Value)) (j : Nat) : Prop :=
  others[j]? = slots[j]? ∨ ∃ t v w, slots[j]? = some (t, v) ∧ others[j]? = some (t, w) ∧
    v.isMissing = false ∧ w.isMissing = false ∧ t ∈ seen ++ (slots.take j).map Prod.fst

theorem consulted_congr (slots others : List (String × Value)) (seen : List String)
    (h : ∀ j, AlikeAt seen slots others j) : consulted seen others = consulted seen slots := by
  induction slots generalizing others seen with
  | nil =>
    rcases h 0 with heq | ⟨t, v, w, hslot, -⟩
    · cases others with
      | nil => rfl
      | cons other rest => cases heq
    · cases hslot
  | cons slot rest ih =>
    obtain ⟨t, v⟩ := slot
    cases others with
    | nil =>
      rcases h 0 with heq | ⟨t, v, w, -, hother, -⟩
      · cases heq
      · cases hother
    | cons other rest' =>
      -- what is alike behind the first slot is alike once its term is known
      have hbehind : ∀ known, (∀ u ∈ t :: seen, u ∈ known) →
          ∀ j, AlikeAt known rest rest' j := by
        intro known hknown j
        refine (h (j + 1)).imp_right fun halike => ?_
        obtain ⟨u, x, y, hslot, hother, hx, hy, hu⟩ := halike
        refine ⟨u, x, y, hslot, hother, hx, hy, ?_⟩
        simp only [List.take_succ_cons, List.map_cons, List.mem_append, List.mem_cons] at hu ⊢
        rcases hu with hu | rfl | hu
        · exact Or.inl (hknown u (List.mem_cons_of_mem t hu))
        · exact Or.inl (hknown u (List.mem_cons_self ..))
        · exact Or.inr hu
      rcases h 0 with heq | ⟨u, x, y, hslot, hother, hx, hy, hu⟩
      · obtain rfl : other = (t, v) := Option.some.inj heq
        rw [consulted, consulted]
        by_cases hknown : t ∈ seen
        · rw [if_pos hknown, if_pos hknown,
            ih rest' seen (hbehind seen (List.forall_mem_cons.2 ⟨hknown, fun _ hu => hu⟩))]
        · rw [if_neg hknown, if_neg hknown, ih rest' (t :: seen) (hbehind _ fun _ hu => hu)]
      · obtain ⟨rfl, rfl⟩ := Prod.mk.inj (Option.some.inj hslot)
        obtain rfl : other = (t, y) := Option.some.inj hother
        have hknown : t ∈ seen := by simpa using hu
        rw [consulted, consulted, hx, hy, if_neg Bool.false_ne_true, if_neg Bool.false_ne_true,
          if_pos hknown, if_pos hknown]
        exact ih rest' seen (hbehind seen (List.forall_mem_cons.2 ⟨hknown, fun _ hu => hu⟩))

theorem alikeAt_set {terms : List String} {vs : List Value} (hlen : vs.length = terms.length)
    {j : Nat} {t : String} {v : Value} (w : Value) (hterm : terms[j]? = some t)
    (hknown : t ∈ terms.take j) (hslot : vs[j]? = some v) (hv : v.isMissing = false)
    (hw : w.isMissing = false) (i : Nat) :
    AlikeAt [] (terms.zip vs) (terms.zip (vs.set j w)) i := by
  by_cases hi : i = j
  · subst hi
    refine Or.inr ⟨t, v, w, ?_, ?_, hv, hw, ?_⟩
    · exact List.getElem?_zip_eq_some.2 ⟨hterm, hslot⟩
    · have hlt := (List.getElem?_eq_some_iff.1 hslot).1
      exact List.getElem?_zip_eq_some.2 ⟨hterm, List.getElem?_set_self hlt⟩
    · rw [List.nil_append, List.map_take, List.map_fst_zip (by omega)]
      exact hknown
  · refine Or.inl ?_
    rw [List.zip_eq_zipWith, List.zip_eq_zipWith, List.getElem?_zipWith, List.getElem?_zipWith,
      List.getElem?_set_ne (Ne.symm hi)]

/-! ### One slot for each term -/

theorem consulted_eq_map (slots : List (String × Value)) (seen : List String)
    (hgiven : ∀ slot ∈ slots, slot.2.isMissing = false) :
    consulted seen slots =
      ((Demand.distinct (slots.map Prod.fst)).filter (· ∉ seen)).map
        fun t => (t, (slots.lookup t).getD .missing) := by
  induction slots generalizing seen with
  | nil => rfl
  | cons slot rest ih =>
    obtain ⟨t, v⟩ := slot
    have hall := List.forall_mem_cons.1 hgiven
    -- The terms behind this slot find the same slots as before.
    have hrest : ∀ known, t ∈ known → consulted known rest =
        ((Demand.distinct (rest.map Prod.fst)).filter (· ∉ known)).map
          fun u => (u, (((t, v) :: rest).lookup u).getD .missing) := by
      intro known hmem
      rw [ih known hall.2]
      apply List.map_congr_left
      intro u hu
      have hne : u ≠ t := by
        rintro rfl
        have hu' := (List.mem_filter.1 hu).2
        simp [hmem] at hu'
      rw [List.lookup_cons, beq_eq_false_iff_ne.2 hne]
    rw [consulted, hall.1, if_neg Bool.false_ne_true, List.map_cons, Demand.distinct]
    by_cases hknown : t ∈ seen
    · have hfilter : ((Demand.distinct (rest.map Prod.fst)).filter (· ≠ t)).filter (· ∉ seen) =
          (Demand.distinct (rest.map Prod.fst)).filter (· ∉ seen) := by
        rw [List.filter_filter]
        apply List.filter_congr
        intro u _
        by_cases hu : u = t
        · simp [hu, hknown]
        · simp [hu]
      rw [if_pos hknown, List.filter_cons_of_neg (by simpa using hknown), hfilter]
      exact hrest seen hknown
    · have hfilter : ((Demand.distinct (rest.map Prod.fst)).filter (· ≠ t)).filter (· ∉ seen) =
          (Demand.distinct (rest.map Prod.fst)).filter (· ∉ t :: seen) := by
        rw [List.filter_filter]
        apply List.filter_congr
        intro u _
        simp [Bool.and_comm]
      rw [if_neg hknown, List.filter_cons_of_pos (by simpa using hknown), hfilter, List.map_cons,
        List.lookup_cons_self, ← hrest (t :: seen) (List.mem_cons_self ..)]
      rfl

def firstSlots (terms : List String) (vs : List Value) : List Value :=
  (Demand.distinct terms).map fun t => ((terms.zip vs).lookup t).getD .missing

theorem consulted_zip {terms : List String} {vs : List Value} (hlen : vs.length = terms.length)
    (hgiven : ∀ v ∈ vs, v.isMissing = false) :
    consulted [] (terms.zip vs) = (Demand.distinct terms).zip (firstSlots terms vs) := by
  have hall : ∀ slot ∈ terms.zip vs, slot.2.isMissing = false :=
    fun slot hslot => hgiven slot.2 (List.of_mem_zip hslot).2
  rw [consulted_eq_map _ _ hall, List.map_fst_zip (by omega), firstSlots,
    ← List.map_prod_left_eq_zip]
  simp

theorem Demand.needed_distinct {terms : List String} {t : String} (ht : t ∈ terms) :
    needed false (distinct terms) t = 1 :=
  List.count_eq_one_of_mem (nodup_distinct terms) ((mem_distinct t terms).2 ht)

/-! ### Both -/

section Slots

variable {distance : Nat} {terms : List String} {vs ws : List Value} {shared : Bool}

theorem Search.start_congr (hlen : ws.length = vs.length)
    (h : vs.length = terms.length →
      consulted [] (terms.zip ws) = consulted [] (terms.zip vs)) :
    start distance terms ws shared = start distance terms vs shared := by
  rw [start, start, hlen]
  split
  · rfl
  · split
    · rfl
    · rw [← fill_idle_consulted, h (by omega), fill_idle_consulted]

theorem Choice.possible_congr (hlen : ws.length = vs.length)
    (h : vs.length = terms.length →
      consulted [] (terms.zip ws) = consulted [] (terms.zip vs)) :
    possible distance terms ws shared = possible distance terms vs shared := by
  rw [possible, possible, hlen]
  split
  · rfl
  · rename_i hfew
    split
    · rfl
    · have hle : ¬vs.length < terms.length := by
        intro hlt
        simp [hlt] at hfew
      rw [← gather_empty_consulted, h (by omega), gather_empty_consulted]

theorem Search.start_shared (hlen : vs.length = terms.length)
    (hgiven : ∀ v ∈ vs, v.isMissing = false) :
    start distance terms vs true =
      start distance (Demand.distinct terms) (firstSlots terms vs) false := by
  have hfirsts : (firstSlots terms vs).length = (Demand.distinct terms).length := by
    rw [firstSlots, List.length_map]
  rw [start_eq_fill distance true hlen, start_eq_fill distance false hfirsts,
    ← fill_idle_consulted, consulted_zip hlen hgiven]
  apply fill_congr_needed
  intro slot hslot
  have hmem := (Demand.mem_distinct slot.1 terms).1 (List.of_mem_zip hslot).1
  rw [Demand.needed_distinct hmem]
  rfl

theorem Choice.possible_shared (hlen : vs.length = terms.length)
    (hgiven : ∀ v ∈ vs, v.isMissing = false) :
    possible distance terms vs true =
      possible distance (Demand.distinct terms) (firstSlots terms vs) false := by
  by_cases hne : terms = []
  · subst hne
    rfl
  · have hfirsts : (firstSlots terms vs).length = (Demand.distinct terms).length := by
      rw [firstSlots, List.length_map]
    have hne' : Demand.distinct terms ≠ [] := by
      obtain ⟨t, ht⟩ := List.exists_mem_of_ne_nil terms hne
      exact List.ne_nil_of_mem ((Demand.mem_distinct t terms).2 ht)
    rw [possible_of_gather _ _ _ _ hlen hne, possible_of_gather _ _ _ _ hfirsts hne',
      ← gather_empty_consulted, consulted_zip hlen hgiven]
    cases hgather : gather Table.empty ((Demand.distinct terms).zip (firstSlots terms vs)) with
    | error refused => rfl
    | ok gathered =>
      cases gathered with
      | none => rfl
      | some found =>
        have hneeded : ∀ entry ∈ found.entries, Demand.needed true terms entry.1 =
            Demand.needed false (Demand.distinct terms) entry.1 := by
          intro entry hentry
          have hkey : entry.1 ∈ found.keys := List.mem_map_of_mem hentry
          rcases keys_of_gather hgather entry.1 hkey with hold | hmem
          · cases hold
          · rw [List.map_fst_zip (by omega), Demand.mem_distinct] at hmem
            exact (Demand.needed_distinct hmem).symm
        have hdemands := List.map_congr_left fun entry hentry =>
          congrArg (fun n => (n, entry.2.toList)) (hneeded entry hentry)
        simp only [Except.bind, hdemands]

end Slots

/-- Another value in a given slot of a term that an earlier slot has leaves a search and the choice
as they are, whatever else is handed over. Where each term has a given slot and repetitions share
their positions, both are as for the terms listed once, with the first slot of each. -/
theorem unread_slot_or_shared (distance : Value) (terms : List String) (slots : Value)
    (vs : List Value) (hslots : slots.elements = .ok vs) :
    (∀ (shared : Bool) (j : Nat) (t : String) (v w others : Value), terms[j]? = some t →
      t ∈ terms.take j → vs[j]? = some v → v.isMissing = false → w.isMissing = false →
      others.elements = .ok (vs.set j w) →
      Search.ofValues distance terms others shared = Search.ofValues distance terms slots shared ∧
      Choice.ofValues distance terms others shared =
        Choice.ofValues distance terms slots shared) ∧
    (vs.length = terms.length → (∀ v ∈ vs, v.isMissing = false) →
      let once := Value.list (firstSlots terms vs)
      Search.ofValues distance terms slots true =
        Search.ofValues distance (Demand.distinct terms) once false ∧
      Choice.ofValues distance terms slots true =
        Choice.ofValues distance (Demand.distinct terms) once false) := by
  unfold Search.ofValues Choice.ofValues
  refine ⟨fun shared j t v w others hterm hknown hslot hv hw hothers => ?_,
    fun hlen hgiven => ?_⟩
  · have hsame : vs.length = terms.length →
        consulted [] (terms.zip (vs.set j w)) = consulted [] (terms.zip vs) :=
      fun hlen => consulted_congr _ _ [] (alikeAt_set hlen w hterm hknown hslot hv hw)
    rw [hslots, hothers]
    cases Distance.ofValue distance with
    | error refused => exact ⟨rfl, rfl⟩
    | ok d =>
      exact ⟨Search.start_congr (List.length_set ..) hsame,
        Choice.possible_congr (List.length_set ..) hsame⟩
  · rw [hslots]
    cases Distance.ofValue distance with
    | error refused => exact ⟨rfl, rfl⟩
    | ok d => exact ⟨Search.start_shared hlen hgiven, Choice.possible_shared hlen hgiven⟩

/-- The slot that the term `a` repeats holds no list at all, and nothing comes of it. -/
theorem unread_slot_or_shared_repeated :
    let slots : List Value := [.ofInts [9, 5, 6], .ofInts [7, 1, 7], .ofInts []]
    let others : List Value := [.ofInts [9, 5, 6], .ofInts [7, 1, 7], .truth true]
    (Search.ofValues (.whole 4) ["a", "b", "a"] (.list others) false =
        Search.ofValues (.whole 4) ["a", "b", "a"] (.list slots) false ∧
      Choice.ofValues (.whole 4) ["a", "b", "a"] (.list others) false =
        Choice.ofValues (.whole 4) ["a", "b", "a"] (.list slots) false) ∧
    Search.ofValues (.whole 4) ["a", "b", "a"] (.list slots) true =
      Search.ofValues (.whole 4) ["a", "b"] (.list [.ofInts [9, 5, 6], .ofInts [7, 1, 7]])
        false := by
  intro slots others
  obtain ⟨hunread, hshared⟩ :=
    unread_slot_or_shared (.whole 4) ["a", "b", "a"] (.list slots) slots rfl
  have hknown : "a" ∈ ["a", "b", "a"].take 2 := by decide
  exact ⟨hunread false 2 "a" (.ofInts []) (.truth true) (.list others) rfl hknown rfl rfl rfl rfl,
    (hshared rfl (by decide)).1⟩

end TermWindow
