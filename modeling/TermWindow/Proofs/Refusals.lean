import TermWindow.Proofs.Agreement

/-!
# Refused arguments

A search and the brute-force choice read the same slots from the left, and both are refused with
what the first slot that cannot be read is refused with. They differ in what they leave unread. A
search is given up at a slot with too few positions, where the choice reads on, and without terms
the choice looks at no slots at all, not even at their number.
-/

namespace TermWindow

/-- The reading of slots comes to one that is refused. The slots in front of it are given; those
among them that count for their terms give the positions `read`. -/
inductive RefusedAfter :
    List String → List (String × Value) → List (String × Positions) → Fault → Prop where
  | here {seen : List String} {t : String} {v : Value} {rest : List (String × Value)}
      {fault : Fault} (hgiven : v.isMissing = false) (hnew : t ∉ seen)
      (hv : Positions.ofValue v = .error fault) : RefusedAfter seen ((t, v) :: rest) [] fault
  | known {seen : List String} {t : String} {v : Value} {rest : List (String × Value)}
      {read : List (String × Positions)} {fault : Fault} (hgiven : v.isMissing = false)
      (hknown : t ∈ seen) (h : RefusedAfter seen rest read fault) :
      RefusedAfter seen ((t, v) :: rest) read fault
  | next {seen : List String} {t : String} {v : Value} {rest : List (String × Value)}
      {p : Positions} {read : List (String × Positions)} {fault : Fault}
      (hgiven : v.isMissing = false) (hnew : t ∉ seen) (hv : Positions.ofValue v = .ok p)
      (h : RefusedAfter (t :: seen) rest read fault) :
      RefusedAfter seen ((t, v) :: rest) ((t, p) :: read) fault

namespace RefusedAfter

variable {seen : List String} {t : String} {v : Value} {rest : List (String × Value)}
  {read : List (String × Positions)} {fault : Fault}

theorem isMissing_eq_false (h : RefusedAfter seen ((t, v) :: rest) read fault) :
    v.isMissing = false := by
  cases h with
  | here hgiven => exact hgiven
  | known hgiven => exact hgiven
  | next hgiven => exact hgiven

theorem known_iff (hgiven : v.isMissing = false) (hknown : t ∈ seen) :
    RefusedAfter seen ((t, v) :: rest) read fault ↔ RefusedAfter seen rest read fault := by
  refine ⟨fun h => ?_, .known hgiven hknown⟩
  cases h with
  | here _ hnew => exact absurd hknown hnew
  | known _ _ h => exact h
  | next _ hnew => exact absurd hknown hnew

theorem here_iff (hgiven : v.isMissing = false) (hnew : t ∉ seen) {found : Fault}
    (hv : Positions.ofValue v = .error found) :
    RefusedAfter seen ((t, v) :: rest) read fault ↔ read = [] ∧ fault = found := by
  refine ⟨fun h => ?_, fun h => ?_⟩
  · cases h with
    | here _ _ hw => exact ⟨rfl, Except.error.inj (hw.symm.trans hv)⟩
    | known _ hknown => exact absurd hknown hnew
    | next _ _ hw => cases hw.symm.trans hv
  · obtain ⟨rfl, rfl⟩ := h
    exact .here hgiven hnew hv

theorem next_iff (hgiven : v.isMissing = false) (hnew : t ∉ seen) {p : Positions}
    (hv : Positions.ofValue v = .ok p) :
    RefusedAfter seen ((t, v) :: rest) read fault ↔
      ∃ others, read = (t, p) :: others ∧ RefusedAfter (t :: seen) rest others fault := by
  refine ⟨fun h => ?_, fun h => ?_⟩
  · cases h with
    | here _ _ hw => cases hw.symm.trans hv
    | known _ hknown => exact absurd hknown hnew
    | next _ _ hw h =>
      obtain rfl := Except.ok.inj (hw.symm.trans hv)
      exact ⟨_, rfl, h⟩
  · obtain ⟨others, rfl, h⟩ := h
    exact .next hgiven hnew hv h

theorem unique {others : List (String × Positions)} {found : Fault}
    (h : RefusedAfter seen rest read fault) (h' : RefusedAfter seen rest others found) :
    read = others ∧ fault = found := by
  induction h generalizing others with
  | here hgiven hnew hv =>
    obtain ⟨rfl, rfl⟩ := (here_iff hgiven hnew hv).1 h'
    exact ⟨rfl, rfl⟩
  | known hgiven hknown _ ih => exact ih ((known_iff hgiven hknown).1 h')
  | next hgiven hnew hv _ ih =>
    obtain ⟨behind, rfl, hbehind⟩ := (next_iff hgiven hnew hv).1 h'
    obtain ⟨rfl, rfl⟩ := ih hbehind
    exact ⟨rfl, rfl⟩

end RefusedAfter

/-! ### The choice -/

namespace Choice

theorem gather_eq_error_iff (pairs : List (String × Value)) (found : Table Positions)
    (seen : List String) (hseen : ∀ t, (found.get? t).isSome = true ↔ t ∈ seen) (fault : Fault) :
    gather found pairs = .error fault ↔ ∃ read, RefusedAfter seen pairs read fault := by
  induction pairs generalizing found seen with
  | nil =>
    refine iff_of_false (by simp [gather]) fun h => ?_
    obtain ⟨read, h⟩ := h
    cases h
  | cons pair rest ih =>
    obtain ⟨t, v⟩ := pair
    rw [gather]
    cases hgiven : v.isMissing with
    | true =>
      refine iff_of_false (by simp) fun h => ?_
      obtain ⟨read, h⟩ := h
      rw [h.isMissing_eq_false] at hgiven
      cases hgiven
    | false =>
      rw [if_neg Bool.false_ne_true]
      by_cases hknown : t ∈ seen
      · rw [if_pos ((hseen t).2 hknown), ih found seen hseen]
        exact exists_congr fun read => (RefusedAfter.known_iff hgiven hknown).symm
      · rw [if_neg fun h => hknown ((hseen t).1 h)]
        cases hv : Positions.ofValue v with
        | error refused =>
          show Except.error refused = Except.error fault ↔ _
          simp only [RefusedAfter.here_iff hgiven hknown hv, exists_eq_left, Except.error.injEq,
            eq_comm]
        | ok p =>
          have hinsert : ∀ u, ((found.insert t p).get? u).isSome = true ↔ u ∈ t :: seen := by
            intro u
            rw [Table.get?_insert, List.mem_cons, ← hseen u]
            by_cases hu : u = t <;> simp [hu]
          show gather (found.insert t p) rest = .error fault ↔ _
          simp only [RefusedAfter.next_iff hgiven hknown hv, ih _ _ hinsert]
          refine ⟨fun h => ?_, fun h => ?_⟩
          · obtain ⟨read, h⟩ := h
            exact ⟨_, read, rfl, h⟩
          · obtain ⟨_, read, -, h⟩ := h
            exact ⟨read, h⟩

theorem possible_eq_error_iff (distance : Nat) (terms : List String) (slots : List Value)
    (shared : Bool) (fault : Fault) :
    possible distance terms slots shared = .error fault ↔
      (terms ≠ [] ∧ terms.length < slots.length ∧
        .surplusLists terms.length slots.length = fault) ∨
      (slots.length = terms.length ∧ ∃ read, RefusedAfter [] (terms.zip slots) read fault) := by
  by_cases hempty : terms = []
  · subst hempty
    refine iff_of_false (by simp [possible]) ?_
    rintro (⟨hne, -⟩ | ⟨-, read, h⟩)
    · exact hne rfl
    · cases h
  · have hne : terms.isEmpty = false := by simpa using hempty
    rcases Nat.lt_trichotomy slots.length terms.length with hlt | heq | hgt
    · rw [possible, if_pos (by simp [hlt])]
      exact iff_of_false (by simp) (by omega)
    · have hnone : ∀ t, ((Table.empty : Table Positions).get? t).isSome = true ↔ t ∈ [] :=
        fun t => iff_of_false Bool.false_ne_true List.not_mem_nil
      have hgather := gather_eq_error_iff (terms.zip slots) Table.empty [] hnone fault
      rw [possible_of_gather distance terms slots shared heq hempty, ← hgather]
      simp only [heq, lt_irrefl, false_and, and_false, false_or, true_and]
      rcases gather Table.empty (terms.zip slots) with refused | _ | found
      · show Except.error refused = Except.error fault ↔ _
        simp only [Except.error.injEq]
      · simp [Except.bind]
      · simp [Except.bind]
    · have hfew : ¬slots.length < terms.length := by omega
      have hlen : ¬slots.length = terms.length := by omega
      simp [possible, hempty, hfew, hgt, hlen]

end Choice

/-! ### The search -/

namespace Search

theorem holds_idle_iff (distance : Nat) (t : String) :
    (idle distance).holds t = true ↔ t ∈ [] :=
  iff_of_false Bool.false_ne_true List.not_mem_nil

theorem holds_enter_iff (s : Search) (r : Reader) (low high : Int) (u : String) :
    (s.enter r low high).holds u = true ↔ u = r.term ∨ s.holds u = true := by
  simp only [holds, enter, List.any_eq_true, Entry.mem_enqueue, decide_eq_true_eq]
  refine ⟨fun h => ?_, fun h => ?_⟩
  · obtain ⟨e, rfl | he, rfl⟩ := h
    · exact Or.inl rfl
    · exact Or.inr ⟨e, he, rfl⟩
  · rcases h with rfl | ⟨e, he, rfl⟩
    · exact ⟨_, Or.inl rfl, rfl⟩
    · exact ⟨e, Or.inr he, rfl⟩

theorem fill_refused (needed : String → Nat) (s : Search) (t : String) (v : Value)
    (rest : List (String × Value)) (hpos : 0 < needed t) (hgiven : v.isMissing = false)
    (hnew : s.holds t = false) {refused : Fault} (hv : Positions.ofValue v = .error refused) :
    fill needed s ((t, v) :: rest) = .error refused := by
  have hcount : ¬((needed t : Int) < 1) := by omega
  simp only [fill, hgiven, hnew, Bool.false_eq_true, if_false, Reader.ofValue, Option.getD_some,
    hcount, dite_false, hv]
  rfl

theorem fill_eq_error_iff (needed : String → Nat) (pairs : List (String × Value)) (s : Search)
    (seen : List String) (hpos : ∀ q ∈ pairs, 0 < needed q.1)
    (hseen : ∀ t, s.holds t = true ↔ t ∈ seen) (fault : Fault) :
    fill needed s pairs = .error fault ↔
      ∃ read, RefusedAfter seen pairs read fault ∧ ∀ q ∈ read, needed q.1 ≤ q.2.size := by
  induction pairs generalizing s seen with
  | nil =>
    refine iff_of_false (by simp [fill]) fun h => ?_
    obtain ⟨read, h, -⟩ := h
    cases h
  | cons pair rest ih =>
    obtain ⟨t, v⟩ := pair
    have hpos' := List.forall_mem_cons.1 hpos
    cases hgiven : v.isMissing with
    | true =>
      refine iff_of_false (by simp [fill, hgiven]) fun h => ?_
      obtain ⟨read, h, -⟩ := h
      rw [h.isMissing_eq_false] at hgiven
      cases hgiven
    | false =>
      by_cases hknown : t ∈ seen
      · have hskip : fill needed s ((t, v) :: rest) = fill needed s rest := by
          simp [fill, hgiven, (hseen t).2 hknown]
        rw [hskip, ih s seen hpos'.2 hseen]
        simp only [RefusedAfter.known_iff hgiven hknown]
      · have hholds : s.holds t = false := Bool.eq_false_iff.2 fun h => hknown ((hseen t).1 h)
        cases hv : Positions.ofValue v with
        | error refused =>
          rw [fill_refused needed s t v rest hpos'.1 hgiven hholds hv, Except.error.injEq]
          simp [RefusedAfter.here_iff hgiven hknown hv, eq_comm]
        | ok p =>
          rcases fill_new needed s t v p hpos'.1 hgiven hholds hv with
            ⟨heq, hfew⟩ | ⟨r, low, high, rfl, -, -, -, henough, -, -, heq⟩
          · rw [heq rest]
            refine iff_of_false (by simp) fun h => ?_
            obtain ⟨read, h, hsizes⟩ := h
            obtain ⟨others, rfl, -⟩ := (RefusedAfter.next_iff hgiven hknown hv).1 h
            have hsize := hsizes (t, p) (List.mem_cons_self ..)
            simp only at hsize
            omega
          · have hseen' : ∀ u, (s.enter r low high).holds u = true ↔ u ∈ r.term :: seen := by
              intro u
              rw [holds_enter_iff, List.mem_cons, hseen]
            rw [heq rest, ih _ _ hpos'.2 hseen']
            simp only [RefusedAfter.next_iff hgiven hknown hv]
            refine ⟨fun h => ?_, fun h => ?_⟩
            · obtain ⟨read, h, hsizes⟩ := h
              exact ⟨_, ⟨read, rfl, h⟩, List.forall_mem_cons.2 ⟨henough, hsizes⟩⟩
            · obtain ⟨_, ⟨read, rfl, h⟩, hsizes⟩ := h
              exact ⟨read, h, (List.forall_mem_cons.1 hsizes).2⟩

theorem start_eq_error_iff (distance : Nat) (terms : List String) (slots : List Value)
    (shared : Bool) (fault : Fault) :
    start distance terms slots shared = .error fault ↔
      (terms.length < slots.length ∧ .surplusLists terms.length slots.length = fault) ∨
      (slots.length = terms.length ∧ ∃ read, RefusedAfter [] (terms.zip slots) read fault ∧
        ∀ q ∈ read, Demand.needed shared terms q.1 ≤ q.2.size) := by
  rcases Nat.lt_trichotomy slots.length terms.length with hlt | heq | hgt
  · rw [start, if_pos hlt]
    exact iff_of_false (by simp) (by omega)
  · have hpos : ∀ q ∈ terms.zip slots, 0 < Demand.needed shared terms q.1 :=
      fun q hq => Demand.needed_pos shared (List.of_mem_zip hq).1
    rw [start_eq_fill distance shared heq,
      fill_eq_error_iff _ (terms.zip slots) (idle distance) [] hpos (holds_idle_iff distance) fault]
    simp only [heq, lt_irrefl, false_and, false_or, true_and]
  · have hfew : ¬slots.length < terms.length := by omega
    have hlen : ¬slots.length = terms.length := by omega
    simp [start, hfew, hgt, hlen]

end Search

/-! ### Both -/

section Both

variable (distance : Nat) (terms : List String) (slots : List Value) (shared : Bool)

theorem refusals_eq (f g : Fault)
    (hchoice : Choice.possible distance terms slots shared = .error f)
    (hsearch : Search.start distance terms slots shared = .error g) : f = g := by
  rcases (Choice.possible_eq_error_iff ..).1 hchoice with ⟨-, hf, rfl⟩ | ⟨hf, read, hread⟩
  · rcases (Search.start_eq_error_iff ..).1 hsearch with ⟨-, rfl⟩ | ⟨hg, -⟩
    · rfl
    · omega
  · rcases (Search.start_eq_error_iff ..).1 hsearch with ⟨hg, -⟩ | ⟨-, others, hothers, -⟩
    · omega
    · exact (hread.unique hothers).2

theorem only_search_refused_iff :
    ((∃ g, Search.start distance terms slots shared = .error g) ∧
      ∃ b, Choice.possible distance terms slots shared = .ok b) ↔ terms = [] ∧ slots ≠ [] := by
  refine ⟨fun h => ?_, fun h => ?_⟩
  · obtain ⟨⟨g, hg⟩, b, hb⟩ := h
    rcases (Search.start_eq_error_iff ..).1 hg with ⟨hmore, hsurplus⟩ | ⟨hlen, read, hread, -⟩
    · refine ⟨?_, List.ne_nil_of_length_pos (by omega)⟩
      by_contra hne
      have hrefused := (Choice.possible_eq_error_iff distance terms slots shared g).2
        (Or.inl ⟨hne, hmore, hsurplus⟩)
      cases hrefused.symm.trans hb
    · have hrefused := (Choice.possible_eq_error_iff distance terms slots shared g).2
        (Or.inr ⟨hlen, read, hread⟩)
      cases hrefused.symm.trans hb
  · obtain ⟨rfl, hne⟩ := h
    have hmore : ([] : List String).length < slots.length := List.length_pos_of_ne_nil hne
    exact ⟨⟨_, (Search.start_eq_error_iff ..).2 (Or.inl ⟨hmore, rfl⟩)⟩, false, rfl⟩

theorem only_choice_refused_iff :
    ((∃ f, Choice.possible distance terms slots shared = .error f) ∧
      ∃ s, Search.start distance terms slots shared = .ok s) ↔
    slots.length = terms.length ∧ ∃ read f, RefusedAfter [] (terms.zip slots) read f ∧
      ∃ q ∈ read, q.2.size < Demand.needed shared terms q.1 := by
  refine ⟨fun h => ?_, fun h => ?_⟩
  · obtain ⟨⟨f, hf⟩, s, hs⟩ := h
    rcases (Choice.possible_eq_error_iff ..).1 hf with ⟨-, hmore, hsurplus⟩ | ⟨hlen, read, hread⟩
    · have hrefused := (Search.start_eq_error_iff distance terms slots shared f).2
        (Or.inl ⟨hmore, hsurplus⟩)
      cases hrefused.symm.trans hs
    · refine ⟨hlen, read, f, hread, ?_⟩
      by_contra hall
      have henough : ∀ q ∈ read, Demand.needed shared terms q.1 ≤ q.2.size :=
        fun q hq => Nat.le_of_not_lt fun hfew => hall ⟨q, hq, hfew⟩
      have hrefused := (Search.start_eq_error_iff distance terms slots shared f).2
        (Or.inr ⟨hlen, read, hread, henough⟩)
      cases hrefused.symm.trans hs
  · obtain ⟨hlen, read, f, hread, q, hq, hfew⟩ := h
    refine ⟨⟨f, (Choice.possible_eq_error_iff ..).2 (Or.inr ⟨hlen, read, hread⟩)⟩, ?_⟩
    cases hs : Search.start distance terms slots shared with
    | ok s => exact ⟨s, rfl⟩
    | error g =>
      rcases (Search.start_eq_error_iff ..).1 hs with ⟨hmore, -⟩ | ⟨-, others, hothers, henough⟩
      · omega
      · obtain ⟨rfl, -⟩ := hread.unique hothers
        have hsize := henough q hq
        omega

end Both

/-- A search and the choice that are both refused are refused with the same fault. The search alone
is refused just when there are slots and no terms, and the choice alone just when a slot that cannot
be read comes after one with too few positions. -/
theorem refused_alike_or_alone (distance : Value) (terms : List String) (slots : Value)
    (shared : Bool) :
    (∀ f g, Choice.ofValues distance terms slots shared = .error f →
      Search.ofValues distance terms slots shared = .error g → f = g) ∧
    (((∃ g, Search.ofValues distance terms slots shared = .error g) ∧
        ∃ b, Choice.ofValues distance terms slots shared = .ok b) ↔
      ∃ d vs, Distance.ofValue distance = .ok d ∧ slots.elements = .ok vs ∧
        terms = [] ∧ vs ≠ []) ∧
    (((∃ f, Choice.ofValues distance terms slots shared = .error f) ∧
        ∃ s, Search.ofValues distance terms slots shared = .ok s) ↔
      ∃ d vs, Distance.ofValue distance = .ok d ∧ slots.elements = .ok vs ∧
        vs.length = terms.length ∧ ∃ read f, RefusedAfter [] (terms.zip vs) read f ∧
          ∃ q ∈ read, q.2.size < Demand.needed shared terms q.1) := by
  unfold Choice.ofValues Search.ofValues
  cases Distance.ofValue distance with
  | error refused => simp [bind, Except.bind]
  | ok d =>
    cases slots.elements with
    | error refused => simp [bind, Except.bind]
    | ok vs =>
      simp only [bind, Except.bind, Except.ok.injEq, exists_and_left, exists_eq_left']
      exact ⟨refusals_eq d terms vs shared, only_search_refused_iff d terms vs shared,
        only_choice_refused_iff d terms vs shared⟩

/-- Slots without terms, and a slot with a negative number after one with too few positions. -/
theorem refusals_differ :
    (Choice.ofValues (.whole 1) [] (.list [.ofInts [1]]) false = .ok false ∧
      Search.ofValues (.whole 1) [] (.list [.ofInts [1]]) false = .error (.surplusLists 0 1)) ∧
    Choice.ofValues (.whole 1) ["a", "b"] (.list [.ofInts [], .ofInts [-1]]) false =
      .error (.negativePosition (-1)) ∧
    Search.ofValues (.whole 1) ["a", "b"] (.list [.ofInts [], .ofInts [-1]]) false =
      .ok (Search.idle 1) := by
  refine ⟨⟨rfl, rfl⟩, ?_, ?_⟩
  · rfl
  · rfl

end TermWindow
