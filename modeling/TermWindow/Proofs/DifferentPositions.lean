import Mathlib.Data.List.Dedup
import TermWindow.Proofs.Agreement
import TermWindow.Proofs.FieldMatching

/-!
# Different positions

A repeated term is to be met at different positions, and what is counted are the entries of its
list. The two are the same for a term whose list has no position twice. Where a list repeats one,
an answer may rest on the repetition; cleared of repetitions, the lists give a window just when
there is one with different positions.
-/

namespace TermWindow

namespace Task

variable {T : Task} {pick : String → List Int}

/-- A pick that fits and takes no position of a term twice. -/
structure FitsOnce (T : Task) (pick : String → List Int) : Prop extends T.Fits pick where
  once : ∀ t ∈ T.terms, (pick t).Nodup

/-- The same task with every position of a term listed once. -/
def cleared (T : Task) : Task := { T with occurrences := fun t => (T.occurrences t).dedup }

theorem Fits.nodup (h : T.Fits pick) (t : String) (ht : t ∈ T.terms)
    (hn : T.needed t = 1 ∨ (T.occurrences t).Nodup) : (pick t).Nodup := by
  rcases hn with hone | hn
  · obtain ⟨x, hx⟩ := List.length_eq_one_iff.1 ((h.enough t ht).trans hone)
    rw [hx]
    exact List.nodup_singleton x
  · obtain ⟨picked, hperm, hsub⟩ := h.taken t ht
    exact hperm.nodup_iff.1 (hn.sublist hsub)

theorem exists_fits_cleared_iff :
    (∃ pick, T.cleared.Fits pick) ↔ ∃ pick, T.FitsOnce pick := by
  refine ⟨fun h => ?_, fun h => ?_⟩
  · obtain ⟨pick, h⟩ := h
    refine ⟨pick, ⟨fun t ht => ?_, h.enough, h.close⟩, fun t ht => ?_⟩
    · exact (h.taken t ht).trans (List.dedup_sublist _).subperm
    · exact h.nodup t ht (Or.inr (List.nodup_dedup _))
  · obtain ⟨pick, h⟩ := h
    refine ⟨pick, fun t ht => ?_, h.enough, h.close⟩
    apply List.subperm_of_subset (h.once t ht)
    intro x hx
    exact List.mem_dedup.2 ((h.taken t ht).subset hx)

theorem needed_le_of_fitsOnce (h : T.FitsOnce pick) (t : String) (ht : t ∈ T.terms) :
    T.needed t ≤ (T.occurrences t).dedup.length := by
  obtain ⟨picked, hfits⟩ := exists_fits_cleared_iff.2 ⟨pick, h⟩
  have hlen := (hfits.taken t ht).length_le
  rw [hfits.enough t ht] at hlen
  exact hlen

/-! ### Slots cleared of repetitions -/

theorem ofSlots_map_dedup (distance : Nat) (terms : List String)
    (slots : List (Option (List Int))) (shared : Bool) :
    ofSlots distance terms (slots.map (Option.map List.dedup)) shared =
      (ofSlots distance terms slots shared).cleared :=
  ofSlots_map List.dedup List.dedup_nil distance terms slots shared

theorem plain_map_dedup (slots : List (Option (List Int)))
    (h : ∀ xs, some xs ∈ slots → ∀ x ∈ xs, Positions.Plain x) :
    ∀ xs, some xs ∈ slots.map (Option.map List.dedup) → ∀ x ∈ xs, Positions.Plain x := by
  intro xs hxs x hx
  obtain ⟨slot, hslot, heq⟩ := List.mem_map.1 hxs
  obtain ⟨ys, rfl, rfl⟩ := Option.map_eq_some_iff.1 heq
  exact h ys hslot x (List.mem_dedup.1 hx)

end Task

/-! ### Answers over slots -/

section Slots

variable (distance : Nat) (terms : List String) (slots : List (Option (List Int)))

theorem answers_cleared (shared : Bool) (hlen : slots.length = terms.length)
    (hplain : ∀ xs, some xs ∈ slots → ∀ x ∈ xs, Positions.Plain x) :
    let once := (slots.map (Option.map List.dedup)).map Value.slot
    ∃ s b, Search.start distance terms once shared = .ok s ∧
      Choice.possible distance terms once shared = .ok b ∧ s.found = b ∧
      (b = true ↔ terms ≠ [] ∧ none ∉ slots ∧
        ∃ pick, (Task.ofSlots distance terms slots shared).FitsOnce pick) := by
  have hlen' : (slots.map (Option.map List.dedup)).length = terms.length := by
    rw [List.length_map, hlen]
  have hnone : none ∈ slots.map (Option.map List.dedup) ↔ none ∈ slots := by simp
  obtain ⟨s, b, hs, hb, hfound, hiff⟩ := answers_ofSlots distance terms _ shared hlen'
    (Task.plain_map_dedup slots hplain)
  rw [hnone, Task.ofSlots_map_dedup, Task.exists_fits_cleared_iff] at hiff
  exact ⟨s, b, hs, hb, hfound, hiff⟩

theorem Choice.length_eq_of_possible (slots : List Value) (shared : Bool)
    (h : possible distance terms slots shared = .ok true) : slots.length = terms.length := by
  unfold possible at h
  split at h
  · cases h
  · rename_i hfew
    split at h
    · cases h
    · simp only [Bool.or_eq_true, decide_eq_true_eq] at hfew
      omega

theorem exists_fits_of_found (shared : Bool)
    (hplain : ∀ xs, some xs ∈ slots → ∀ x ∈ xs, Positions.Plain x) (s : Search)
    (hs : Search.start distance terms (slots.map Value.slot) shared = .ok s)
    (hfound : s.found = true) : ∃ pick, (Task.ofSlots distance terms slots shared).Fits pick := by
  have hlen := Search.length_eq_of_found distance terms _ shared s hs hfound
  rw [List.length_map] at hlen
  obtain ⟨s', b, hs', -, hb, hiff⟩ := answers_ofSlots distance terms slots shared hlen hplain
  obtain rfl := Except.ok.inj (hs'.symm.trans hs)
  exact (hiff.1 (hb.symm.trans hfound)).2.2

theorem exists_fits_of_possible (shared : Bool)
    (hplain : ∀ xs, some xs ∈ slots → ∀ x ∈ xs, Positions.Plain x)
    (h : Choice.possible distance terms (slots.map Value.slot) shared = .ok true) :
    ∃ pick, (Task.ofSlots distance terms slots shared).Fits pick := by
  have hlen := Choice.length_eq_of_possible distance terms _ shared h
  rw [List.length_map] at hlen
  obtain ⟨-, b, -, hb, -, hiff⟩ := answers_ofSlots distance terms slots shared hlen hplain
  exact (hiff.1 (Except.ok.inj (hb.symm.trans h))).2.2

end Slots

/-! ### Answers over documents -/

section Documents

variable (histories : Table Postings.History) (hplain : ∀ h ∈ histories.values, h.Plain)
  (distance : Nat) (terms fields : List String) (shared : Bool)

include hplain

theorem answer_replay (hterms : terms ≠ []) :
    ∃ document m b, Document.replay histories = .ok document ∧
      Matcher.make fields (.whole distance) document terms shared = .ok m ∧
      m.evaluateFields = .ok b ∧
      (b = true ↔ ∃ field ∈ fields, ∃ pick,
        (⟨distance, terms, shared, fun t => Document.given histories t field⟩ : Task).Fits pick) := by
  obtain ⟨document, hreplay, hdocument⟩ := Document.replay_positions histories hplain
  obtain ⟨b, hb, hiff⟩ := Matcher.evaluateFields_given histories hplain document hdocument
    ⟨Matcher.fieldSet fields, distance, document, terms, shared⟩ rfl hterms
  simp only [Matcher.mem_fieldSet] at hiff
  exact ⟨document, _, b, hreplay,
    Matcher.make_eq_ok fields distance document terms shared hterms, hb, hiff⟩

theorem exists_fits_of_evaluateFields (document : Document) (m : Matcher)
    (hreplay : Document.replay histories = .ok document)
    (hm : Matcher.make fields (.whole distance) document terms shared = .ok m)
    (hyes : m.evaluateFields = .ok true) :
    ∃ field ∈ fields, ∃ pick,
      (⟨distance, terms, shared, fun t => Document.given histories t field⟩ : Task).Fits pick := by
  have hterms : terms ≠ [] := by
    rintro rfl
    cases hm
  obtain ⟨document', m', b, hreplay', hm', hb, hiff⟩ :=
    answer_replay histories hplain distance terms fields shared hterms
  obtain rfl := Except.ok.inj (hreplay'.symm.trans hreplay)
  obtain rfl := Except.ok.inj (hm'.symm.trans hm)
  exact hiff.1 (Except.ok.inj (hb.symm.trans hyes))

end Documents

/-- Where there is an answer yes, the picked positions are different for each term that is needed
once or listed without repetitions. For the other terms they may be entries that agree: to know of
different positions, the slots have to be cleared of repetitions first. -/
theorem picks_differ_without_repetitions (distance : Nat) (terms fields : List String)
    (slots : List (Option (List Int)))
    (hslots : ∀ xs, some xs ∈ slots → ∀ x ∈ xs, Positions.Plain x)
    (histories : Table Postings.History) (hhistories : ∀ h ∈ histories.values, h.Plain) :
    let T := Task.ofSlots distance terms slots false
    let given := Value.list (slots.map Value.slot)
    let once := Value.list ((slots.map (Option.map List.dedup)).map Value.slot)
    let Apart (T : Task) : Prop := ∃ pick, T.Fits pick ∧
      ∀ t ∈ T.terms, T.terms.count t = 1 ∨ (T.occurrences t).Nodup → (pick t).Nodup
    (∀ s, Search.ofValues (.whole distance) terms given false = .ok s → s.found = true → Apart T) ∧
    (Choice.ofValues (.whole distance) terms given false = .ok true → Apart T) ∧
    (slots.length = terms.length → ∃ s b,
      Search.ofValues (.whole distance) terms once false = .ok s ∧
      Choice.ofValues (.whole distance) terms once false = .ok b ∧ s.found = b ∧
      (b = true ↔ terms ≠ [] ∧ none ∉ slots ∧ ∃ pick, T.FitsOnce pick)) ∧
    ∀ document m, Document.replay histories = .ok document →
      Matcher.make fields (.whole distance) document terms false = .ok m →
      m.evaluateFields = .ok true →
      ∃ field ∈ fields, Apart ⟨distance, terms, false, fun t => Document.given histories t field⟩ := by
  intro T given once Apart
  have hapart : ∀ U : Task, U.shared = false → (∃ pick, U.Fits pick) → Apart U := by
    intro U hshared hfits
    obtain ⟨pick, hfits⟩ := hfits
    refine ⟨pick, hfits, fun t ht hn => hfits.nodup t ht (hn.imp_left fun hone => ?_)⟩
    simp only [Task.needed, Demand.needed, hshared, Bool.false_eq_true, if_false, hone]
  refine ⟨fun s hs hfound => ?_, fun hyes => ?_, fun hlen => ?_, ?_⟩
  · exact hapart T rfl (exists_fits_of_found distance terms slots false hslots s hs hfound)
  · exact hapart T rfl (exists_fits_of_possible distance terms slots false hslots hyes)
  · exact answers_cleared distance terms slots false hlen hslots
  · intro document m hreplay hm hyes
    obtain ⟨field, hfield, hfits⟩ := exists_fits_of_evaluateFields histories hhistories distance
      terms fields false document m hreplay hm hyes
    exact ⟨field, hfield, hapart _ rfl hfits⟩

/-- A repeated term with a repeated position in its list, and with two positions in a document. -/
theorem picks_differ_without_repetitions_twice :
    (∃ s, Search.ofValues (.whole 2) ["a", "a"] (.list [.ofInts [5, 7], .ofInts [9]]) false =
        .ok s ∧ s.found = true) ∧
    ∃ pick,
      (⟨2, ["a", "a"], false, fun t => Document.given twoTerms t "body"⟩ : Task).FitsOnce pick := by
  have hslots : ∀ xs, some xs ∈ [some [5, 5, 7], some [9]] → ∀ x ∈ xs, Positions.Plain x := by
    simp [Positions.Plain]
  have hhistories : ∀ h ∈ twoTerms.values, h.Plain := by
    unfold Postings.History.Plain Positions.Plain
    decide
  obtain ⟨-, -, hcleared, hdocument⟩ := picks_differ_without_repetitions 2 ["a", "a"] ["body"]
    [some [5, 5, 7], some [9]] hslots twoTerms hhistories
  refine ⟨?_, ?_⟩
  · obtain ⟨s, b, hs, -, hfound, hiff⟩ := hcleared rfl
    have honce : (Task.ofSlots 2 ["a", "a"] [some [5, 5, 7], some [9]] false).FitsOnce
        fun _ => [5, 7] := ⟨⟨by decide, by decide, by decide⟩, by decide⟩
    exact ⟨s, hs, hfound.trans (hiff.2 ⟨by decide, by decide, _, honce⟩)⟩
  · obtain ⟨document, m, b, hreplay, hm, hb, hiff⟩ :=
      answer_replay twoTerms hhistories 2 ["a", "a"] ["body"] false (by decide)
    have hfits : (⟨2, ["a", "a"], false, fun t => Document.given twoTerms t "body"⟩ : Task).Fits
        fun _ => [3, 1] := ⟨by decide, by decide, by decide⟩
    rw [hiff.2 ⟨"body", by decide, _, hfits⟩] at hb
    obtain ⟨field, hfield, pick, hpick, hapart⟩ := hdocument document m hreplay hm hb
    obtain rfl := List.mem_singleton.1 hfield
    refine ⟨pick, hpick, fun t ht => hapart t ht (Or.inr ?_)⟩
    obtain rfl : t = "a" := by simpa using ht
    decide

/-- A position given when the postings are made, and given again afterwards. -/
def givenTwice : Table Postings.History :=
  ⟨[("a", ⟨⟨[("body", [5])], by decide⟩, [("body", [5])]⟩)], by decide⟩

theorem plain_givenTwice : ∀ h ∈ givenTwice.values, h.Plain := by
  unfold Postings.History.Plain Positions.Plain
  decide

/-- The position 5 is all that the term has, and it counts for two. -/
theorem found_at_one_position :
    let T := Task.ofSlots 0 ["a", "a"] [some [5, 5], some [5, 5]] false
    let U : Task := ⟨0, ["a", "a"], false, fun t => Document.given givenTwice t "body"⟩
    let given := Value.list [.ofInts [5, 5], .ofInts [5, 5]]
    ((∃ s, Search.ofValues (.whole 0) ["a", "a"] given false = .ok s ∧ s.found = true) ∧
      Choice.ofValues (.whole 0) ["a", "a"] given false = .ok true ∧
      ¬∃ pick, T.FitsOnce pick) ∧
    ((∃ document m, Document.replay givenTwice = .ok document ∧
        Matcher.make ["body"] (.whole 0) document ["a", "a"] false = .ok m ∧
        m.evaluateFields = .ok true) ∧
      ¬∃ pick, U.FitsOnce pick) := by
  intro T U given
  have hslots : ∀ xs, some xs ∈ [some [5, 5], some [5, 5]] → ∀ x ∈ xs, Positions.Plain x := by
    simp [Positions.Plain]
  have hT : T.Fits fun _ => [5, 5] := ⟨by decide, by decide, by decide⟩
  have hU : U.Fits fun _ => [5, 5] := ⟨by decide, by decide, by decide⟩
  refine ⟨⟨?_, ?_, ?_⟩, ?_, ?_⟩
  · obtain ⟨s, b, hs, -, hfound, hiff⟩ := answers_ofSlots 0 ["a", "a"] _ false rfl hslots
    exact ⟨s, hs, hfound.trans (hiff.2 ⟨by decide, by decide, _, hT⟩)⟩
  · obtain ⟨-, b, -, hb, -, hiff⟩ := answers_ofSlots 0 ["a", "a"] _ false rfl hslots
    rw [hiff.2 ⟨by decide, by decide, _, hT⟩] at hb
    exact hb
  · intro h
    obtain ⟨pick, hpick⟩ := h
    have hle := Task.needed_le_of_fitsOnce hpick "a" (by decide)
    revert hle
    decide
  · obtain ⟨document, m, b, hreplay, hm, hb, hiff⟩ :=
      answer_replay givenTwice plain_givenTwice 0 ["a", "a"] ["body"] false (by decide)
    rw [hiff.2 ⟨"body", by decide, _, hU⟩] at hb
    exact ⟨document, m, hreplay, hm, hb⟩
  · intro h
    obtain ⟨pick, hpick⟩ := h
    have hle := Task.needed_le_of_fitsOnce hpick "a" (by decide)
    revert hle
    decide

end TermWindow
