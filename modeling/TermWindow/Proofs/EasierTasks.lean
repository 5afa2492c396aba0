import TermWindow.Proofs.GivenPositions

/-!
# Easier tasks

A task is easier than another one when it asks for a wider window, for fewer of the terms, for fewer
occurrences of a term or among more of them. What fits the harder task fits the easier one after
some of the picked occurrences are left out. The searches for the two may take different steps and
halt at different readers; what they find follows from the tasks alone.
-/

namespace TermWindow

namespace Task

/-- `U` is easier than `T`. -/
structure Easier (U T : Task) : Prop where
  distance : T.distance ≤ U.distance
  terms : ∀ t ∈ U.terms, t ∈ T.terms
  needed : ∀ t ∈ U.terms, U.needed t ≤ T.needed t
  occurrences : ∀ t ∈ U.terms, (T.occurrences t).Subperm (U.occurrences t)

section Easier

variable {T U : Task} {pick : String → List Int}

def keep (U : Task) (pick : String → List Int) (t : String) : List Int :=
  (pick t).take (U.needed t)

theorem mem_of_mem_keep {t : String} {x : Int} (h : x ∈ U.keep pick t) : x ∈ pick t :=
  List.mem_of_mem_take h

theorem Easier.fits (h : U.Easier T) (hfits : T.Fits pick) : U.Fits (U.keep pick) where
  taken t ht := by
    have hpick := (hfits.taken t (h.terms t ht)).trans (h.occurrences t ht)
    exact (List.take_sublist _ _).subperm.trans hpick
  enough t ht := by
    have henough := hfits.enough t (h.terms t ht)
    have hneeded := h.needed t ht
    rw [keep, List.length_take]
    omega
  close t ht u hu x hx y hy := by
    have hclose := hfits.close t (h.terms t ht) u (h.terms u hu) x (mem_of_mem_keep hx) y
      (mem_of_mem_keep hy)
    have hwider := h.distance
    omega

theorem Easier.reached (h : U.Easier T) (hreached : T.Reached pick) : U.Reached (U.keep pick) := by
  intro t ht x hx
  have hx' := hreached t (h.terms t ht) x (mem_of_mem_keep hx)
  have hwider := h.distance
  omega

end Easier

end Task

namespace Search

/-- When a search finds a window, the search for an easier task over slots that are among the given
ones finds one, too. -/
theorem found_of_easier {T U : Task} (h : U.Easier T) {slots others : List Value}
    (hlen : slots.length = T.terms.length) (hreads : T.Reads (T.terms.zip slots)) {s : Search}
    (hs : start T.distance T.terms slots T.shared = .ok s) (hf : s.found = true)
    (hne : U.terms ≠ []) (hlen' : others.length = U.terms.length)
    (hreads' : U.Reads (U.terms.zip others)) (hsub : ∀ v ∈ others, v ∈ slots) :
    ∃ s', start U.distance U.terms others U.shared = .ok s' ∧ s'.found = true := by
  obtain ⟨s₁, hs₁, hfound⟩ := found_start_iff T slots hlen hreads
  obtain rfl := Except.ok.inj (hs₁.symm.trans hs)
  obtain ⟨-, hgiven, hwindow⟩ := hfound.1 hf
  obtain ⟨pick, hfits, hreached⟩ := T.exists_places_above_iff_reached.1 hwindow
  exact found_of_fits hlen' hreads' hne (fun v hv => hgiven v (hsub v hv)) (h.fits hfits)
    (h.reached hreached)

end Search

/-! ### The questions of a search -/

namespace Task

theorem easier_ofPositions (positions : String → Positions) {distance wider : Nat}
    {terms fewer : List String} {shared sharing : Bool} (hdistance : distance ≤ wider)
    (hterms : ∀ t ∈ fewer, t ∈ terms)
    (hneeded : ∀ t ∈ fewer, Demand.needed sharing fewer t ≤ Demand.needed shared terms t) :
    (ofPositions wider fewer sharing positions).Easier
      (ofPositions distance terms shared positions) :=
  ⟨hdistance, hterms, hneeded, fun _ _ => List.Subperm.refl _⟩

theorem Gives.dropLast {terms : List String} {slots : List Value} {positions : String → Positions}
    (h : Gives (terms.zip slots) positions) (hlen : slots.length = terms.length) :
    Gives (terms.dropLast.zip slots.dropLast) positions := by
  intro t v hv hgiven
  apply h t v _ hgiven
  have htake : terms.dropLast.zip slots.dropLast = (terms.zip slots).take (terms.length - 1) := by
    rw [List.dropLast_eq_take, List.dropLast_eq_take, hlen]
    exact List.take_zipWith.symm
  rw [← List.take_append_drop (terms.length - 1) (terms.zip slots), List.lookup_append, ← htake, hv]
  rfl

end Task

theorem Demand.needed_dropLast_le (shared : Bool) (terms : List String) (t : String) :
    needed shared terms.dropLast t ≤ needed shared terms t := by
  unfold needed
  split
  · exact Nat.le_refl 1
  · exact (List.dropLast_sublist terms).count_le t

namespace Search

theorem terms_ne_nil_of_found (distance : Nat) (terms : List String) (slots : List Value)
    (shared : Bool) (s : Search) (hs : start distance terms slots shared = .ok s)
    (hf : s.found = true) : terms ≠ [] := by
  rintro rfl
  have hlen := length_eq_of_found distance [] slots shared s hs hf
  obtain rfl := List.eq_nil_of_length_eq_zero hlen
  obtain rfl := Except.ok.inj hs
  rw [found_of_no_queue (idle distance) rfl rfl] at hf
  cases hf

/-- A window that a search finds is also found within a greater distance, where the repetitions of
a term may share an occurrence, and without the last term and its slot as long as one is left. -/
theorem found_of_eased (distance : Nat) (terms : List String) (slots : List Value) (shared : Bool)
    (s : Search) (hs : ofValues (.whole distance) terms (.list slots) shared = .ok s)
    (hf : s.found = true) :
    (∀ wider, distance ≤ wider →
      ∃ s', ofValues (.whole wider) terms (.list slots) shared = .ok s' ∧ s'.found = true) ∧
    (∃ s', ofValues (.whole distance) terms (.list slots) true = .ok s' ∧ s'.found = true) ∧
    (terms.dropLast ≠ [] →
      ∃ s', ofValues (.whole distance) terms.dropLast (.list slots.dropLast) shared = .ok s' ∧
        s'.found = true) := by
  have hstart : start distance terms slots shared = .ok s := hs
  have hlen := length_eq_of_found distance terms slots shared s hstart hf
  obtain ⟨positions, hgives⟩ := exists_gives_of_found distance terms slots shared s hstart hf
  have hne := terms_ne_nil_of_found distance terms slots shared s hstart hf
  have hreads := hgives.reads distance terms shared
  refine ⟨fun wider hwider => ?_, ?_, fun hleft => ?_⟩
  · have heasier := Task.easier_ofPositions positions hwider (fun t ht => ht)
      fun t _ => Nat.le_refl (Demand.needed shared terms t)
    exact found_of_easier heasier hlen hreads hstart hf hne hlen (hgives.reads wider terms shared)
      fun v hv => hv
  · have hshared : ∀ t ∈ terms, Demand.needed true terms t ≤ Demand.needed shared terms t :=
      fun t ht => Demand.needed_pos shared ht
    have heasier := Task.easier_ofPositions positions (Nat.le_refl distance)
      (fun t ht => ht) hshared
    exact found_of_easier heasier hlen hreads hstart hf hne hlen (hgives.reads distance terms true)
      fun v hv => hv
  · have heasier := Task.easier_ofPositions positions (Nat.le_refl distance)
      (fun t ht => (List.dropLast_sublist terms).subset ht)
      fun t _ => Demand.needed_dropLast_le shared terms t
    have hlen' : slots.dropLast.length = terms.dropLast.length := by simp [hlen]
    exact found_of_easier heasier hlen hreads hstart hf hleft hlen'
      ((hgives.dropLast hlen).reads distance terms.dropLast shared)
      fun v hv => (List.dropLast_sublist slots).subset hv

/-- The last slot of the repeated term is empty; it is not read. -/
theorem found_of_eased_repeated :
    let slots := [some [9, 5, 6], some [1, 7, 7], some []].map Value.slot
    ∃ s, ofValues (.whole 4) ["a", "b", "a"] (.list slots) false = .ok s ∧ s.found = true ∧
      (∃ s', ofValues (.whole 6) ["a", "b", "a"] (.list slots) false = .ok s' ∧
        s'.found = true) ∧
      ∃ s', ofValues (.whole 4) ["a", "b"] (.list slots.dropLast) false = .ok s' ∧
        s'.found = true := by
  intro slots
  let T := Task.ofSlots 4 ["a", "b", "a"] [some [9, 5, 6], some [1, 7, 7], some []] false
  have hreads : T.Reads (T.terms.zip slots) :=
    Task.reads_ofSlots _ _ _ _ (by simp [Positions.Plain])
  have hfits : T.Fits fun t => if t = "a" then [5, 6] else [7] :=
    ⟨by decide, by decide, by decide⟩
  have hreached : T.Reached fun t => if t = "a" then [5, 6] else [7] := by
    unfold Task.Reached
    decide
  obtain ⟨s, hs, hf⟩ := found_of_fits rfl hreads (by decide) (by decide) hfits hreached
  obtain ⟨hwider, -, hfewer⟩ := found_of_eased 4 ["a", "b", "a"] slots false s hs hf
  exact ⟨s, hs, hf, hwider 6 (by decide), hfewer (by decide)⟩

end Search

end TermWindow
