import TermWindow.Proofs.ElementOrder
import TermWindow.Proofs.GivenPositions
import TermWindow.Proofs.LeastWindow

/-!
# Slots in any order

Another order of the slots gives the readers other places in the queue, so that of two readers
equally far behind the other one may move first. As long as the slots of each term keep their order,
the task stays the same. The least blocks in a window are those of the task, and a search that finds
a window ends on them whichever way it has come.
-/

namespace TermWindow

/-! ### The same task -/

namespace Task

/-- Tasks that differ in the order of their terms only. -/
structure Permuted (T U : Task) : Prop where
  distance : U.distance = T.distance
  terms : U.terms.Perm T.terms
  shared : U.shared = T.shared
  occurrences : U.occurrences = T.occurrences

section Permuted

variable {T U : Task}

theorem Permuted.symm (h : T.Permuted U) : U.Permuted T :=
  ⟨h.distance.symm, h.terms.symm, h.shared.symm, h.occurrences.symm⟩

theorem Permuted.needed_eq (h : T.Permuted U) : U.needed = T.needed := by
  funext t
  rw [needed, needed, h.shared, Demand.needed, Demand.needed, h.terms.count_eq]

theorem Permuted.sorted_eq (h : T.Permuted U) : U.sorted = T.sorted := by
  funext t
  rw [sorted, sorted, h.occurrences]

theorem Permuted.block_eq (h : T.Permuted U) : U.block = T.block := by
  funext start t
  rw [block, block, h.needed_eq, h.sorted_eq]

theorem Permuted.places (h : T.Permuted U) {start : String → Nat} (hp : T.Places start) :
    U.Places start where
  inside t ht := by
    rw [h.needed_eq, h.occurrences]
    exact hp.inside t (h.terms.mem_iff.1 ht)
  close t ht u hu x hx y hy := by
    rw [h.block_eq] at hx hy
    rw [h.distance]
    exact hp.close t (h.terms.mem_iff.1 ht) u (h.terms.mem_iff.1 hu) x hx y hy

theorem Permuted.above (h : T.Permuted U) {start : String → Nat} (ha : T.Above start) :
    U.Above start := by
  intro t ht x hx
  rw [h.block_eq] at hx
  rw [h.distance]
  exact ha t (h.terms.mem_iff.1 ht) x hx

end Permuted

end Task

/-! ### The same end -/

namespace Search

section Landed

variable {T U : Task} {s s' : Search} {start start' : String → Nat}

theorem Landed.start_le (h : Landed T s start) (h' : Landed U s' start') (hp : T.Permuted U)
    (t : String) (ht : t ∈ T.terms) : start t ≤ start' t :=
  h.least start' (hp.symm.places h'.places) (hp.symm.above h'.above) t ht

theorem Landed.start_eq (h : Landed T s start) (h' : Landed U s' start') (hp : T.Permuted U)
    (t : String) (ht : t ∈ T.terms) : start' t = start t :=
  Nat.le_antisymm (h'.start_le h hp.symm t (hp.terms.mem_iff.2 ht)) (h.start_le h' hp t ht)

theorem Landed.block_eq (h : Landed T s start) (h' : Landed U s' start') (hp : T.Permuted U)
    (t : String) (ht : t ∈ T.terms) : U.block start' t = T.block start t := by
  rw [hp.block_eq, Task.block, Task.block, h.start_eq h' hp t ht]

theorem Landed.rightmost_le_rightmost (h : Landed T s start) (h' : Landed U s' start')
    (hp : T.Permuted U) : s.rightmost ≤ s'.rightmost := by
  rcases h.attained with hidle | ⟨t, ht, hmem⟩
  · rw [hidle]
    exact h'.floor
  · rw [← h.block_eq h' hp t ht] at hmem
    exact h'.bounded t (hp.terms.mem_iff.2 ht) _ hmem

theorem Landed.mem_readers (h : Landed T s start) (h' : Landed U s' start') (hp : T.Permuted U)
    (r : Reader) (hr : r ∈ s.readers) : r ∈ s'.readers := by
  have hterm : r.term ∈ s.readers.map (·.term) := List.mem_map_of_mem hr
  rw [h.map_term_readers, Demand.mem_distinct] at hterm
  have hterm' : r.term ∈ s'.readers.map (·.term) := by
    rw [h'.map_term_readers, Demand.mem_distinct]
    exact hp.terms.mem_iff.2 hterm
  obtain ⟨r', hr', heq⟩ := List.mem_map.1 hterm'
  obtain ⟨hm, hpos, hi⟩ := h.reader r hr
  obtain ⟨hm', hpos', hi'⟩ := h'.reader r' hr'
  have hsame : r' = r := by
    apply Reader.eq_of_parts heq
    · rw [hm', hm, hp.needed_eq, heq]
    · rw [hpos', hpos, hp.sorted_eq, heq]
    · rw [hi', hi, heq, h.start_eq h' hp _ hterm]
  exact hsame ▸ hr'

theorem Landed.nodup_terms (h : Landed T s start) : (s.readers.map (·.term)).Nodup := by
  rw [h.map_term_readers]
  exact Demand.nodup_distinct T.terms

theorem Landed.perm_readers (h : Landed T s start) (h' : Landed U s' start')
    (hp : T.Permuted U) : s'.readers.Perm s.readers :=
  (List.perm_ext_iff_of_nodup h'.nodup_terms.of_map h.nodup_terms.of_map).2 fun r =>
    ⟨h'.mem_readers h hp.symm r, h.mem_readers h' hp r⟩

end Landed

end Search

/-! ### Slots in another order -/

/-- The same value, or a list of the same elements in another order. -/
inductive Value.Reordered : Value → Value → Prop where
  | same (v : Value) : Reordered v v
  | list {items others : List Value} (h : items.Perm others) : Reordered (list items) (list others)

namespace Value.Reordered

variable {v w : Value}

theorem isMissing_eq (h : v.Reordered w) : w.isMissing = v.isMissing := by
  cases h with
  | same => rfl
  | list => rfl

theorem ofValue_eq_ok (h : v.Reordered w) {p : Positions} (hv : Positions.ofValue v = .ok p) :
    Positions.ofValue w = .ok p := by
  cases h with
  | same => exact hv
  | list hperm => exact Positions.ofElements_perm hperm hv

end Value.Reordered

/-- A slot of the same term with the same elements in any order. -/
def SameSlot (slot other : String × Value) : Prop := other.1 = slot.1 ∧ slot.2.Reordered other.2

/-- The slots `others` are those of `slots` in another order, in which those of each term stand as
they stood before, with the elements of each slot in any order. -/
def Rearranged (slots others : List (String × Value)) : Prop :=
  ∃ moved : List (String × Value), moved.Perm slots ∧
    (∀ t, moved.filter (·.1 = t) = slots.filter (·.1 = t)) ∧ List.Forall₂ SameSlot moved others

section SameSlot

variable {slots others : List (String × Value)}

theorem map_eq_of_sameSlot {α : Type} (f : String × Value → α)
    (hf : ∀ slot other, SameSlot slot other → f other = f slot)
    (h : List.Forall₂ SameSlot slots others) : others.map f = slots.map f := by
  induction h with
  | nil => rfl
  | cons hsame _ ih => rw [List.map_cons, List.map_cons, hf _ _ hsame, ih]

theorem lookup_of_sameSlot (h : List.Forall₂ SameSlot slots others) (t : String) (w : Value)
    (hw : others.lookup t = some w) : ∃ v, slots.lookup t = some v ∧ v.Reordered w := by
  induction h with
  | nil => cases hw
  | @cons slot other slots others hsame _ ih =>
    rw [List.lookup_cons, hsame.1] at hw
    rw [List.lookup_cons]
    cases ht : t == slot.1 with
    | true =>
      rw [ht] at hw
      exact ⟨slot.2, rfl, Option.some.inj hw ▸ hsame.2⟩
    | false =>
      rw [ht] at hw
      exact ih hw

theorem lookup_eq_head?_filter (slots : List (String × Value)) (t : String) :
    slots.lookup t = ((slots.filter (·.1 = t)).map Prod.snd).head? := by
  induction slots with
  | nil => rfl
  | cons slot rest ih =>
    by_cases h : slot.1 = t
    · rw [List.filter_cons_of_pos (by simpa using h), ← h]
      exact List.lookup_cons_self
    · have hne : (t == slot.1) = false := beq_eq_false_iff_ne.2 fun heq => h heq.symm
      rw [List.lookup_cons, hne, List.filter_cons_of_neg (by simpa using h)]
      exact ih

end SameSlot

namespace Rearranged

variable {slots others : List (String × Value)}

theorem perm_map (h : Rearranged slots others) {α : Type} (f : String × Value → α)
    (hf : ∀ slot other, SameSlot slot other → f other = f slot) :
    (others.map f).Perm (slots.map f) := by
  obtain ⟨moved, hperm, -, hsame⟩ := h
  rw [map_eq_of_sameSlot f hf hsame]
  exact hperm.map f

theorem perm_terms (h : Rearranged slots others) :
    (others.map Prod.fst).Perm (slots.map Prod.fst) :=
  h.perm_map Prod.fst fun _ _ hsame => hsame.1

theorem given_iff (h : Rearranged slots others) :
    (∀ v ∈ others.map Prod.snd, v.isMissing = false) ↔
      ∀ v ∈ slots.map Prod.snd, v.isMissing = false := by
  have hperm := h.perm_map (fun slot => slot.2.isMissing) fun _ _ hsame => hsame.2.isMissing_eq
  have hall := fun (l : List (String × Value)) =>
    (List.forall_mem_map (f := fun slot => slot.2.isMissing) (l := l) (P := (· = false)))
  rw [List.forall_mem_map, List.forall_mem_map, ← hall, ← hall]
  exact ⟨fun h b hb => h b (hperm.mem_iff.2 hb), fun h b hb => h b (hperm.mem_iff.1 hb)⟩

theorem gives (h : Rearranged slots others) {positions : String → Positions}
    (hgives : Task.Gives slots positions) : Task.Gives others positions := by
  obtain ⟨moved, -, horder, hsame⟩ := h
  intro t w hw hgiven
  obtain ⟨v, hv, hreordered⟩ := lookup_of_sameSlot hsame t w hw
  rw [lookup_eq_head?_filter, horder, ← lookup_eq_head?_filter] at hv
  rw [hreordered.isMissing_eq] at hgiven
  exact hreordered.ofValue_eq_ok (hgives t v hv hgiven)

end Rearranged

theorem Task.exists_gives_of_readable {slots : List (String × Value)}
    (h : ∀ slot ∈ slots, slot.2.isMissing = true ∨ ∃ p, Positions.ofValue slot.2 = .ok p) :
    ∃ positions, Gives slots positions := by
  apply exists_gives
  intro t v hv hgiven
  obtain ⟨l₁, l₂, heq, -⟩ := List.lookup_eq_some_iff.1 hv
  have hmem : (t, v) ∈ slots := by
    rw [heq]
    simp
  rcases h (t, v) hmem with hmissing | hread
  · rw [hgiven] at hmissing
    cases hmissing
  · exact hread

theorem Task.Gives.reads_map {slots : List (String × Value)} {positions : String → Positions}
    (h : Gives slots positions) (distance : Nat) (shared : Bool) :
    (ofPositions distance (slots.map Prod.fst) shared positions).Reads
      ((slots.map Prod.fst).zip (slots.map Prod.snd)) := by
  have hzip : slots = (slots.map Prod.fst).zip (slots.map Prod.snd) := List.zip_of_prod rfl rfl
  rw [← hzip]
  exact h.reads distance _ shared

namespace Search

theorem window_of_permuted {T U : Task} (hp : T.Permuted U) {slots others : List Value}
    (hgiven : (∀ v ∈ slots, v.isMissing = false) → ∀ v ∈ others, v.isMissing = false)
    (h : T.terms ≠ [] ∧ (∀ v ∈ slots, v.isMissing = false) ∧
      ∃ start, T.Places start ∧ T.Above start) :
    U.terms ≠ [] ∧ (∀ v ∈ others, v.isMissing = false) ∧
      ∃ start, U.Places start ∧ U.Above start := by
  obtain ⟨hne, hall, start, hplaces, habove⟩ := h
  refine ⟨fun hnil => ?_, hgiven hall, start, hp.places hplaces, hp.above habove⟩
  have hterms := hp.terms
  rw [hnil] at hterms
  exact hne hterms.nil_eq.symm

/-- A search over slots that are missing or can be read gives the same answer over the same slots
in another order. When the answer is yes, the rightmost position at the end is the same, too, and so
is the reader of each term. -/
theorem settle_rearranged (distance : Nat) (shared : Bool) (slots others : List (String × Value))
    (hread : ∀ slot ∈ slots, slot.2.isMissing = true ∨ ∃ p, Positions.ofValue slot.2 = .ok p)
    (h : Rearranged slots others) :
    ∃ s s',
      ofValues (.whole distance) (slots.map Prod.fst) (.list (slots.map Prod.snd)) shared =
        .ok s ∧
      ofValues (.whole distance) (others.map Prod.fst) (.list (others.map Prod.snd)) shared =
        .ok s' ∧
      s'.found = s.found ∧
      (s.found = true → s'.settle.rightmost = s.settle.rightmost ∧
        s'.settle.readers.Perm s.settle.readers ∧ (s.settle.readers.map (·.term)).Nodup) := by
  obtain ⟨positions, hgives⟩ := Task.exists_gives_of_readable hread
  let T := Task.ofPositions distance (slots.map Prod.fst) shared positions
  let U := Task.ofPositions distance (others.map Prod.fst) shared positions
  have hp : T.Permuted U := ⟨rfl, h.perm_terms, rfl, rfl⟩
  have hreads : T.Reads (T.terms.zip (slots.map Prod.snd)) := hgives.reads_map distance shared
  have hreads' : U.Reads (U.terms.zip (others.map Prod.snd)) :=
    (h.gives hgives).reads_map distance shared
  obtain ⟨s, hs, houtcome⟩ := start_outcome T (slots.map Prod.snd) (by simp [T, Task.ofPositions])
    hreads
  obtain ⟨s', hs', houtcome'⟩ := start_outcome U (others.map Prod.snd)
    (by simp [U, Task.ofPositions]) hreads'
  refine ⟨s, s', hs, hs', ?_⟩
  -- The tasks differ in the order of their terms only, so that there is a window for both or for
  -- neither; the two other cases are excluded.
  rcases houtcome with ⟨hf, hne, hall, start, hl⟩ | ⟨hf, hno⟩
  · rcases houtcome' with ⟨hf', -, -, start', hl'⟩ | ⟨hf', hno'⟩
    · refine ⟨hf'.trans hf.symm, fun _ => ⟨?_, hl.perm_readers hl' hp, hl.nodup_terms⟩⟩
      exact Int.le_antisymm (hl'.rightmost_le_rightmost hl hp.symm)
        (hl.rightmost_le_rightmost hl' hp)
    · exact absurd (window_of_permuted hp h.given_iff.2 ⟨hne, hall, start, hl.places, hl.above⟩)
        hno'
  · rcases houtcome' with ⟨hf', hne', hall', start', hl'⟩ | ⟨hf', -⟩
    · exact absurd
        (window_of_permuted hp.symm h.given_iff.1 ⟨hne', hall', start', hl'.places, hl'.above⟩) hno
    · refine ⟨hf'.trans hf.symm, fun hyes => ?_⟩
      rw [hf] at hyes
      cases hyes

/-- The term `b` comes to the front, with its elements the other way round. -/
theorem settle_rearranged_front :
    let first := Value.ofInts [9, 5, 6]
    let second := [1, 7, 8].map Value.whole
    ∃ s s',
      ofValues (.whole 4) ["a", "b", "a"] (.list [first, .list second, .list []]) false =
        .ok s ∧
      ofValues (.whole 4) ["b", "a", "a"] (.list [.list second.reverse, first, .list []])
        false = .ok s' ∧
      s'.found = true ∧ s'.settle.rightmost = s.settle.rightmost ∧
      s'.settle.readers.Perm s.settle.readers := by
  intro first second
  let slots := [("a", first), ("b", Value.list second), ("a", .list [])]
  let moved := [("b", Value.list second), ("a", first), ("a", .list [])]
  let others := [("b", Value.list second.reverse), ("a", first), ("a", .list [])]
  have hread : ∀ slot ∈ slots, slot.2.isMissing = true ∨ ∃ p, Positions.ofValue slot.2 = .ok p := by
    refine List.forall_mem_cons.2 ⟨Or.inr ⟨Positions.ofList [9, 5, 6], rfl⟩, ?_⟩
    refine List.forall_mem_cons.2 ⟨Or.inr ⟨Positions.ofList [1, 7, 8], rfl⟩, ?_⟩
    exact List.forall_mem_singleton.2 (Or.inr ⟨Positions.empty, rfl⟩)
  have horder : ∀ t, moved.filter (·.1 = t) = slots.filter (·.1 = t) := by
    intro t
    by_cases ha : "a" = t
    · subst ha
      rfl
    · simp [moved, slots, List.filter_cons, ha]
  have hsame : List.Forall₂ SameSlot moved others :=
    .cons ⟨rfl, .list (List.reverse_perm second).symm⟩
      (.cons ⟨rfl, .same _⟩ (.cons ⟨rfl, .same _⟩ .nil))
  obtain ⟨s, s', hs, hs', hfound, hend⟩ := settle_rearranged 4 false slots others hread
    ⟨moved, List.Perm.swap _ _ _, horder, hsame⟩
  let T := Task.ofSlots 4 ["a", "b", "a"] [some [9, 5, 6], some [1, 7, 8], some []] false
  have hreads : T.Reads (T.terms.zip (slots.map Prod.snd)) :=
    Task.reads_ofSlots _ _ _ _ (by simp [Positions.Plain])
  have hfits : T.Fits fun t => if t = "a" then [5, 6] else [7] :=
    ⟨by decide, by decide, by decide⟩
  have hreached : T.Reached fun t => if t = "a" then [5, 6] else [7] := by
    unfold Task.Reached
    decide
  obtain ⟨s₁, hs₁, hf⟩ := found_of_fits rfl hreads (by decide) (by decide) hfits hreached
  obtain rfl := Except.ok.inj (hs₁.symm.trans hs)
  exact ⟨s₁, s', hs, hs', hfound.trans hf, (hend hf).1, (hend hf).2.1⟩

end Search

end TermWindow
