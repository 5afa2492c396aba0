import TermWindow.Proofs.Task
import TermWindow.Search

/-!
# The queue of a search

The entries of a queue stand in the order in which they are taken, each with a full block, and the
rightmost position is the last one that any of them holds. `Entry.Serves` says for which terms of a
task the entries stand.
-/

namespace TermWindow

namespace Entry

/-! ### The queue -/

theorem mem_enqueue (e f : Entry) (queue : List Entry) :
    f ∈ enqueue e queue ↔ f = e ∨ f ∈ queue := by
  rw [(perm_enqueue e queue).mem_iff, List.mem_cons]

theorem key_le_of_before (a b : Entry) (h : a.before b = true) : a.key ≤ b.key := by
  simp only [before, Bool.or_eq_true, Bool.and_eq_true, decide_eq_true_eq] at h
  omega

theorem before_trans (a b c : Entry) (hab : a.before b = true) (hbc : b.before c = true) :
    a.before c = true := by
  simp only [before, Bool.or_eq_true, Bool.and_eq_true, decide_eq_true_eq] at hab hbc ⊢
  omega

theorem before_of_not_before (a b : Entry) (h : ¬a.before b = true) : b.before a = true := by
  simp only [before, Bool.or_eq_true, Bool.and_eq_true, decide_eq_true_eq] at h ⊢
  omega

def Ordered (queue : List Entry) : Prop := queue.Pairwise fun a b => a.before b = true

theorem ordered_enqueue (e : Entry) (queue : List Entry) (h : Ordered queue) :
    Ordered (enqueue e queue) := by
  induction queue with
  | nil => exact List.pairwise_singleton _ e
  | cons f rest ih =>
    have hf := List.pairwise_cons.1 h
    unfold enqueue
    split
    · rename_i hef
      refine List.pairwise_cons.2 ⟨fun g hg => ?_, h⟩
      rcases List.mem_cons.1 hg with rfl | hg
      · exact hef
      · exact before_trans e f g hef (hf.1 g hg)
    · rename_i hef
      refine List.pairwise_cons.2 ⟨fun g hg => ?_, ih hf.2⟩
      rcases (mem_enqueue e g rest).1 hg with rfl | hg
      · exact before_of_not_before g f hef
      · exact hf.1 g hg

theorem key_le_of_ordered (e f : Entry) (rest : List Entry) (h : Ordered (e :: rest))
    (hf : f ∈ e :: rest) : e.key ≤ f.key := by
  rcases List.mem_cons.1 hf with rfl | hf
  · exact Int.le_refl _
  · exact key_le_of_before e f ((List.pairwise_cons.1 h).1 f hf)

/-! ### Keys and the rightmost position -/

/-- The entries are keyed by their blocks, none of which reaches beyond the rightmost position. -/
structure Lined (rightmost : Int) (queue : List Entry) : Prop where
  keyed : ∀ e ∈ queue, e.reader.low? = some e.key
  ordered : Ordered queue
  floor : -1 ≤ rightmost
  bounded : ∀ e ∈ queue, ∀ b, e.reader.high? = some b → b ≤ rightmost

/-- The rightmost position is held by an entry, or it is still the one before all positions. -/
def Attained (rightmost : Int) (queue : List Entry) : Prop :=
  rightmost = -1 ∨ ∃ e ∈ queue, e.reader.high? = some rightmost

theorem Lined.spent_eq_false {rightmost : Int} {queue : List Entry} (h : Lined rightmost queue)
    (e : Entry) (he : e ∈ queue) : e.reader.spent = false :=
  ((e.reader.low?_eq_some_iff e.key).1 (h.keyed e he)).1

theorem Lined.tail {rightmost : Int} {e : Entry} {rest : List Entry}
    (h : Lined rightmost (e :: rest)) : Lined rightmost rest where
  keyed f hf := h.keyed f (List.mem_cons_of_mem e hf)
  ordered := (List.pairwise_cons.1 h.ordered).2
  floor := h.floor
  bounded f hf := h.bounded f (List.mem_cons_of_mem e hf)

theorem Lined.enqueue {rightmost : Int} {rest : List Entry} (h : Lined rightmost rest)
    (order : Nat) (r : Reader) (low high : Int) (hlow : r.low? = some low)
    (hhigh : r.high? = some high) :
    Lined (max rightmost high) (enqueue ⟨low, order, r⟩ rest) where
  keyed f hf := by
    rcases (mem_enqueue _ f rest).1 hf with rfl | hf
    · exact hlow
    · exact h.keyed f hf
  ordered := ordered_enqueue _ rest h.ordered
  floor := by
    have hf := h.floor
    omega
  bounded f hf b hb := by
    rcases (mem_enqueue _ f rest).1 hf with rfl | hf
    · rw [hhigh] at hb
      have heq : high = b := Option.some.inj hb
      omega
    · have hle := h.bounded f hf b hb
      omega

theorem attained_of_le (rightmost : Int) (rest : List Entry) (order : Nat) (r : Reader)
    (low high : Int) (hhigh : r.high? = some high) (hle : rightmost ≤ high) :
    Attained (max rightmost high) (enqueue ⟨low, order, r⟩ rest) := by
  rw [Int.max_eq_right hle]
  exact Or.inr ⟨_, (mem_enqueue _ _ rest).2 (Or.inl rfl), hhigh⟩

theorem Attained.enqueue {rightmost : Int} {rest : List Entry} (h : Attained rightmost rest)
    (order : Nat) (r : Reader) (low high : Int) (hhigh : r.high? = some high) :
    Attained (max rightmost high) (enqueue ⟨low, order, r⟩ rest) := by
  rcases Int.le_total rightmost high with hle | hle
  · exact attained_of_le rightmost rest order r low high hhigh hle
  · rw [Int.max_eq_left hle]
    rcases h with hidle | ⟨f, hf, hb⟩
    · exact Or.inl hidle
    · exact Or.inr ⟨f, (mem_enqueue _ f rest).2 (Or.inr hf), hb⟩

theorem Attained.advance {rightmost : Int} {e : Entry} {rest : List Entry}
    (h : Attained rightmost (e :: rest)) (low high : Int)
    (hhigh : e.reader.advance.high? = some high) :
    Attained (max rightmost high) (Entry.enqueue ⟨low, e.order, e.reader.advance⟩ rest) := by
  rcases h with hidle | ⟨f, hf, hb⟩
  · exact Attained.enqueue (Or.inl hidle) _ _ low high hhigh
  · rcases List.mem_cons.1 hf with rfl | hf
    · have hle := f.reader.high?_advance_ge rightmost high hb hhigh
      exact attained_of_le rightmost rest _ _ low high hhigh hle
    · exact Attained.enqueue (Or.inr ⟨f, hf, hb⟩) _ _ low high hhigh

/-! ### Readers for a task -/

/-- The entries hold a reader for each of the terms, in the order of first occurrence. -/
structure Serves (T : Task) (terms : List String) (queue : List Entry) : Prop where
  covers : (queue.map (·.reader.term)).Perm (Demand.distinct terms)
  ranked : ∀ e ∈ queue, (Demand.distinct terms)[e.order]? = some e.reader.term
  multiplicity : ∀ e ∈ queue, e.reader.multiplicity = T.needed e.reader.term
  positions : ∀ e ∈ queue, e.reader.positions = T.sorted e.reader.term

section Serves

variable {T : Task} {terms : List String} {queue : List Entry}

theorem Serves.of_perm (h : Serves T terms queue) (other : List Entry) (hp : queue.Perm other) :
    Serves T terms other where
  covers := (hp.map _).symm.trans h.covers
  ranked e he := h.ranked e (hp.mem_iff.2 he)
  multiplicity e he := h.multiplicity e (hp.mem_iff.2 he)
  positions e he := h.positions e (hp.mem_iff.2 he)

theorem Serves.advance (e : Entry) (rest : List Entry) (h : Serves T terms (e :: rest))
    (key : Int) : Serves T terms (⟨key, e.order, e.reader.advance⟩ :: rest) where
  covers := by
    have ht := h.covers
    rw [List.map_cons] at ht ⊢
    rw [Reader.term_advance]
    exact ht
  ranked := by
    have hr := h.ranked
    simp only [List.forall_mem_cons, Reader.term_advance] at hr ⊢
    exact hr
  multiplicity := by
    have hm := h.multiplicity
    simp only [List.forall_mem_cons, Reader.term_advance, Reader.multiplicity_advance] at hm ⊢
    exact hm
  positions := by
    have hp := h.positions
    simp only [List.forall_mem_cons, Reader.term_advance, Reader.positions_advance] at hp ⊢
    exact hp

theorem Serves.mem_terms (h : Serves T terms queue) (e : Entry) (he : e ∈ queue) :
    e.reader.term ∈ terms := by
  have hm : e.reader.term ∈ queue.map (·.reader.term) := List.mem_map_of_mem he
  exact (Demand.mem_distinct _ terms).1 (h.covers.mem_iff.1 hm)

theorem Serves.exists_entry (h : Serves T terms queue) (t : String) (ht : t ∈ terms) :
    ∃ e ∈ queue, e.reader.term = t := by
  have hm := h.covers.mem_iff.2 ((Demand.mem_distinct t terms).2 ht)
  obtain ⟨e, he, hterm⟩ := List.mem_map.1 hm
  exact ⟨e, he, hterm⟩

theorem Serves.nodup_terms (h : Serves T terms queue) : (queue.map (·.reader.term)).Nodup :=
  h.covers.nodup_iff.2 (Demand.nodup_distinct terms)

theorem Serves.block_eq (h : Serves T terms queue) (e : Entry) (he : e ∈ queue)
    (start : String → Nat) (hi : e.reader.index = start e.reader.term) :
    e.reader.block = T.block start e.reader.term := by
  rw [Reader.block, Task.block, h.positions e he, h.multiplicity e he, hi]

theorem Serves.size_eq (h : Serves T terms queue) (e : Entry) (he : e ∈ queue) :
    e.reader.size = (T.occurrences e.reader.term).length := by
  rw [Reader.size, h.positions e he, Task.size_sorted]

end Serves

def starts (queue : List Entry) (term : String) : Nat :=
  ((queue.find? (·.reader.term = term)).map (·.reader.index)).getD 0

theorem starts_eq (queue : List Entry) (hn : (queue.map (·.reader.term)).Nodup) (e : Entry)
    (he : e ∈ queue) : e.reader.index = starts queue e.reader.term := by
  induction queue with
  | nil => cases he
  | cons f rest ih =>
    have hf := List.nodup_cons.1 (List.map_cons ▸ hn)
    unfold starts
    rw [List.find?_cons]
    rcases List.mem_cons.1 he with rfl | he
    · simp
    · have hne : f.reader.term ≠ e.reader.term := by
        intro heq
        exact hf.1 (heq ▸ List.mem_map_of_mem he)
      rw [decide_eq_false hne]
      exact ih hf.2 he

end Entry

end TermWindow
