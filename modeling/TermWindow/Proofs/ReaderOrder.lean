import Mathlib.Order.Defs.Unbundled
import TermWindow.Proofs.Rounds

/-!
# The order of readers

Of two readers the one with the earlier position comes first, of two at the same position the one
with the lesser term, and spent readers come last. So readers are in a strict weak order. There is
one sorting of a list that leaves readers that are alike in their places. The readers in the queue
of a search are never alike, so what a search shows of them does not depend on their places.
-/

namespace TermWindow

namespace Reader

/-! ### Which of two readers comes first -/

/-- A reader does not come before one that holds an earlier position, or the same one for no later
term. -/
theorem precedes_eq_false_iff (a b : Reader) :
    a.precedes b = false ↔ ∀ x, a.low? = some x →
      ∃ y, b.low? = some y ∧ (y < x ∨ y = x ∧ b.term ≤ a.term) := by
  rw [precedes]
  cases a.low? with
  | none => simp
  | some x =>
    cases b.low? with
    | none => simp
    | some y =>
      simp only [Option.some.injEq, Bool.or_eq_false_iff, Bool.and_eq_false_iff,
        decide_eq_false_iff_not, String.not_lt, forall_eq', exists_eq_left']
      grind

theorem precedes_eq_false_trans {a b c : Reader} (hba : b.precedes a = false)
    (hcb : c.precedes b = false) : c.precedes a = false := by
  rw [precedes_eq_false_iff] at *
  intro z hz
  obtain ⟨y, hy, hyz⟩ := hcb z hz
  obtain ⟨x, hx, hxy⟩ := hba y hy
  refine ⟨x, hx, ?_⟩
  rcases hxy with hlt | ⟨rfl, hterm⟩
  · exact Or.inl (by omega)
  · rcases hyz with hlt | ⟨rfl, hterm'⟩
    · exact Or.inl hlt
    · exact Or.inr ⟨rfl, String.le_trans hterm hterm'⟩

theorem precedes_eq_false_total (a b : Reader) :
    a.precedes b = false ∨ b.precedes a = false := by
  rw [precedes_eq_false_iff, precedes_eq_false_iff]
  cases a.low? with
  | none => exact Or.inl nofun
  | some x =>
    cases b.low? with
    | none => exact Or.inr nofun
    | some y =>
      simp only [Option.some.injEq, forall_eq', exists_eq_left']
      have hterms := String.le_total a.term b.term
      grind

theorem precedes_asymm {a b : Reader} (h : a.precedes b = true) : b.precedes a = false := by
  rcases precedes_eq_false_total a b with hab | hba
  · rw [h] at hab
    cases hab
  · exact hba

theorem isStrictWeakOrder_precedes : IsStrictWeakOrder Reader fun a b => a.precedes b = true where
  irrefl a := Bool.eq_false_iff.1 a.precedes_irrefl
  trans a b c hab hbc := by
    by_contra hac
    have hba := precedes_eq_false_trans (precedes_asymm hbc) (Bool.eq_false_iff.2 hac)
    rw [hab] at hba
    cases hba
  incomp_trans a b c hab hbc := by
    simp only [Bool.not_eq_true] at hab hbc ⊢
    exact ⟨precedes_eq_false_trans hbc.1 hab.1, precedes_eq_false_trans hab.2 hbc.2⟩

theorem precedes_of_spent {a b : Reader} (ha : a.spent = false) (hb : b.spent = true) :
    a.precedes b = true := by
  obtain ⟨low, hlow⟩ := a.exists_low? ha
  have hnone : b.low? = none := by rw [low?, hb]; rfl
  rw [precedes, hlow, hnone]

/-- Whether neither of two readers comes before the other. -/
def alike (a b : Reader) : Bool := !a.precedes b && !b.precedes a

theorem alike_iff (a b : Reader) :
    a.alike b = true ↔ a.precedes b = false ∧ b.precedes a = false := by
  rw [alike, Bool.and_eq_true, Bool.not_eq_true', Bool.not_eq_true']

theorem alike_self (r : Reader) : r.alike r = true :=
  (alike_iff r r).2 ⟨r.precedes_irrefl, r.precedes_irrefl⟩

/-- Readers that are alike hold the same first position for the same term, or both are spent. -/
theorem alike_iff_shown (a b : Reader) :
    a.alike b = true ↔ a.spent = true ∧ b.spent = true ∨
      ∃ low, a.low? = some low ∧ b.low? = some low ∧ a.term = b.term := by
  have hspent : ∀ r : Reader, r.spent = true ↔ r.low? = none := by
    intro r
    cases hr : r.spent with
    | true => simp [low?, hr]
    | false =>
      obtain ⟨low, hlow⟩ := r.exists_low? hr
      simp [hlow]
  rw [alike_iff, precedes_eq_false_iff, precedes_eq_false_iff, hspent, hspent]
  cases a.low? with
  | none => cases b.low? <;> simp
  | some x =>
    cases b.low? with
    | none => simp
    | some y =>
      simp only [Option.some.injEq, forall_eq', exists_eq_left', reduceCtorEq, false_and, false_or]
      constructor
      · rintro ⟨hlt | ⟨rfl, hterm⟩, hlt' | ⟨heq, hterm'⟩⟩
        · omega
        · omega
        · omega
        · exact ⟨rfl, String.le_antisymm hterm' hterm⟩
      · rintro ⟨rfl, hterm⟩
        rw [hterm]
        exact ⟨Or.inr ⟨rfl, String.le_refl _⟩, Or.inr ⟨rfl, String.le_refl _⟩⟩

/-! ### Sorting -/

section Sorting

variable {α : Type} (reader : α → Reader)

/-- No item stands behind one that it comes before. -/
def InOrder (items : List α) : Prop :=
  items.Pairwise fun a b => (reader b).precedes (reader a) = false

/-- The items whose readers are alike with `r`. -/
def among (r : Reader) (items : List α) : List α := items.filter fun a => r.alike (reader a)

/-- A list is a sorting of items when it is in order and those alike stand in it as they did. -/
structure Sorting (items sorted : List α) : Prop where
  perm : sorted.Perm items
  ordered : InOrder reader sorted
  kept : ∀ r, among reader r sorted = among reader r items

theorem sortOn_le_trans (a b c : α) (hab : (!(reader b).precedes (reader a)) = true)
    (hbc : (!(reader c).precedes (reader b)) = true) :
    (!(reader c).precedes (reader a)) = true := by
  rw [Bool.not_eq_true'] at hab hbc ⊢
  exact precedes_eq_false_trans hab hbc

theorem sortOn_le_total (a b : α) :
    (!(reader b).precedes (reader a) || !(reader a).precedes (reader b)) = true := by
  rw [Bool.or_eq_true, Bool.not_eq_true', Bool.not_eq_true']
  exact precedes_eq_false_total (reader b) (reader a)

theorem inOrder_sortOn (items : List α) : InOrder reader (sortOn reader items) := by
  have hsorted := List.pairwise_mergeSort (sortOn_le_trans reader) (sortOn_le_total reader) items
  refine hsorted.imp fun {a b} h => ?_
  rwa [Bool.not_eq_true'] at h

/-- Items alike are in order as they stand, so sorting leaves them a sublist. -/
theorem among_sortOn (r : Reader) (items : List α) :
    among reader r (sortOn reader items) = among reader r items := by
  have hordered : (among reader r items).Pairwise fun a b =>
      (!(reader b).precedes (reader a)) = true := by
    refine List.pairwise_of_forall_mem_list fun a ha b hb => ?_
    have hra := (alike_iff ..).1 (List.mem_filter.1 ha).2
    have hrb := (alike_iff ..).1 (List.mem_filter.1 hb).2
    exact (Bool.not_eq_true' _).mpr (precedes_eq_false_trans hra.1 hrb.2)
  have hsub : (among reader r items).Sublist (sortOn reader items) :=
    List.sublist_mergeSort (sortOn_le_trans reader) (sortOn_le_total reader) hordered
      List.filter_sublist
  have hkept : (among reader r items).Sublist (among reader r (sortOn reader items)) := by
    simpa [among] using hsub.filter fun a => r.alike (reader a)
  exact (hkept.eq_of_length ((perm_sortOn reader items).filter _).length_eq.symm).symm

theorem sorting_sortOn (items : List α) : Sorting reader items (sortOn reader items) where
  perm := perm_sortOn reader items
  ordered := inOrder_sortOn reader items
  kept r := among_sortOn reader r items

variable {reader}

theorem InOrder.precedes_head {a b : α} {rest : List α} (h : InOrder reader (a :: rest))
    (hb : b ∈ a :: rest) : (reader b).precedes (reader a) = false := by
  rcases List.mem_cons.1 hb with rfl | hb
  · exact precedes_irrefl _
  · exact List.rel_of_pairwise_cons h hb

theorem mem_of_among_eq {l₁ l₂ : List α} (h : ∀ r, among reader r l₁ = among reader r l₂) {a : α}
    (ha : a ∈ l₁) : a ∈ l₂ := by
  have hmem : a ∈ among reader (reader a) l₁ := List.mem_filter.2 ⟨ha, alike_self _⟩
  rw [h] at hmem
  exact (List.mem_filter.1 hmem).1

/-- Items in order are determined by those alike with each reader. -/
theorem InOrder.eq_of_among_eq {l₁ l₂ : List α} (h₁ : InOrder reader l₁) (h₂ : InOrder reader l₂)
    (h : ∀ r, among reader r l₁ = among reader r l₂) : l₁ = l₂ := by
  induction l₁ generalizing l₂ with
  | nil =>
    refine (List.eq_nil_iff_forall_not_mem.2 fun b hb => ?_).symm
    exact List.not_mem_nil (mem_of_among_eq (fun r => (h r).symm) hb)
  | cons a t₁ ih =>
    cases l₂ with
    | nil => exact absurd (mem_of_among_eq h (List.mem_cons_self ..)) List.not_mem_nil
    | cons b t₂ =>
      have hb : b ∈ a :: t₁ := mem_of_among_eq (fun r => (h r).symm) (List.mem_cons_self ..)
      have ha : a ∈ b :: t₂ := mem_of_among_eq h (List.mem_cons_self ..)
      have halike : (reader a).alike (reader b) = true :=
        (alike_iff ..).2 ⟨h₂.precedes_head ha, h₁.precedes_head hb⟩
      have hfirst := h (reader a)
      rw [among, among, List.filter_cons, List.filter_cons, if_pos (alike_self _),
        if_pos halike] at hfirst
      obtain rfl := (List.cons.inj hfirst).1
      refine congrArg (a :: ·) (ih h₁.of_cons h₂.of_cons fun r => ?_)
      have hr := h r
      rw [among, among, List.filter_cons, List.filter_cons] at hr
      split at hr
      · exact (List.cons.inj hr).2
      · exact hr

theorem InOrder.sortOn_eq {items : List α} (h : InOrder reader items) :
    sortOn reader items = items :=
  List.mergeSort_of_pairwise (h.imp fun {a b} hab => by rw [hab]; rfl)

theorem Sorting.eq_sortOn {items sorted : List α} (h : Sorting reader items sorted) :
    sorted = sortOn reader items := by
  have hsort := sorting_sortOn reader items
  exact h.ordered.eq_of_among_eq hsort.ordered fun r => (h.kept r).trans (hsort.kept r).symm

/-- Items with readers that are pairwise not alike are sorted in one way from all arrangements. -/
theorem sortOn_eq_of_perm {items other : List α} (hp : other.Perm items)
    (hdistinct : ∀ a ∈ items, ∀ b ∈ items, (reader a).alike (reader b) = true → a = b) :
    sortOn reader other = sortOn reader items := by
  refine List.Perm.eq_of_pairwise ?_ (inOrder_sortOn reader other) (inOrder_sortOn reader items)
    ((perm_sortOn reader other).trans (hp.trans (perm_sortOn reader items).symm))
  intro a b ha hb hab hba
  have ha := hp.subset ((perm_sortOn reader other).subset ha)
  have hb := (perm_sortOn reader items).subset hb
  exact hdistinct a ha b hb ((alike_iff ..).2 ⟨hba, hab⟩)

/-! ### Spent readers at the end -/

theorem InOrder.eq_append {sorted : List α} (h : InOrder reader sorted) :
    sorted = sorted.filter (fun a => !(reader a).spent) ++
      sorted.filter fun a => (reader a).spent := by
  induction sorted with
  | nil => rfl
  | cons a rest ih =>
    cases ha : (reader a).spent with
    | false =>
      rw [List.filter_cons_of_pos (by simp [ha]), List.filter_cons_of_neg (by simp [ha]),
        List.cons_append, ← ih h.of_cons]
    | true =>
      -- behind a spent reader all are spent
      have hrest : ∀ b ∈ rest, (reader b).spent = true := by
        intro b hb
        by_contra hlive
        have hbefore := precedes_of_spent (Bool.eq_false_iff.2 hlive) ha
        rw [List.rel_of_pairwise_cons h hb] at hbefore
        cases hbefore
      have hall : ∀ b ∈ a :: rest, (reader b).spent = true := List.forall_mem_cons.2 ⟨ha, hrest⟩
      rw [List.filter_eq_self.2 hall, List.filter_eq_nil_iff.2 (by simpa using hall),
        List.nil_append]

theorem Sorting.filter_spent {items sorted : List α} (h : Sorting reader items sorted) :
    sorted.filter (fun a => (reader a).spent) = items.filter fun a => (reader a).spent := by
  by_cases hspent : ∃ r : Reader, r.spent = true
  · obtain ⟨r, hr⟩ := hspent
    have hfilter : ∀ l : List α, l.filter (fun a => (reader a).spent) = among reader r l := by
      intro l
      refine List.filter_congr fun a _ => ?_
      rw [Bool.eq_iff_iff, alike_iff_shown]
      simp [hr, low?]
    rw [hfilter, hfilter, h.kept]
  · have hnone : ∀ a : α, (reader a).spent = false := fun a =>
      Bool.eq_false_iff.2 fun ha => hspent ⟨reader a, ha⟩
    simp [hnone]

/-- The items with spent readers are the last ones of a sorting, in their given order. The others
stand in front in the order of their positions and terms. -/
theorem Sorting.exists_held {items sorted : List α} (h : Sorting reader items sorted) :
    ∃ held, sorted = held ++ items.filter (fun a => (reader a).spent) ∧
      (∀ a ∈ held, (reader a).spent = false) ∧
      held.Pairwise fun a b => ∃ x y, (reader a).low? = some x ∧ (reader b).low? = some y ∧
        (x < y ∨ x = y ∧ (reader a).term ≤ (reader b).term) := by
  let held := sorted.filter fun a => !(reader a).spent
  have hlive : ∀ a ∈ held, (reader a).spent = false := by
    intro a ha
    simpa using (List.mem_filter.1 ha).2
  refine ⟨held, h.filter_spent ▸ h.ordered.eq_append, hlive, ?_⟩
  refine (h.ordered.filter _).imp_of_mem fun {a b} ha hb hab => ?_
  obtain ⟨y, hy⟩ := (reader b).exists_low? (hlive b hb)
  obtain ⟨x, hx, hle⟩ := (precedes_eq_false_iff ..).1 hab y hy
  exact ⟨x, y, hx, hy, hle⟩

end Sorting

end Reader

namespace Search

/-! ### What is shown of the queue -/

theorem Step.nodup_terms {s s' : Search} (hstep : Step s s')
    (h : (s.queue.map (·.reader.term)).Nodup) : (s'.queue.map (·.reader.term)).Nodup := by
  have hrest : ∀ e rest, s.queue = e :: rest → (rest.map (·.reader.term)).Nodup := by
    intro e rest hq
    rw [hq] at h
    exact h.of_cons
  cases hstep with
  | idle => exact h
  | found e rest hq => exact hrest e rest hq
  | beyond e rest last hq => exact hrest e rest hq
  | ended e rest hq => exact hrest e rest hq
  | moved e rest low high hq =>
    rw [((Entry.perm_enqueue _ rest).map _).nodup_iff, List.map_cons, Reader.term_advance]
    rwa [hq] at h

theorem nodup_terms_steps {s : Search} (h : (s.queue.map (·.reader.term)).Nodup) (k : Nat) :
    ((step^[k] s).queue.map (·.reader.term)).Nodup :=
  steps_induction (fun s => (s.queue.map (·.reader.term)).Nodup)
    (fun _ _ hs hstep => hstep.nodup_terms hs) h k

theorem nodup_terms_of_start {distance : Nat} {terms : List String} {slots : List Value}
    {shared : Bool} {s : Search} (hs : start distance terms slots shared = .ok s) :
    (s.queue.map (·.reader.term)).Nodup := by
  by_cases hpasses : Passes shared terms slots
  · obtain ⟨T, -, hrunning⟩ := running_of_start hs hpasses
    exact hrunning.served.nodup_terms
  · rw [queue_of_start hs hpasses]
    exact List.nodup_nil

section Queue

variable (s : Search) (hfull : ∀ e ∈ s.queue, e.reader.spent = false)
  (hterms : (s.queue.map (·.reader.term)).Nodup)

include hfull hterms

theorem eq_of_alike (e : Entry) (he : e ∈ s.queue) (f : Entry) (hf : f ∈ s.queue)
    (halike : e.reader.alike f.reader = true) : e = f := by
  rcases (Reader.alike_iff_shown ..).1 halike with ⟨hspent, -⟩ | ⟨-, -, -, hterm⟩
  · rw [hfull e he] at hspent
    cases hspent
  · exact List.inj_on_of_nodup_map hterms he hf hterm

theorem pairwise_precedes_sortOn :
    (Reader.sortOn (·.reader) s.queue).Pairwise fun e f => e.reader.precedes f.reader = true := by
  have hperm := Reader.perm_sortOn Entry.reader s.queue
  have hnodup : (Reader.sortOn Entry.reader s.queue).Nodup := hperm.nodup_iff.2 hterms.of_map
  have hordered := Reader.inOrder_sortOn Entry.reader s.queue
  refine (List.Pairwise.and hordered hnodup).imp_of_mem ?_
  rintro e f he hf ⟨hbehind, hne⟩
  by_contra hfront
  have halike := (Reader.alike_iff ..).2 ⟨Bool.eq_false_iff.2 hfront, hbehind⟩
  exact hne (s.eq_of_alike hfull hterms e (hperm.subset he) f (hperm.subset hf) halike)

/-- What a search shows are its distance, the rightmost position and the readers in their order,
wherever in the queue they stand. -/
theorem describe_of_perm (queue : List Entry) (hp : queue.Perm s.queue) :
    describe { s with queue := queue } =
      s!"ProximitySweep(distance={s.distance}, global_max={s.rightmost}, " ++
        s!"queue={Text.bracketed
          ((Reader.sortOn (·.reader) s.queue).map (·.reader.describe))})" := by
  have hsort : Reader.sortOn (·.reader) queue = Reader.sortOn (·.reader) s.queue :=
    Reader.sortOn_eq_of_perm hp (s.eq_of_alike hfull hterms)
  unfold describe
  rw [hsort]

end Queue

end Search

/-- Readers are in a strict weak order. Two of them are alike in it just when both are spent or both
hold the same first position for the same term, and spent readers come behind all others. Any items
have one sorting by their readers: first those that are not spent, in the order of their positions
and terms, then the others in their given order. What a search shows, from its start on to its
answer, are the readers of its queue so sorted, each before the next one, and it does not depend on
how the queue is arranged. -/
theorem precedes_weakly_orders :
    IsStrictWeakOrder Reader (fun a b => a.precedes b = true) ∧
    (∀ a b : Reader, a.precedes b = true → b.precedes a = false) ∧
    (∀ a b : Reader, a.precedes b = false ∧ b.precedes a = false ↔
      a.spent = true ∧ b.spent = true ∨
        ∃ low, a.low? = some low ∧ b.low? = some low ∧ a.term = b.term) ∧
    (∀ a b : Reader, a.spent = false → b.spent = true → a.precedes b = true) ∧
    (∀ {α : Type} (reader : α → Reader) (items sorted : List α),
      (Reader.Sorting reader items sorted ↔ sorted = Reader.sortOn reader items) ∧
      (Reader.Sorting reader items sorted →
        ∃ held, sorted = held ++ items.filter (fun a => (reader a).spent) ∧
          (∀ a ∈ held, (reader a).spent = false) ∧
          held.Pairwise fun a b => ∃ x y, (reader a).low? = some x ∧ (reader b).low? = some y ∧
            (x < y ∨ x = y ∧ (reader a).term ≤ (reader b).term))) ∧
    ∀ (distance : Value) (terms : List String) (slots : Value) (shared : Bool) (s : Search),
      Search.ofValues distance terms slots shared = .ok s →
      ∀ later, (∃ k, later = Search.step^[k] s) ∨ later = s.settle →
      let shown := Reader.sortOn (·.reader) later.queue
      (shown.Pairwise fun e f => e.reader.precedes f.reader = true) ∧
      ∀ queue : List Entry, queue.Perm later.queue →
        Search.describe { later with queue := queue } = later.describe ∧
        Search.describe { later with queue := queue } =
          s!"ProximitySweep(distance={later.distance}, global_max={later.rightmost}, " ++
            s!"queue={Text.bracketed (shown.map (·.reader.describe))})" := by
  refine ⟨Reader.isStrictWeakOrder_precedes, fun a b => Reader.precedes_asymm, fun a b => ?_,
    fun a b => Reader.precedes_of_spent, fun reader items sorted => ⟨⟨?_, ?_⟩, ?_⟩, ?_⟩
  · rw [← Reader.alike_iff, Reader.alike_iff_shown]
  · exact Reader.Sorting.eq_sortOn
  · rintro rfl
    exact Reader.sorting_sortOn reader items
  · exact Reader.Sorting.exists_held
  · intro distance terms slots shared s hs later hlater shown
    obtain ⟨d, -, hd⟩ := exists_of_bind_eq_ok hs
    obtain ⟨given, -, hstart⟩ := exists_of_bind_eq_ok hd
    obtain ⟨k, rfl⟩ : ∃ k, later = Search.step^[k] s := by
      rcases hlater with hlater | rfl
      · exact hlater
      · obtain ⟨k, -, hk, -⟩ := Search.exists_steps_eq_settle s (Search.answer_of_start hstart)
        exact ⟨k, hk.symm⟩
    have hfull := (Search.lined_steps (Search.lined_of_start hstart) k).spent_eq_false
    have hterms := Search.nodup_terms_steps (Search.nodup_terms_of_start hstart) k
    have hshown := Search.describe_of_perm (Search.step^[k] s) hfull hterms
    refine ⟨Search.pairwise_precedes_sortOn _ hfull hterms, fun queue hp => ⟨?_, hshown queue hp⟩⟩
    rw [hshown queue hp, ← hshown _ (List.Perm.refl _)]

/-- After a step both readers hold 5. The one of `b` came in first and is shown behind the one of
`a`. -/
theorem precedes_weakly_orders_tied :
    ∃ s sorted,
      Search.ofValues (.whole 1) ["b", "a"]
        (.list [.ofInts [1, 5], .ofInts [5, 8]]) false = .ok s ∧
      s.step.queue.map (·.reader.term) = ["b", "a"] ∧
      Reader.Sorting (·.reader) s.step.queue sorted ∧
      sorted.map (·.reader.term) = ["a", "b"] ∧
      Search.describe { s.step with queue := s.step.queue.reverse } = s.step.describe ∧
      Search.describe { s.step with queue := s.step.queue.reverse } =
        "ProximitySweep(distance=1, global_max=5, queue=[" ++
          "OffsetCursor('a', current=5, series_max=8, remaining=2), " ++
          "OffsetCursor('b', current=5, series_max=5, remaining=1)])" := by
  let a : Reader := ⟨"a", 1, ⟨#[5, 8], by decide⟩, 0, by decide⟩
  let b : Reader := ⟨"b", 1, ⟨#[1, 5], by decide⟩, 0, by decide⟩
  have ha : Reader.ofValue "a" (some 1) (.ofInts [5, 8]) = .ok a :=
    Reader.ofValue_ofInts "a" (by decide) (by decide) (by simp [Positions.Plain])
  have hb : Reader.ofValue "b" (some 1) (.ofInts [1, 5]) = .ok b :=
    Reader.ofValue_ofInts "b" (by decide) (by decide) (by simp [Positions.Plain])
  let s : Search := ⟨1, 5, [⟨1, 0, b⟩, ⟨5, 1, a⟩], none, none⟩
  have hs : Search.ofValues (.whole 1) ["b", "a"]
      (.list [.ofInts [1, 5], .ofInts [5, 8]]) false = .ok s := by
    show Search.start 1 ["b", "a"] [.ofInts [1, 5], .ofInts [5, 8]] false = _
    rw [Search.start_eq_fill 1 false rfl]
    refine (Search.fill_enter _ _ _ _ b 1 1 rfl rfl hb rfl rfl _).trans ?_
    refine (Search.fill_enter _ _ _ _ a 5 5 rfl rfl ha rfl rfl _).trans ?_
    rfl
  have hqueue : s.step.queue = [⟨5, 0, b.advance⟩, ⟨5, 1, a⟩] := rfl
  have hsorted : Reader.sortOn (·.reader) s.step.queue = [⟨5, 1, a⟩, ⟨5, 0, b.advance⟩] := by
    have hordered : Reader.InOrder Entry.reader [⟨5, 1, a⟩, ⟨5, 0, b.advance⟩] :=
      List.pairwise_pair.2 (by decide)
    have hdistinct := s.step.eq_of_alike (by decide) (by decide)
    exact (Reader.sortOn_eq_of_perm (List.Perm.swap ..) hdistinct).symm.trans hordered.sortOn_eq
  obtain ⟨-, -, -, -, hsort, hdescribe⟩ := precedes_weakly_orders
  obtain ⟨-, hshown⟩ := hdescribe _ _ _ _ s hs s.step (Or.inl ⟨1, rfl⟩)
  obtain ⟨hkept, htext⟩ := hshown s.step.queue.reverse (List.reverse_perm _)
  refine ⟨s, _, hs, rfl, (hsort (·.reader) s.step.queue _).1.2 hsorted.symm, rfl, hkept, ?_⟩
  rw [htext, hsorted]
  decide +kernel

end TermWindow
