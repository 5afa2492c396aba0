import Mathlib.Logic.Function.Iterate
import TermWindow.Proofs.EarlyEnd
import TermWindow.Proofs.OffendingSlot

/-!
# The rounds of a search

A search that can run is taken to its answer in rounds, one step each. Before every round the queue
holds one entry for each term, keyed by a full block, and the rightmost position is the greatest end
of these blocks. A round answers, or it moves the reader in front by one position and no other. When
the reader in front is spent by its move, the rightmost position is still the one of its last block
or of the other readers.
-/

namespace TermWindow

namespace Reader

theorem low?_advance_ge (r : Reader) (a b : Int) (ha : r.low? = some a)
    (hb : r.advance.low? = some b) : a ≤ b := by
  have hr := (r.low?_eq_some_iff a).1 ha
  have hn := (r.advance.low?_eq_some_iff b).1 hb
  rw [positions_advance, r.index_advance hr.1] at hn
  exact r.positions.get?_le_get? _ _ a b (by omega) hr.2 hn.2

theorem exists_last? (r : Reader) (h : r.spent = false) : ∃ last, r.last? = some last := by
  have hp := r.positive
  have hs := r.not_spent_iff.1 h
  obtain ⟨last, hlast⟩ := r.positions.exists_get? (r.size - 1) (by rw [size] at hs ⊢; omega)
  refine ⟨last, ?_⟩
  rw [last?, Positions.last?_eq_toList, List.getLast?_eq_getElem?, ← Positions.size_eq_length,
    ← Positions.get?_eq_toList]
  exact hlast

/-- A block behind which there is no other ends at the last position. -/
theorem high?_eq_last? (r : Reader) (h : r.spent = false) (hend : r.advance.spent = true) :
    r.high? = r.last? := by
  have hin := r.not_spent_iff.1 h
  have hover : ¬r.index + 1 + r.multiplicity ≤ r.size := by
    intro hle
    have hfull : r.advance.spent = false := by
      rw [not_spent_iff, r.index_advance h, multiplicity_advance, size_advance]
      exact hle
    rw [hend] at hfull
    cases hfull
  have hlast : r.index + r.multiplicity - 1 = r.size - 1 := by omega
  rw [high?, h, last?, Positions.last?_eq_toList, List.getLast?_eq_getElem?,
    ← Positions.size_eq_length, ← Positions.get?_eq_toList, hlast]
  rfl

end Reader

namespace Search

/-! ### Counting rounds -/

/-- What every step keeps is kept by any number of steps. -/
theorem steps_induction (P : Search → Prop) (hkeep : ∀ s s', P s → Step s s' → P s')
    {s : Search} (h : P s) (k : Nat) : P (step^[k] s) := by
  induction k with
  | zero => exact h
  | succ k ih =>
    rw [Function.iterate_succ_apply']
    exact hkeep _ _ ih (step_spec _)

theorem Step.answer_eq_none {s s' : Search} (hstep : Step s s') (h : s'.answer = none) :
    s.answer = none := by
  cases hstep with
  | idle => cases h
  | found => cases h
  | beyond => cases h
  | ended => cases h
  | moved => exact h

theorem answer_steps_ne_none {s : Search} (h : s.answer ≠ none) (k : Nat) :
    (step^[k] s).answer ≠ none :=
  steps_induction (·.answer ≠ none) (fun _ _ hs hstep => mt hstep.answer_eq_none hs) h k

/-- A search comes to its answer after a number of steps, and none of those before answers. -/
theorem exists_steps_eq_settle (s : Search) (ha : s.answer = none) :
    ∃ n, 0 < n ∧ step^[n] s = s.settle ∧ ∀ k, (step^[k] s).answer = none ↔ k < n := by
  fun_induction settle s with
  | case1 s h => simp [ha] at h
  | case2 s _ next hn =>
    refine ⟨1, Nat.one_pos, rfl, fun k => ?_⟩
    cases k with
    | zero => exact iff_of_true ha Nat.one_pos
    | succ k =>
      refine iff_of_false ?_ (by omega)
      rw [Function.iterate_succ_apply]
      exact answer_steps_ne_none (Option.isSome_iff_ne_none.1 hn) k
  | case3 s _ next hn ih =>
    obtain ⟨n, -, hend, hopen⟩ := ih (by simpa using hn)
    refine ⟨n + 1, Nat.succ_pos n, hend, fun k => ?_⟩
    cases k with
    | zero => exact iff_of_true ha (Nat.succ_pos n)
    | succ k =>
      rw [Function.iterate_succ_apply, Nat.succ_lt_succ_iff]
      exact hopen k

/-! ### What a step keeps -/

theorem Step.rightmost_le {s s' : Search} (hstep : Step s s') : s.rightmost ≤ s'.rightmost := by
  cases hstep with
  | idle => exact Int.le_refl _
  | found => exact Int.le_refl _
  | beyond => exact Int.le_refl _
  | ended => exact Int.le_refl _
  | moved => exact Int.le_max_left ..

/-- No key falls below all of those before the step. -/
theorem Step.exists_key_le {s s' : Search} (hstep : Step s s')
    (h : Entry.Lined s.rightmost s.queue) (f : Entry) (hf : f ∈ s'.queue) :
    ∃ e ∈ s.queue, e.key ≤ f.key := by
  have hrest : ∀ e rest, s.queue = e :: rest → f ∈ rest → ∃ e ∈ s.queue, e.key ≤ f.key := by
    intro e rest hq hmem
    exact ⟨f, hq ▸ List.mem_cons_of_mem e hmem, Int.le_refl _⟩
  cases hstep with
  | idle => exact ⟨f, hf, Int.le_refl _⟩
  | found e rest hq => exact hrest e rest hq hf
  | beyond e rest last hq => exact hrest e rest hq hf
  | ended e rest hq => exact hrest e rest hq hf
  | moved e rest low high hq hfar hlow hhigh =>
    rcases (Entry.mem_enqueue _ f rest).1 hf with rfl | hf
    · have he : e ∈ s.queue := hq ▸ List.mem_cons_self ..
      exact ⟨e, he, e.reader.low?_advance_ge e.key low (h.keyed e he) hlow⟩
    · exact hrest e rest hq hf

theorem lined_steps {s : Search} (h : Entry.Lined s.rightmost s.queue) (k : Nat) :
    Entry.Lined (step^[k] s).rightmost (step^[k] s).queue :=
  steps_induction (fun s => Entry.Lined s.rightmost s.queue)
    (fun _ _ hs hstep => hstep.lined hs) h k

theorem rightmost_le_steps (s : Search) (k : Nat) : s.rightmost ≤ (step^[k] s).rightmost :=
  steps_induction (s.rightmost ≤ ·.rightmost)
    (fun _ _ hle hstep => Int.le_trans hle hstep.rightmost_le) (Int.le_refl _) k

theorem exists_key_le_steps {s : Search} (h : Entry.Lined s.rightmost s.queue) (k : Nat) :
    ∀ f ∈ (step^[k] s).queue, ∃ e ∈ s.queue, e.key ≤ f.key := by
  refine (steps_induction (fun s' => Entry.Lined s'.rightmost s'.queue ∧
    ∀ f ∈ s'.queue, ∃ e ∈ s.queue, e.key ≤ f.key) ?_ ⟨h, fun f hf => ⟨f, hf, Int.le_refl _⟩⟩ k).2
  rintro s₁ s₂ ⟨hlined, hle⟩ hstep
  refine ⟨hstep.lined hlined, fun f hf => ?_⟩
  obtain ⟨g, hg, hgf⟩ := hstep.exists_key_le hlined f hf
  obtain ⟨e, he, heg⟩ := hle g hg
  exact ⟨e, he, Int.le_trans heg hgf⟩

/-! ### Ready searches -/

/-- A search before a round. The queue holds one entry for each term, and the first one is taken
before all others by its key and its order alone. Every reader holds a full block, and the rightmost
position is the greatest end of a block, if it lies beyond the one before all positions. -/
structure Ready (terms : List String) (s : Search) : Prop where
  covers : (s.queue.map (·.reader.term)).Perm (Demand.distinct terms)
  orders : (s.queue.map (·.order)).Nodup
  front : ∃ e rest, s.queue = e :: rest ∧
    ∀ f ∈ rest, e.key < f.key ∨ e.key = f.key ∧ e.order < f.order
  keyed : ∀ e ∈ s.queue, e.reader.low? = some e.key
  full : ∀ e ∈ s.queue, e.reader.spent = false
  shown : ∀ e ∈ s.queue, e.reader.high?.isSome = true ∧ e.reader.last?.isSome = true
  rightmost : IsGreatest {x | x = -1 ∨ ∃ e ∈ s.queue, e.reader.high? = some x} s.rightmost

/-- The reader in front goes on by one position and is queued again with its next block. The other
entries stay. -/
def Moves (s s' : Search) : Prop :=
  ∃ e rest low high, s.queue = e :: rest ∧
    e.reader.advance = { e.reader with index := e.reader.index + 1 } ∧
    e.reader.advance.low? = some low ∧ e.reader.advance.high? = some high ∧
    s'.queue.Perm (⟨low, e.order, e.reader.advance⟩ :: rest) ∧
    s'.rightmost = max s.rightmost high

section Running

variable {T : Task} {s : Search}

theorem Running.pairwise_order_ne (h : Running T s) :
    s.queue.Pairwise fun e f => e.order ≠ f.order := by
  have hterms : s.queue.Pairwise fun e f => e.reader.term ≠ f.reader.term :=
    List.pairwise_map.1 h.served.nodup_terms
  refine hterms.imp_of_mem fun {e f} he hf hne horder => hne ?_
  have hfirst := h.served.ranked e he
  rw [horder, h.served.ranked f hf] at hfirst
  exact (Option.some.inj hfirst).symm

theorem Running.front (h : Running T s) {e : Entry} {rest : List Entry}
    (hq : s.queue = e :: rest) (f : Entry) (hf : f ∈ rest) :
    e.key < f.key ∨ e.key = f.key ∧ e.order < f.order := by
  have hbefore := List.rel_of_pairwise_cons (hq ▸ h.lined.ordered) hf
  have hne := List.rel_of_pairwise_cons (hq ▸ h.pairwise_order_ne) hf
  simp only [Entry.before, Bool.or_eq_true, Bool.and_eq_true, decide_eq_true_eq] at hbefore
  omega

theorem Running.isGreatest_rightmost (h : Running T s) :
    IsGreatest {x | x = -1 ∨ ∃ e ∈ s.queue, e.reader.high? = some x} s.rightmost := by
  refine ⟨h.attained, fun x hx => ?_⟩
  rcases hx with rfl | ⟨e, he, hhigh⟩
  · exact h.lined.floor
  · exact h.lined.bounded e he x hhigh

theorem Running.queue_ne_nil (h : Running T s) (hne : T.terms ≠ []) : s.queue ≠ [] := by
  obtain ⟨t, ht⟩ := List.exists_mem_of_ne_nil T.terms hne
  obtain ⟨e, he, -⟩ := h.served.exists_entry t ht
  exact List.ne_nil_of_mem he

theorem Running.ready (h : Running T s) (hne : T.terms ≠ []) : Ready T.terms s where
  covers := h.served.covers
  orders := List.pairwise_map.2 h.pairwise_order_ne
  front := by
    obtain ⟨e, rest, hq⟩ := List.exists_cons_of_ne_nil (h.queue_ne_nil hne)
    exact ⟨e, rest, hq, h.front hq⟩
  keyed := h.lined.keyed
  full := h.lined.spent_eq_false
  shown := by
    intro e he
    obtain ⟨high, hhigh⟩ := e.reader.exists_high? (h.lined.spent_eq_false e he)
    obtain ⟨last, hlast⟩ := e.reader.exists_last? (h.lined.spent_eq_false e he)
    rw [hhigh, hlast]
    exact ⟨rfl, rfl⟩
  rightmost := h.isGreatest_rightmost

theorem Running.steps (h : Running T s) {k : Nat} (hopen : (step^[k] s).answer = none) :
    Running T (step^[k] s) :=
  steps_induction (fun s => s.answer = none → Running T s)
    (fun _ _ hs hstep hnone => (hs (hstep.answer_eq_none hnone)).kept hstep hnone)
    (fun _ => h) k hopen

theorem Running.moves (h : Running T s) {s' : Search} (hstep : Step s s')
    (hopen : s'.answer = none) : Moves s s' := by
  cases hstep with
  | idle => cases hopen
  | found => cases hopen
  | beyond => cases hopen
  | ended => cases hopen
  | moved e rest low high hq hfar hlow hhigh =>
    have hfull := h.lined.spent_eq_false e (hq ▸ List.mem_cons_self ..)
    have hadvance : e.reader.advance = { e.reader with index := e.reader.index + 1 } := by
      rw [Reader.advance, hfull]
      rfl
    exact ⟨e, rest, low, high, hq, hadvance, hlow, hhigh, Entry.perm_enqueue _ rest, rfl⟩

/-! ### The end on a spent reader -/

/-- A search that has halted on a spent reader. The other readers are those queued, and the
rightmost position is the greatest of the spent reader's last position and the ends of the other
blocks. -/
structure Exhausted (terms : List String) (s : Search) (e : Entry) : Prop where
  answer : s.answer = some false
  covers : (e.reader.term :: s.queue.map (·.reader.term)).Perm (Demand.distinct terms)
  rightmost : IsGreatest {x | x = -1 ∨ e.reader.last? = some x ∨
    ∃ f ∈ s.queue, f.reader.high? = some x} s.rightmost

theorem Running.exhausted (h : Running T s) {e : Entry} {rest : List Entry}
    (hq : s.queue = e :: rest) (hspent : e.reader.advance.spent = true) :
    Exhausted T.terms
      { s with
        queue := rest
        halted := some { e with reader := e.reader.advance }
        answer := some false }
      { e with reader := e.reader.advance } := by
  have hfull := h.lined.spent_eq_false e (hq ▸ List.mem_cons_self ..)
  have hcovers := h.served.covers
  have hgreatest := h.isGreatest_rightmost
  rw [hq] at hcovers hgreatest
  refine ⟨rfl, ?_, ?_⟩
  · rw [Reader.term_advance]
    exact hcovers
  · -- the last block of the reader in front ends where its positions do
    rw [Reader.last?_advance, ← e.reader.high?_eq_last? hfull hspent]
    simpa only [List.mem_cons, exists_eq_or_imp] using hgreatest

theorem Running.exhausted_settle (h : Running T s) (ha : s.answer = none) :
    ∀ e ∈ s.settle.halted, e.reader.spent = true → Exhausted T.terms s.settle e := by
  refine settle_induction (Running T)
    (fun s' => ∀ e ∈ s'.halted, e.reader.spent = true → Exhausted T.terms s' e)
    (fun s s' hs hstep hnone => hs.kept hstep hnone) ?_ s ha h
  intro s s' hopen hs hstep hsome e he hspent
  have hfront : ∀ f rest, s.queue = f :: rest → some f = some e → False := by
    intro f rest hq hfe
    obtain rfl := Option.some.inj hfe
    rw [hs.lined.spent_eq_false f (hq ▸ List.mem_cons_self ..)] at hspent
    cases hspent
  cases hstep with
  | idle => cases hs.halted.symm.trans he
  | found f rest hq => exact (hfront f rest hq he).elim
  | beyond f rest last hq => exact (hfront f rest hq he).elim
  | ended f rest hq hfar hend =>
    obtain rfl := Option.some.inj he
    exact hs.exhausted hq hend
  | moved => simp [hopen] at hsome

end Running

/-! ### Searches that can run -/

/-- Every term has a slot, and no slot keeps a search from running. -/
def Passes (shared : Bool) (terms : List String) (slots : List Value) : Prop :=
  terms.length ≤ slots.length ∧ ∀ i, ¬Offends (Demand.needed shared terms) (terms.zip slots) i

section Start

variable {distance : Nat} {terms : List String} {slots : List Value} {shared : Bool} {s : Search}
  (hs : start distance terms slots shared = .ok s)

include hs

theorem fill_of_start (hle : terms.length ≤ slots.length) :
    (terms.zip slots).map Prod.fst = terms ∧
      fill (Demand.needed shared terms) (idle distance) (terms.zip slots) = .ok s := by
  have hlen : slots.length = terms.length := by
    by_contra hne
    rw [start, if_neg (by omega), if_pos (by omega)] at hs
    cases hs
  exact ⟨List.map_fst_zip hle, (start_eq_fill distance shared hlen).symm.trans hs⟩

theorem running_of_start (h : Passes shared terms slots) :
    ∃ T : Task, T.terms = terms ∧ Running T s := by
  obtain ⟨hfst, hfill⟩ := fill_of_start hs h.1
  obtain ⟨positions, s', -, hfilled, htail⟩ := exists_filled_take distance shared
    (terms.zip slots) (Nat.le_refl _) fun j _ => by rw [hfst]; exact h.2 j
  have hend := htail []
  rw [List.take_length] at hfilled hend
  rw [List.append_nil, hfst, hfill] at hend
  obtain rfl : s = s' := Except.ok.inj hend
  exact ⟨_, hfst, hfilled.running⟩

theorem queue_of_start (h : ¬Passes shared terms slots) : s.queue = [] := by
  by_cases hle : terms.length ≤ slots.length
  · obtain ⟨hfst, hfill⟩ := fill_of_start hs hle
    have hoffends : ∃ i, Offends (Demand.needed shared terms) (terms.zip slots) i := by
      by_contra hnone
      exact h ⟨hle, not_exists.1 hnone⟩
    obtain ⟨i, hi, hleast⟩ := exists_isLeast_of_offends hoffends
    obtain ⟨t, v, hslot, -⟩ := id hi
    obtain ⟨hlt, -⟩ := List.getElem?_eq_some_iff.1 hslot
    have hpos : 0 < Demand.needed shared terms t :=
      Demand.needed_pos shared (hfst ▸ List.mem_map_of_mem (List.mem_of_getElem? hslot))
    obtain ⟨s', hopened, htail⟩ := exists_opened_take distance shared (terms.zip slots)
      (Nat.le_of_lt hlt) fun j hj hj' => by rw [hfst] at hj'; exact Nat.not_lt.2 (hleast hj') hj
    rw [hfst] at hopened htail
    rw [eq_take_cons_drop hslot, htail] at hfill
    rcases fill_of_offends hpos hi hslot (hopened.holds_iff t) with ⟨-, heq⟩ | ⟨-, _, -, heq⟩
    · obtain rfl := Except.ok.inj ((heq _).symm.trans hfill)
      rfl
    · cases (heq _).symm.trans hfill
  · rw [start, if_pos (by omega)] at hs
    obtain rfl := Except.ok.inj hs
    rfl

theorem queue_eq_nil_iff : s.queue = [] ↔ terms = [] ∨ ¬Passes shared terms slots := by
  by_cases h : Passes shared terms slots
  · obtain ⟨T, rfl, hrunning⟩ := running_of_start hs h
    refine ⟨fun hq => ?_, fun hcause => ?_⟩
    · by_contra hne
      exact hrunning.queue_ne_nil (not_or.1 hne).1 hq
    · have hcovers := hrunning.served.covers
      rw [hcause.resolve_right (not_not_intro h)] at hcovers
      exact List.map_eq_nil_iff.1 hcovers.eq_nil
  · exact iff_of_true (queue_of_start hs h) (Or.inr h)

end Start

/-! ### Rounds -/

/-- The run of a search in `n` rounds. Each one begins with a search that is ready, and each but the
last, which answers, moves a reader. Neither the key in front nor the rightmost position decreases,
and a reader that is spent at the end was the last one to move. -/
structure Rounds (terms : List String) (s : Search) (n : Nat) : Prop where
  settled : step^[n] s = s.settle
  answered : ∀ k, (step^[k] s).answer = none ↔ k < n
  ready : ∀ k < n, Ready terms (step^[k] s)
  moves : ∀ k, k + 1 < n → Moves (step^[k] s) (step^[k + 1] s)
  fronts : ∀ j k, j ≤ k → k < n → ∀ e ∈ (step^[j] s).queue.head?,
    ∀ f ∈ (step^[k] s).queue.head?, e.key ≤ f.key
  rightmosts : ∀ j k, j ≤ k → (step^[j] s).rightmost ≤ (step^[k] s).rightmost
  exhausted : ∀ e ∈ s.settle.halted, e.reader.spent = true → Exhausted terms s.settle e

theorem steps_add (s : Search) {j k : Nat} (h : j ≤ k) :
    step^[k] s = step^[k - j] (step^[j] s) := by
  rw [← Function.iterate_add_apply, Nat.sub_add_cancel h]

theorem key_le_of_front {s : Search} (h : Entry.Lined s.rightmost s.queue) {e : Entry}
    (he : e ∈ s.queue.head?) (k : Nat) (f : Entry) (hf : f ∈ (step^[k] s).queue) :
    e.key ≤ f.key := by
  obtain ⟨rest, hq⟩ := List.head?_eq_some_iff.1 he
  obtain ⟨g, hg, hgf⟩ := exists_key_le_steps h k f hf
  exact Int.le_trans (Entry.key_le_of_ordered e g rest (hq ▸ h.ordered) (hq ▸ hg)) hgf

theorem Running.exists_rounds {T : Task} {s : Search} (h : Running T s) (hne : T.terms ≠ [])
    (ha : s.answer = none) : ∃ n, 0 < n ∧ Rounds T.terms s n := by
  obtain ⟨n, hpos, hend, hopen⟩ := exists_steps_eq_settle s ha
  have hrunning : ∀ k < n, Running T (step^[k] s) := fun k hk => h.steps ((hopen k).2 hk)
  refine ⟨n, hpos, ?_⟩
  constructor
  case settled => exact hend
  case answered => exact hopen
  case ready => exact fun k hk => (hrunning k hk).ready hne
  case moves =>
    intro k hk
    rw [Function.iterate_succ_apply']
    refine (hrunning k (by omega)).moves (step_spec _) ?_
    rw [← Function.iterate_succ_apply' step]
    exact (hopen (k + 1)).2 hk
  case fronts =>
    intro j k hjk _ e he f hf
    rw [steps_add s hjk] at hf
    exact key_le_of_front (lined_steps h.lined j) he _ f (List.mem_of_head? hf)
  case rightmosts =>
    intro j k hjk
    rw [steps_add s hjk]
    exact rightmost_le_steps _ _
  case exhausted => exact h.exhausted_settle ha

/-- Whatever a search is started with, it goes through no round when there are no terms or a slot
keeps it from running. Otherwise it comes to its answer in a number of rounds, each of which begins
with a search that is ready. -/
theorem start_rounds (distance : Value) (terms : List String) (slots : Value) (shared : Bool)
    (s : Search) (hs : ofValues distance terms slots shared = .ok s) :
    (∃ given, slots.elements = .ok given ∧
      (s.queue = [] ↔ terms = [] ∨ ¬Passes shared terms given)) ∧
    (s.queue = [] → s.settle = { s with answer := some false }) ∧
    (s.queue ≠ [] → ∃ n, 0 < n ∧ Rounds terms s n) := by
  obtain ⟨d, -, hd⟩ := exists_of_bind_eq_ok hs
  obtain ⟨given, hgiven, hstart⟩ := exists_of_bind_eq_ok hd
  have ha := answer_of_start hstart
  have hempty := queue_eq_nil_iff hstart
  refine ⟨⟨given, hgiven, hempty⟩, fun hq => ?_, fun hq => ?_⟩
  · have hstep : s.step = { s with answer := some false } := by simp [step, hq]
    rw [settle_step s (by simp [ha]), hstep, settle_of_answer _ rfl]
  · have hcauses := not_or.1 (mt hempty.2 hq)
    obtain ⟨T, rfl, hrunning⟩ := running_of_start hstart (not_not.1 hcauses.2)
    exact hrunning.exists_rounds hcauses.1 ha

/-- Two rounds: the reader of `a` goes on from 1 and 2 to 2 and 9, and is spent by its next move. -/
theorem start_rounds_exhausted :
    ∃ s n,
      ofValues (.whole 3) ["a", "b", "a"]
        (.list [.ofInts [9, 1, 2], .ofInts [5], .ofInts []]) false = .ok s ∧
      1 < n ∧ Rounds ["a", "b", "a"] s n ∧
      ∃ e ∈ s.settle.halted, e.reader.spent = true ∧ Exhausted ["a", "b", "a"] s.settle e ∧
        s.settle.rightmost = 9 := by
  -- the readers of `a` and `b` with their positions sorted
  let a : Reader := ⟨"a", 2, ⟨#[1, 2, 9], by decide⟩, 0, by decide⟩
  let b : Reader := ⟨"b", 1, ⟨#[5], by decide⟩, 0, by decide⟩
  have ha : Reader.ofValue "a" (some 2) (.ofInts [9, 1, 2]) = .ok a :=
    Reader.ofValue_ofInts "a" (by decide) (by decide) (by simp [Positions.Plain])
  have hb : Reader.ofValue "b" (some 1) (.ofInts [5]) = .ok b :=
    Reader.ofValue_ofInts "b" (by decide) (by decide) (by simp [Positions.Plain])
  let s : Search := ⟨3, 5, [⟨1, 0, a⟩, ⟨5, 1, b⟩], none, none⟩
  let e : Entry := ⟨2, 0, a.advance.advance⟩
  have hs : ofValues (.whole 3) ["a", "b", "a"]
      (.list [.ofInts [9, 1, 2], .ofInts [5], .ofInts []]) false = .ok s := by
    show start 3 ["a", "b", "a"] [.ofInts [9, 1, 2], .ofInts [5], .ofInts []] false = _
    rw [start_eq_fill 3 false rfl]
    refine (fill_enter _ _ _ _ a 1 2 rfl rfl ha rfl rfl _).trans ?_
    refine (fill_enter _ _ _ _ b 5 5 rfl rfl hb rfl rfl _).trans ?_
    rfl
  have hmoved : s.step = ⟨3, 9, [⟨2, 0, a.advance⟩, ⟨5, 1, b⟩], none, none⟩ := rfl
  have hend : s.settle = ⟨3, 9, [⟨5, 1, b⟩], some e, some false⟩ := by
    rw [settle_step s (by decide), settle_step s.step (by rw [hmoved]; decide), hmoved]
    exact settle_of_answer _ rfl
  obtain ⟨-, -, hrounds⟩ := start_rounds _ _ _ _ s hs
  obtain ⟨n, -, h⟩ := hrounds (List.cons_ne_nil _ _)
  have he : e ∈ s.settle.halted := by rw [hend]; rfl
  exact ⟨s, n, hs, (h.answered 1).1 rfl, h, e, he, rfl, h.exhausted e he rfl, by rw [hend]⟩

end Search

end TermWindow
