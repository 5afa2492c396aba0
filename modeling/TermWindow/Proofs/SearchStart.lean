import TermWindow.Proofs.SearchRun
import TermWindow.Proofs.Slots

/-!
# The start of a search

The slots are read from the left. `Search.Filled` says what a search holds after the slots of the
terms read so far; when all slots are given and long enough, it can run, and otherwise it is left
without readers and finds nothing.
-/

namespace TermWindow

theorem Demand.distinct_concat (ts : List String) (t : String) :
    distinct (ts ++ [t]) = if t ∈ ts then distinct ts else distinct ts ++ [t] := by
  induction ts with
  | nil => rfl
  | cons s ts ih =>
    rw [List.cons_append, distinct, ih, distinct]
    by_cases ht : t ∈ ts
    · simp [ht]
    · by_cases hs : t = s
      · subst hs
        simp [ht]
      · simp [ht, hs]

namespace Reader

theorem eq_of_parts {r r' : Reader} (hterm : r'.term = r.term)
    (hmultiplicity : r'.multiplicity = r.multiplicity) (hpositions : r'.positions = r.positions)
    (hindex : r'.index = r.index) : r' = r := by
  cases r
  cases r'
  simp only at hterm hmultiplicity hpositions hindex
  subst hterm hmultiplicity hpositions hindex
  rfl

end Reader

namespace Search

/-- A search that has read the first slots of the terms in `done`. -/
structure Filled (T : Task) (done : List String) (s : Search) : Prop where
  distance : s.distance = T.distance
  halted : s.halted = none
  answer : s.answer = none
  served : Entry.Serves T done s.queue
  lined : Entry.Lined s.rightmost s.queue
  attained : Entry.Attained s.rightmost s.queue
  fresh : ∀ e ∈ s.queue, e.reader.index = 0

theorem filled_idle (T : Task) : Filled T [] (idle T.distance) where
  distance := rfl
  halted := rfl
  answer := rfl
  served := ⟨List.Perm.refl _, by simp [idle], by simp [idle], by simp [idle]⟩
  lined := ⟨by simp [idle], List.Pairwise.nil, Int.le_refl _, by simp [idle]⟩
  attained := Or.inl rfl
  fresh := by simp [idle]

section Filled

variable {T : Task} {done : List String} {s : Search}

theorem Filled.holds_iff (h : Filled T done s) (t : String) : s.holds t = true ↔ t ∈ done := by
  simp only [holds, List.any_eq_true, decide_eq_true_eq]
  refine ⟨?_, ?_⟩
  · intro h'
    obtain ⟨e, he, rfl⟩ := h'
    exact h.served.mem_terms e he
  · exact h.served.exists_entry t

theorem Filled.skip (h : Filled T done s) (t : String) (ht : t ∈ done) :
    Filled T (done ++ [t]) s := by
  have hd : Demand.distinct (done ++ [t]) = Demand.distinct done := by
    rw [Demand.distinct_concat, if_pos ht]
  refine ⟨h.distance, h.halted, h.answer, ?_, h.lined, h.attained, h.fresh⟩
  exact ⟨hd ▸ h.served.covers, hd ▸ h.served.ranked, h.served.multiplicity, h.served.positions⟩

theorem Filled.enter (h : Filled T done s) (r : Reader) (low high : Int) (ht : r.term ∉ done)
    (hm : r.multiplicity = T.needed r.term) (hp : r.positions = T.sorted r.term)
    (hi : r.index = 0) (hlow : r.low? = some low) (hhigh : r.high? = some high) :
    Filled T (done ++ [r.term]) (s.enter r low high) := by
  have hd : Demand.distinct (done ++ [r.term]) = Demand.distinct done ++ [r.term] := by
    rw [Demand.distinct_concat, if_neg ht]
  have hlen : s.queue.length = (Demand.distinct done).length := by
    rw [← h.served.covers.length_eq, List.length_map]
  have hperm := Entry.perm_enqueue ⟨low, s.queue.length, r⟩ s.queue
  have hserved : Entry.Serves T (done ++ [r.term]) (⟨low, s.queue.length, r⟩ :: s.queue) := by
    constructor
    · rw [hd]
      exact (h.served.covers.cons r.term).trans (List.perm_append_singleton r.term _).symm
    · rw [hd]
      refine List.forall_mem_cons.2 ⟨?_, fun e he => ?_⟩
      · rw [hlen, List.getElem?_concat_length]
      · have hr := h.served.ranked e he
        rw [List.getElem?_append_left (List.getElem?_eq_some_iff.1 hr).1]
        exact hr
    · exact List.forall_mem_cons.2 ⟨hm, h.served.multiplicity⟩
    · exact List.forall_mem_cons.2 ⟨hp, h.served.positions⟩
  constructor
  case distance => exact h.distance
  case halted => exact h.halted
  case answer => exact h.answer
  case served => exact hserved.of_perm _ hperm.symm
  case lined => exact h.lined.enqueue _ r low high hlow hhigh
  case attained => exact h.attained.enqueue _ r low high hhigh
  case fresh =>
    intro e he
    rcases (Entry.mem_enqueue _ e s.queue).1 he with rfl | he
    · exact hi
    · exact h.fresh e he

theorem Filled.running (h : Filled T T.terms s) : Running T s where
  distance := h.distance
  halted := h.halted
  served := h.served
  lined := h.lined
  attained := h.attained
  behind := by
    intro start _ _ e he
    rw [h.fresh e he]
    exact Nat.zero_le _

end Filled

/-! ### Reading the slots -/

/-- A search that was given up: a slot is missing or a term occurs too seldom. -/
structure GivenUp (T : Task) (slots : List Value) (s : Search) : Prop where
  queue : s.queue = []
  answer : s.answer = none
  cause : (∃ v ∈ slots, v.isMissing = true) ∨
    ∃ t ∈ T.terms, (T.occurrences t).length < T.needed t

/-- Where the reading of some slots ends: all terms have readers, or the search is given up. -/
def Read (T : Task) (terms : List String) (slots : List Value) (s : Search) : Prop :=
  (Filled T terms s ∧ ∀ v ∈ slots, v.isMissing = false) ∨ GivenUp T slots s

theorem Read.cons {T : Task} {terms : List String} {slots : List Value} {s : Search}
    (h : Read T terms slots s) (v : Value) (hgiven : v.isMissing = false) :
    Read T terms (v :: slots) s := by
  rcases h with ⟨hfilled, hall⟩ | ⟨hqueue, hanswer, hcause⟩
  · exact Or.inl ⟨hfilled, List.forall_mem_cons.2 ⟨hgiven, hall⟩⟩
  · refine Or.inr ⟨hqueue, hanswer, hcause.imp_left ?_⟩
    intro hmissing
    obtain ⟨w, hw, hm⟩ := hmissing
    exact ⟨w, List.mem_cons_of_mem v hw, hm⟩

theorem fill_enter (needed : String → Nat) (s : Search) (t : String) (v : Value) (r : Reader)
    (low high : Int) (hgiven : v.isMissing = false) (hnew : s.holds t = false)
    (hr : Reader.ofValue t (some (needed t)) v = .ok r) (hlow : r.low? = some low)
    (hhigh : r.high? = some high) (rest : List (String × Value)) :
    fill needed s ((t, v) :: rest) = fill needed (s.enter r low high) rest := by
  simp only [fill, hgiven, hnew, Bool.false_eq_true, if_false, hr, bind, Except.bind, hlow, hhigh]

/-- A slot that counts for its term enters a reader, or it gives the search up when the reader is
spent. The slots behind it play no part in that. -/
theorem fill_reader (needed : String → Nat) (s : Search) (t : String) (v : Value) (r : Reader)
    (hgiven : v.isMissing = false) (hnew : s.holds t = false)
    (hr : Reader.ofValue t (some (needed t)) v = .ok r) :
    (r.spent = true ∧ ∀ rest, fill needed s ((t, v) :: rest) = .ok s.abandon) ∨
    (r.spent = false ∧ ∃ low high, r.low? = some low ∧ r.high? = some high ∧
      ∀ rest, fill needed s ((t, v) :: rest) = fill needed (s.enter r low high) rest) := by
  cases hs : r.spent with
  | true =>
    have hlow : r.low? = none := by simp [Reader.low?, hs]
    refine Or.inl ⟨rfl, fun rest => ?_⟩
    simp only [fill, hgiven, hnew, Bool.false_eq_true, if_false, hr, bind, Except.bind, hlow]
    rfl
  | false =>
    obtain ⟨low, hlow⟩ := r.exists_low? hs
    obtain ⟨high, hhigh⟩ := r.exists_high? hs
    exact Or.inr ⟨rfl, low, high, hlow, hhigh,
      fill_enter needed s t v r low high hgiven hnew hr hlow hhigh⟩

theorem fill_new (needed : String → Nat) (s : Search) (t : String) (v : Value) (p : Positions)
    (hpos : 0 < needed t) (hgiven : v.isMissing = false) (hnew : s.holds t = false)
    (hv : Positions.ofValue v = .ok p) :
    ((∀ rest, fill needed s ((t, v) :: rest) = .ok s.abandon) ∧ p.size < needed t) ∨
    ∃ r : Reader, ∃ low high, r.term = t ∧ r.multiplicity = needed t ∧ r.positions = p ∧
      r.index = 0 ∧ needed t ≤ p.size ∧ r.low? = some low ∧ r.high? = some high ∧
      ∀ rest, fill needed s ((t, v) :: rest) = fill needed (s.enter r low high) rest := by
  have hr := Reader.ofValue_eq_ok t (needed t) hpos v p hv
  rcases fill_reader needed s t v _ hgiven hnew hr with
    ⟨hspent, heq⟩ | ⟨hfull, low, high, hlow, hhigh, heq⟩
  · exact Or.inl ⟨heq, by simpa [Reader.spent, Reader.size] using hspent⟩
  · have henough : needed t ≤ p.size := by simpa [Reader.spent, Reader.size] using hfull
    exact Or.inr ⟨_, low, high, rfl, rfl, rfl, rfl, henough, hlow, hhigh, heq⟩

/-- What holds before the slots are read, and is kept by new readers and by giving up, holds of the
search that comes of the slots. -/
theorem fill_induction (P : Search → Prop) (habandon : ∀ s, P s → P s.abandon)
    (henter : ∀ s r low high, P s → r.low? = some low → r.high? = some high →
      P (s.enter r low high))
    (needed : String → Nat) (slots : List (String × Value)) (s s' : Search)
    (hs : fill needed s slots = .ok s') (h : P s) : P s' := by
  induction slots generalizing s with
  | nil =>
    obtain rfl := Except.ok.inj hs
    exact h
  | cons slot rest ih =>
    obtain ⟨t, v⟩ := slot
    cases hgiven : v.isMissing with
    | true =>
      obtain rfl : s.abandon = s' := by simpa [fill, hgiven] using hs
      exact habandon s h
    | false =>
      cases hholds : s.holds t with
      | true =>
        have hskip : fill needed s rest = .ok s' := by simpa [fill, hgiven, hholds] using hs
        exact ih s hskip h
      | false =>
        cases hr : Reader.ofValue t (some (needed t)) v with
        | error refused => simp [fill, hgiven, hholds, hr, bind, Except.bind] at hs
        | ok r =>
          rcases fill_reader needed s t v r hgiven hholds hr with
            ⟨-, heq⟩ | ⟨-, low, high, hlow, hhigh, heq⟩
          · obtain rfl := Except.ok.inj ((heq rest).symm.trans hs)
            exact habandon s h
          · exact ih (s.enter r low high) ((heq rest).symm.trans hs)
              (henter s r low high h hlow hhigh)

theorem fill_cases (T : Task) (before rest : List (String × Value)) (s : Search)
    (hreads : T.Reads (before ++ rest)) (hterms : ∀ p ∈ rest, p.1 ∈ T.terms)
    (h : Filled T (before.map Prod.fst) s) :
    ∃ s', fill T.needed s rest = .ok s' ∧
      Read T ((before ++ rest).map Prod.fst) (rest.map Prod.snd) s' := by
  induction rest generalizing before s with
  | nil =>
    rw [List.append_nil]
    exact ⟨s, rfl, Or.inl ⟨h, by simp⟩⟩
  | cons p rest ih =>
    obtain ⟨t, v⟩ := p
    have ht : t ∈ T.terms := hterms (t, v) (List.mem_cons_self ..)
    have hrest : ∀ q ∈ rest, q.1 ∈ T.terms := fun q hq => hterms q (List.mem_cons_of_mem _ hq)
    have happ : before ++ (t, v) :: rest = (before ++ [(t, v)]) ++ rest := by simp
    cases hgiven : v.isMissing with
    | true =>
      refine ⟨s.abandon, by simp [fill, hgiven], Or.inr ⟨rfl, h.answer, Or.inl ⟨v, ?_, hgiven⟩⟩⟩
      simp
    | false =>
      -- the rest is read from a search that has also read this slot
      have hnext : ∀ s₁, Filled T (before.map Prod.fst ++ [t]) s₁ →
          fill T.needed s ((t, v) :: rest) = fill T.needed s₁ rest →
          ∃ s', fill T.needed s ((t, v) :: rest) = .ok s' ∧
            Read T ((before ++ (t, v) :: rest).map Prod.fst) (v :: rest.map Prod.snd) s' := by
        intro s₁ hs₁ heq
        rw [happ] at hreads ⊢
        have hdone : Filled T ((before ++ [(t, v)]).map Prod.fst) s₁ := by
          rw [List.map_append]
          exact hs₁
        obtain ⟨s', hs', hread⟩ := ih (before ++ [(t, v)]) s₁ hreads hrest hdone
        exact ⟨s', heq.trans hs', hread.cons v hgiven⟩
      by_cases hd : t ∈ before.map Prod.fst
      · have hholds := (h.holds_iff t).2 hd
        exact hnext s (h.skip t hd) (by simp [fill, hgiven, hholds])
      · have hholds : s.holds t = false := by
          rw [Bool.eq_false_iff]
          exact fun hh => hd ((h.holds_iff t).1 hh)
        have hv := hreads t v (Table.lookup_of_new before rest t v hd) hgiven
        rcases fill_new T.needed s t v _ (T.needed_pos t ht) hgiven hholds hv with
          ⟨heq, hshort⟩ | hread
        · rw [T.size_sorted] at hshort
          exact ⟨s.abandon, heq rest, Or.inr ⟨rfl, h.answer, Or.inr ⟨t, ht, hshort⟩⟩⟩
        · obtain ⟨r, low, high, rfl, hm, hp, hi, -, hlow, hhigh, heq⟩ := hread
          exact hnext (s.enter r low high) (h.enter r low high hd hm hp hi hlow hhigh) (heq rest)

theorem start_eq_fill (distance : Nat) {terms : List String} {slots : List Value} (shared : Bool)
    (hlen : slots.length = terms.length) :
    start distance terms slots shared =
      fill (Demand.needed shared terms) (idle distance) (terms.zip slots) := by
  rw [start, if_neg (by omega), if_neg (by omega)]

theorem start_induction (P : Search → Prop) (habandon : ∀ s, P s → P s.abandon)
    (henter : ∀ s r low high, P s → r.low? = some low → r.high? = some high →
      P (s.enter r low high))
    {distance : Nat} {terms : List String} {slots : List Value} {shared : Bool} {s : Search}
    (hs : start distance terms slots shared = .ok s) (hidle : P (idle distance)) : P s := by
  unfold start at hs
  split at hs
  · obtain rfl := Except.ok.inj hs
    exact hidle
  · split at hs
    · cases hs
    · exact fill_induction P habandon henter _ _ _ s hs hidle

theorem answer_of_start {distance : Nat} {terms : List String} {slots : List Value} {shared : Bool}
    {s : Search} (hs : start distance terms slots shared = .ok s) : s.answer = none :=
  start_induction (fun s => s.answer = none) (fun _ h => h) (fun _ _ _ _ h _ _ => h) hs rfl

theorem start_cases (T : Task) (slots : List Value) (hlen : slots.length = T.terms.length)
    (hreads : T.Reads (T.terms.zip slots)) :
    ∃ s, start T.distance T.terms slots T.shared = .ok s ∧ Read T T.terms slots s := by
  have hfst : (T.terms.zip slots).map Prod.fst = T.terms := List.map_fst_zip (by omega)
  have hsnd : (T.terms.zip slots).map Prod.snd = slots := List.map_snd_zip (by omega)
  have hterms : ∀ p ∈ T.terms.zip slots, p.1 ∈ T.terms := fun p hp => (List.of_mem_zip hp).1
  obtain ⟨s, hs, hread⟩ := fill_cases T [] (T.terms.zip slots) (idle T.distance) hreads hterms
    (filled_idle T)
  rw [List.nil_append, hfst, hsnd] at hread
  rw [start_eq_fill T.distance T.shared hlen]
  exact ⟨s, hs, hread⟩

theorem GivenUp.found_eq_false {T : Task} {slots : List Value} {s : Search}
    (h : GivenUp T slots s) : s.found = false :=
  found_of_no_queue s h.answer h.queue

theorem Filled.found_eq_false_of_no_terms {T : Task} {s : Search} (h : Filled T T.terms s)
    (hne : T.terms = []) : s.found = false := by
  have hcovers := h.served.covers
  rw [hne] at hcovers
  exact found_of_no_queue s h.answer (List.map_eq_nil_iff.1 hcovers.eq_nil)

/-- A search that starts ends on the least blocks in a window, or there is no window to find. -/
theorem start_outcome (T : Task) (slots : List Value) (hlen : slots.length = T.terms.length)
    (hreads : T.Reads (T.terms.zip slots)) :
    ∃ s, start T.distance T.terms slots T.shared = .ok s ∧
      ((s.found = true ∧ T.terms ≠ [] ∧ (∀ v ∈ slots, v.isMissing = false) ∧
          ∃ start, Landed T s.settle start) ∨
        (s.found = false ∧ ¬(T.terms ≠ [] ∧ (∀ v ∈ slots, v.isMissing = false) ∧
          ∃ start, T.Places start ∧ T.Above start))) := by
  obtain ⟨s, hs, ⟨hfilled, hall⟩ | hup⟩ := start_cases T slots hlen hreads
  · refine ⟨s, hs, ?_⟩
    by_cases hne : T.terms = []
    · exact Or.inr ⟨hfilled.found_eq_false_of_no_terms hne, fun h => h.1 hne⟩
    · rcases hfilled.running.settle_cases hfilled.answer hne with ⟨ha, hl⟩ | ⟨ha, hno⟩
      · exact Or.inl ⟨by simp [found, ha], hne, hall, hl⟩
      · refine Or.inr ⟨by simp [found, ha], ?_⟩
        intro hw
        obtain ⟨-, -, start, hp, hab⟩ := hw
        exact hno start hp hab
  · refine ⟨s, hs, Or.inr ⟨hup.found_eq_false, ?_⟩⟩
    intro hw
    obtain ⟨-, hall, start, hp, -⟩ := hw
    rcases hup.cause with ⟨v, hv, hmissing⟩ | ⟨t, ht, hshort⟩
    · rw [hall v hv] at hmissing
      cases hmissing
    · have hin := hp.inside t ht
      omega

/-- A search finds a window just when all slots are given and blocks of all terms lie in one. -/
theorem found_start_iff (T : Task) (slots : List Value) (hlen : slots.length = T.terms.length)
    (hreads : T.Reads (T.terms.zip slots)) :
    ∃ s, start T.distance T.terms slots T.shared = .ok s ∧
      (s.found = true ↔ T.terms ≠ [] ∧ (∀ v ∈ slots, v.isMissing = false) ∧
        ∃ start, T.Places start ∧ T.Above start) := by
  obtain ⟨s, hs, ⟨hf, hne, hall, start, hl⟩ | ⟨hf, hno⟩⟩ := start_outcome T slots hlen hreads
  · exact ⟨s, hs, iff_of_true hf ⟨hne, hall, start, hl.places, hl.above⟩⟩
  · exact ⟨s, hs, iff_of_false (by simp [hf]) hno⟩

theorem length_eq_of_found (distance : Nat) (terms : List String) (slots : List Value)
    (shared : Bool) (s : Search) (hs : start distance terms slots shared = .ok s)
    (hf : s.found = true) : slots.length = terms.length := by
  unfold start at hs
  split at hs
  · have heq : idle distance = s := Except.ok.inj hs
    have hidle := found_of_no_queue (idle distance) rfl rfl
    rw [heq, hf] at hidle
    cases hidle
  · split at hs
    · cases hs
    · omega

end Search

end TermWindow
