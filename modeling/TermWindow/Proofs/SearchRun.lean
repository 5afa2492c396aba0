import TermWindow.Proofs.Queue

/-!
# Runs of a search

`Search.Step` lists what one step of a search can do. From it come the invariant `Search.Running`,
which says that no reader has passed its block in any window that is still possible, and the two
ways in which a run ends: at the least blocks that lie in one window, or without any such blocks.
-/

namespace TermWindow

namespace Search

/-! ### One step -/

inductive Step (s : Search) : Search → Prop where
  | idle (hq : s.queue = []) : Step s { s with answer := some false }
  | found (e : Entry) (rest : List Entry) (hq : s.queue = e :: rest)
      (hnear : s.rightmost - e.key ≤ (s.distance : Int)) :
      Step s { s with queue := rest, halted := some e, answer := some true }
  | beyond (e : Entry) (rest : List Entry) (last : Int) (hq : s.queue = e :: rest)
      (hfar : (s.distance : Int) < s.rightmost - e.key) (hlast : e.reader.last? = some last)
      (hout : (s.distance : Int) < s.rightmost - last) :
      Step s { s with queue := rest, halted := some e, answer := some false }
  | ended (e : Entry) (rest : List Entry) (hq : s.queue = e :: rest)
      (hfar : (s.distance : Int) < s.rightmost - e.key) (hspent : e.reader.advance.spent = true) :
      Step s
        { s with
          queue := rest
          halted := some { e with reader := e.reader.advance }
          answer := some false }
  | moved (e : Entry) (rest : List Entry) (low high : Int) (hq : s.queue = e :: rest)
      (hfar : (s.distance : Int) < s.rightmost - e.key)
      (hlow : e.reader.advance.low? = some low) (hhigh : e.reader.advance.high? = some high) :
      Step s
        { s with
          queue := Entry.enqueue ⟨low, e.order, e.reader.advance⟩ rest
          rightmost := max s.rightmost high }

theorem step_move (s : Search) (e : Entry) (rest : List Entry) (hq : s.queue = e :: rest)
    (hfar : (s.distance : Int) < s.rightmost - e.key) : Step s (s.move e rest) := by
  unfold move
  cases hs : e.reader.advance.spent with
  | true =>
    have hlow : e.reader.advance.low? = none := by simp [Reader.low?, hs]
    rw [hlow]
    exact Step.ended e rest hq hfar hs
  | false =>
    obtain ⟨low, hlow⟩ := e.reader.advance.exists_low? hs
    obtain ⟨high, hhigh⟩ := e.reader.advance.exists_high? hs
    rw [hlow, hhigh]
    exact Step.moved e rest low high hq hfar hlow hhigh

theorem step_spec (s : Search) : Step s s.step := by
  unfold step
  split
  · rename_i hq
    exact Step.idle hq
  · rename_i e rest hq
    split
    · rename_i hnear
      exact Step.found e rest hq hnear
    · rename_i hfar
      split
      · rename_i hout
        unfold outOfReach at hout
        split at hout
        · rename_i last hlast
          exact Step.beyond e rest last hq (by omega) hlast (of_decide_eq_true hout)
        · cases hout
      · exact step_move s e rest hq (by omega)

/-- What holds at the start and is kept by steps without an answer holds before the last step. -/
theorem settle_induction (P Q : Search → Prop)
    (hkeep : ∀ s s', P s → Step s s' → s'.answer = none → P s')
    (hlast : ∀ s s', s.answer = none → P s → Step s s' → s'.answer.isSome = true → Q s')
    (s : Search) (ha : s.answer = none) (hs : P s) : Q s.settle := by
  fun_induction settle s with
  | case1 s h => simp [ha] at h
  | case2 s _ next hn => exact hlast s _ ha hs (step_spec s) hn
  | case3 s _ next hn ih =>
    have hnone : next.answer = none := by simpa using hn
    exact ih hnone (hkeep s _ hs (step_spec s) hnone)

theorem answer_settle (s : Search) : s.settle.answer.isSome = true := by
  fun_induction settle s with
  | case1 s h => exact h
  | case2 s _ next hn => exact hn
  | case3 s _ next hn ih => exact ih

theorem settle_of_answer (s : Search) (h : s.answer.isSome = true) : s.settle = s := by
  rw [settle, if_pos h]

theorem settle_step (s : Search) (h : ¬s.answer.isSome = true) : s.settle = s.step.settle := by
  rw [settle, if_neg h]
  by_cases hanswer : s.step.answer.isSome = true
  · rw [dif_pos hanswer, settle_of_answer s.step hanswer]
  · rw [dif_neg hanswer]

theorem settle_settle (s : Search) : s.settle.settle = s.settle :=
  settle_of_answer s.settle (answer_settle s)

theorem found_of_no_queue (s : Search) (ha : s.answer = none) (hq : s.queue = []) :
    s.found = false := by
  have hs : s.step = { s with answer := some false } := by simp [step, hq]
  rw [found, settle_step s (by simp [ha]), hs, settle_of_answer _ rfl]
  rfl

/-! ### The invariant -/

/-- A search between two steps. The readers hold full blocks, none of which lies behind the block
of its term in a window. -/
structure Running (T : Task) (s : Search) : Prop where
  distance : s.distance = T.distance
  halted : s.halted = none
  served : Entry.Serves T T.terms s.queue
  lined : Entry.Lined s.rightmost s.queue
  attained : Entry.Attained s.rightmost s.queue
  behind : ∀ start, T.Places start → T.Above start →
    ∀ e ∈ s.queue, e.reader.index ≤ start e.reader.term

section Running

variable {T : Task} {s : Search}

/-- Any window that is still possible reaches to the rightmost position. -/
theorem Running.rightmost_sub_le (h : Running T s) (start : String → Nat) (hp : T.Places start)
    (ha : T.Above start) (t : String) (ht : t ∈ T.terms) (x : Int) (hx : x ∈ T.block start t) :
    s.rightmost - x ≤ (T.distance : Int) := by
  rcases h.attained with hidle | ⟨f, hf, hhigh⟩
  · rw [hidle]
    exact ha t ht x hx
  · have hu := h.served.mem_terms f hf
    have hi := h.behind start hp ha f hf
    have hin := hp.inside f.reader.term hu
    have hpos := T.needed_pos f.reader.term hu
    have hget := ((f.reader.high?_eq_some_iff s.rightmost).1 hhigh).2
    rw [h.served.positions f hf, h.served.multiplicity f hf] at hget
    obtain ⟨y, hy, hle⟩ := (T.sorted f.reader.term).exists_ge_in_block _
      (start f.reader.term) (T.needed f.reader.term) s.rightmost hget (by omega) hpos
      (by rw [Task.size_sorted]; exact hin)
    have hxy := hp.close f.reader.term hu t ht y hy x hx
    omega

/-- The first reader has yet to come to its block in a window, when it is too far behind now. -/
theorem Running.index_lt_start (h : Running T s) (e : Entry) (rest : List Entry)
    (hq : s.queue = e :: rest) (hfar : (s.distance : Int) < s.rightmost - e.key)
    (start : String → Nat) (hp : T.Places start) (ha : T.Above start) :
    e.reader.index < start e.reader.term := by
  have he : e ∈ s.queue := by rw [hq]; exact List.mem_cons_self ..
  rcases Nat.lt_or_eq_of_le (h.behind start hp ha e he) with hlt | heq
  · exact hlt
  · have hm := e.reader.mem_block_of_low? e.key (h.lined.keyed e he)
    rw [h.served.block_eq e he start heq] at hm
    have hd := h.rightmost_sub_le start hp ha _ (h.served.mem_terms e he) e.key hm
    rw [h.distance] at hfar
    omega

theorem Running.moved (h : Running T s) (e : Entry) (rest : List Entry) (low high : Int)
    (hq : s.queue = e :: rest) (hfar : (s.distance : Int) < s.rightmost - e.key)
    (hlow : e.reader.advance.low? = some low) (hhigh : e.reader.advance.high? = some high) :
    Running T
      { s with
        queue := Entry.enqueue ⟨low, e.order, e.reader.advance⟩ rest
        rightmost := max s.rightmost high } := by
  have he : e ∈ s.queue := by rw [hq]; exact List.mem_cons_self ..
  have hspent := h.lined.spent_eq_false e he
  have hserved : Entry.Serves T T.terms (e :: rest) := hq ▸ h.served
  have hlined : Entry.Lined s.rightmost (e :: rest) := hq ▸ h.lined
  have hattained : Entry.Attained s.rightmost (e :: rest) := hq ▸ h.attained
  constructor
  case distance => exact h.distance
  case halted => exact h.halted
  case served =>
    exact (hserved.advance e rest low).of_perm _ (Entry.perm_enqueue _ rest).symm
  case lined => exact hlined.tail.enqueue e.order e.reader.advance low high hlow hhigh
  case attained => exact hattained.advance low high hhigh
  case behind =>
    intro start hp ha f hf
    rcases (Entry.mem_enqueue _ f rest).1 hf with rfl | hf
    · have hlt := h.index_lt_start e rest hq hfar start hp ha
      rw [Reader.term_advance, e.reader.index_advance hspent]
      omega
    · exact h.behind start hp ha f (hq ▸ List.mem_cons_of_mem e hf)

theorem Running.kept (h : Running T s) {s' : Search} (hstep : Step s s')
    (hnone : s'.answer = none) : Running T s' := by
  cases hstep with
  | idle => cases hnone
  | found => cases hnone
  | beyond => cases hnone
  | ended => cases hnone
  | moved e rest low high hq hfar hlow hhigh => exact h.moved e rest low high hq hfar hlow hhigh

end Running

/-! ### Ends of a run -/

def entries (s : Search) : List Entry := s.halted.toList ++ s.queue

/-- The end of a search that has found a window: the readers stand on the least blocks that lie in
one, and the rightmost position is the last one of these blocks. -/
structure Landed (T : Task) (s : Search) (start : String → Nat) : Prop where
  served : Entry.Serves T T.terms s.entries
  standing : ∀ e ∈ s.entries, e.reader.index = start e.reader.term
  places : T.Places start
  least : ∀ other, T.Places other → T.Above other → ∀ t ∈ T.terms, start t ≤ other t
  bounded : ∀ t ∈ T.terms, ∀ x ∈ T.block start t, x ≤ s.rightmost
  attained : s.rightmost = -1 ∨ ∃ t ∈ T.terms, s.rightmost ∈ T.block start t
  floor : -1 ≤ s.rightmost
  above : T.Above start

section Landed

variable {T : Task} {s : Search}

theorem Running.block_eq (h : Running T s) (f : Entry) (hf : f ∈ s.queue) :
    f.reader.block = T.block (Entry.starts s.queue) f.reader.term :=
  h.served.block_eq f hf _ (Entry.starts_eq s.queue h.served.nodup_terms f hf)

theorem Running.le_rightmost (h : Running T s) (t : String) (ht : t ∈ T.terms) (x : Int)
    (hx : x ∈ T.block (Entry.starts s.queue) t) : x ≤ s.rightmost := by
  obtain ⟨f, hf, rfl⟩ := h.served.exists_entry t ht
  rw [← h.block_eq f hf] at hx
  obtain ⟨b, hb⟩ := f.reader.exists_high? (h.lined.spent_eq_false f hf)
  exact Int.le_trans (f.reader.le_high?_of_mem_block b x hb hx) (h.lined.bounded f hf b hb)

theorem Running.key_le (h : Running T s) (e : Entry) (rest : List Entry)
    (hq : s.queue = e :: rest) (t : String) (ht : t ∈ T.terms) (x : Int)
    (hx : x ∈ T.block (Entry.starts s.queue) t) : e.key ≤ x := by
  obtain ⟨f, hf, rfl⟩ := h.served.exists_entry t ht
  rw [← h.block_eq f hf] at hx
  have hkey := Entry.key_le_of_ordered e f rest (hq ▸ h.lined.ordered) (hq ▸ hf)
  exact Int.le_trans hkey (f.reader.low?_le_of_mem_block f.key x (h.lined.keyed f hf) hx)

/-- When the first reader is near enough, all blocks lie in one window. -/
theorem Running.places (h : Running T s) (e : Entry) (rest : List Entry)
    (hq : s.queue = e :: rest) (hnear : s.rightmost - e.key ≤ (s.distance : Int)) :
    T.Places (Entry.starts s.queue) := by
  refine ⟨?_, ?_⟩
  · intro t ht
    obtain ⟨f, hf, rfl⟩ := h.served.exists_entry t ht
    have hs := (f.reader.not_spent_iff).1 (h.lined.spent_eq_false f hf)
    rw [h.served.size_eq f hf, h.served.multiplicity f hf,
      Entry.starts_eq s.queue h.served.nodup_terms f hf] at hs
    exact hs
  · intro t ht u hu x hx y hy
    have hxr := h.le_rightmost t ht x hx
    have hyl := h.key_le e rest hq u hu y hy
    rw [h.distance] at hnear
    omega

theorem Running.landed (h : Running T s) (e : Entry) (rest : List Entry)
    (hq : s.queue = e :: rest) (hnear : s.rightmost - e.key ≤ (s.distance : Int)) :
    Landed T { s with queue := rest, halted := some e, answer := some true }
      (Entry.starts s.queue) := by
  have hstand := Entry.starts_eq s.queue h.served.nodup_terms
  have hentries : entries { s with queue := rest, halted := some e, answer := some true } =
      s.queue := hq.symm
  constructor
  case served => rw [hentries]; exact h.served
  case standing => rw [hentries]; exact hstand
  case places => exact h.places e rest hq hnear
  case least =>
    intro other hp ha t ht
    obtain ⟨f, hf, rfl⟩ := h.served.exists_entry t ht
    rw [← hstand f hf]
    exact h.behind other hp ha f hf
  case bounded => exact h.le_rightmost
  case attained =>
    rcases h.attained with hidle | ⟨f, hf, hb⟩
    · exact Or.inl hidle
    · have hm := f.reader.mem_block_of_high? s.rightmost hb
      rw [h.block_eq f hf] at hm
      exact Or.inr ⟨f.reader.term, h.served.mem_terms f hf, hm⟩
  case floor => exact h.lined.floor
  case above =>
    intro t ht x hx
    have hxl := h.key_le e rest hq t ht x hx
    have hfloor := h.lined.floor
    rw [h.distance] at hnear
    omega

end Landed

theorem Running.not_above_of_beyond {T : Task} {s : Search} (h : Running T s) (e : Entry)
    (rest : List Entry) (last : Int) (hq : s.queue = e :: rest)
    (hlast : e.reader.last? = some last) (hout : (s.distance : Int) < s.rightmost - last)
    (start : String → Nat) (hp : T.Places start) : ¬T.Above start := by
  intro ha
  have he : e ∈ s.queue := by rw [hq]; exact List.mem_cons_self ..
  have ht := h.served.mem_terms e he
  have hin := hp.inside e.reader.term ht
  have hpos := T.needed_pos e.reader.term ht
  obtain ⟨x, hx⟩ := (T.sorted e.reader.term).exists_get? (start e.reader.term) (by
    rw [Task.size_sorted]
    omega)
  have hm : x ∈ T.block start e.reader.term :=
    ((T.sorted e.reader.term).mem_block_iff _ _ x).2 ⟨_, Nat.le_refl _, by omega, hx⟩
  have hd := h.rightmost_sub_le start hp ha e.reader.term ht x hm
  rw [← h.served.positions e he] at hx
  have hxl := e.reader.le_last?_of_get? _ x last hlast hx
  rw [h.distance] at hout
  omega

theorem Running.not_above_of_ended {T : Task} {s : Search} (h : Running T s) (e : Entry)
    (rest : List Entry) (hq : s.queue = e :: rest)
    (hfar : (s.distance : Int) < s.rightmost - e.key) (hspent : e.reader.advance.spent = true)
    (start : String → Nat) (hp : T.Places start) : ¬T.Above start := by
  intro ha
  have he : e ∈ s.queue := by rw [hq]; exact List.mem_cons_self ..
  have hlt := h.index_lt_start e rest hq hfar start hp ha
  have hin := hp.inside e.reader.term (h.served.mem_terms e he)
  have hfull : e.reader.advance.spent = false := by
    rw [Reader.not_spent_iff, e.reader.index_advance (h.lined.spent_eq_false e he),
      Reader.multiplicity_advance, Reader.size_advance, h.served.size_eq e he,
      h.served.multiplicity e he]
    omega
  rw [hfull] at hspent
  cases hspent

/-- A run ends on the least blocks in a window, or there are no blocks in a window. -/
theorem Running.settle_cases {T : Task} {s : Search} (h : Running T s) (ha : s.answer = none)
    (hne : T.terms ≠ []) :
    (s.settle.answer = some true ∧ ∃ start, Landed T s.settle start) ∨
      (s.settle.answer = some false ∧ ∀ start, T.Places start → ¬T.Above start) := by
  refine settle_induction (Running T)
    (fun s' => (s'.answer = some true ∧ ∃ start, Landed T s' start) ∨
      (s'.answer = some false ∧ ∀ start, T.Places start → ¬T.Above start)) ?_ ?_ s ha h
  · exact fun s s' hs hstep hnone => hs.kept hstep hnone
  · intro s s' hopen hs hstep hsome
    cases hstep with
    | idle hq =>
      obtain ⟨t, ht⟩ := List.exists_mem_of_ne_nil T.terms hne
      obtain ⟨e, he, -⟩ := hs.served.exists_entry t ht
      rw [hq] at he
      cases he
    | found e rest hq hnear => exact Or.inl ⟨rfl, _, hs.landed e rest hq hnear⟩
    | beyond e rest last hq hfar hlast hout =>
      exact Or.inr ⟨rfl, hs.not_above_of_beyond e rest last hq hlast hout⟩
    | ended e rest hq hfar hspent =>
      exact Or.inr ⟨rfl, hs.not_above_of_ended e rest hq hfar hspent⟩
    | moved => simp [hopen] at hsome

end Search

end TermWindow
