import TermWindow.Proofs.SearchStart

/-!
# The early end of a search

A search ends early when the last position of its first reader is out of reach. Without this end it
would go on until a block comes near enough or a reader is spent. It would take more steps and come
to the same answer: the reader that is out of reach stays in the queue, the rightmost position never
moves to the left, and so the first block never comes near enough.
-/

namespace TermWindow

theorem Reader.last?_advance (r : Reader) : r.advance.last? = r.last? := by
  rw [last?, last?, positions_advance]

namespace Search

/-! ### The search without the early end -/

/-- The search after the first reader is looked at, whatever its last position. -/
def fullStep (s : Search) : Search :=
  match s.queue with
  | [] => { s with answer := some false }
  | e :: rest =>
    if s.rightmost - e.key ≤ s.distance then
      { s with queue := rest, halted := some e, answer := some true }
    else s.move e rest

theorem answer_fullStep_or_work_lt (s : Search) :
    s.fullStep.answer.isSome = true ∨ s.fullStep.work < s.work := by
  unfold fullStep
  split
  · exact .inl rfl
  · rename_i e rest hq
    split
    · exact .inl rfl
    · rw [work, work, hq]
      exact answer_move_or_work_lt s e rest

/-- The search taken to its answer without the early end. -/
def settleFully (s : Search) : Search :=
  if s.answer.isSome then s
  else
    let next := s.fullStep
    if _h : next.answer.isSome then next else settleFully next
termination_by s.work
decreasing_by exact (answer_fullStep_or_work_lt s).resolve_left _h

def foundFully (s : Search) : Bool := s.settleFully.answer = some true

/-! ### Readers out of reach -/

theorem outOfReach_iff (distance : Nat) (rightmost : Int) (r : Reader) :
    outOfReach distance rightmost r = true ↔
      ∃ last, r.last? = some last ∧ (distance : Int) < rightmost - last := by
  unfold outOfReach
  cases r.last? with
  | none => simp
  | some last => simp

theorem outOfReach_advance {distance : Nat} {rightmost further : Int} {r : Reader}
    (h : outOfReach distance rightmost r = true) (hle : rightmost ≤ further) :
    outOfReach distance further r.advance = true := by
  obtain ⟨last, hlast, hout⟩ := (outOfReach_iff ..).1 h
  refine (outOfReach_iff ..).2 ⟨last, ?_, by omega⟩
  rw [Reader.last?_advance]
  exact hlast

theorem outOfReach_mono {distance : Nat} {rightmost further : Int} {r : Reader}
    (h : outOfReach distance rightmost r = true) (hle : rightmost ≤ further) :
    outOfReach distance further r = true := by
  obtain ⟨last, hlast, hout⟩ := (outOfReach_iff ..).1 h
  exact (outOfReach_iff ..).2 ⟨last, hlast, by omega⟩

def Lost (s : Search) : Prop := ∃ e ∈ s.queue, outOfReach s.distance s.rightmost e.reader = true

theorem fullStep_eq_step_or_lost (s : Search) :
    s.fullStep = s.step ∨ (s.Lost ∧ s.step.answer = some false) := by
  cases hq : s.queue with
  | nil => exact Or.inl (by simp only [fullStep, step, hq])
  | cons e rest =>
    simp only [fullStep, step, hq]
    split
    · exact Or.inl rfl
    · split
      · rename_i hout
        exact Or.inr ⟨⟨e, by rw [hq]; exact List.mem_cons_self .., hout⟩, rfl⟩
      · exact Or.inl rfl

theorem Step.lined {s s' : Search} (hstep : Step s s') (h : Entry.Lined s.rightmost s.queue) :
    Entry.Lined s'.rightmost s'.queue := by
  cases hstep with
  | idle => exact h
  | found e rest hq => exact (hq ▸ h : Entry.Lined s.rightmost (e :: rest)).tail
  | beyond e rest last hq => exact (hq ▸ h : Entry.Lined s.rightmost (e :: rest)).tail
  | ended e rest hq => exact (hq ▸ h : Entry.Lined s.rightmost (e :: rest)).tail
  | moved e rest low high hq hfar hlow hhigh =>
    exact (hq ▸ h : Entry.Lined s.rightmost (e :: rest)).tail.enqueue e.order _ low high hlow hhigh

section Lost

variable {s : Search}

/-- No block comes near enough while a reader is out of reach. -/
theorem Lost.far (hlost : s.Lost) (h : Entry.Lined s.rightmost s.queue) (e : Entry)
    (rest : List Entry) (hq : s.queue = e :: rest) : (s.distance : Int) < s.rightmost - e.key := by
  obtain ⟨f, hf, hout⟩ := hlost
  obtain ⟨last, hlast, hbeyond⟩ := (outOfReach_iff ..).1 hout
  have hfront := Entry.key_le_of_ordered e f rest (hq ▸ h.ordered) (hq ▸ hf)
  have hget := ((f.reader.low?_eq_some_iff f.key).1 (h.keyed f hf)).2
  have hle := f.reader.le_last?_of_get? _ f.key last hlast hget
  omega

theorem Lost.moved (hlost : s.Lost) (e : Entry) (rest : List Entry) (low high : Int)
    (hq : s.queue = e :: rest) :
    Lost { s with
      queue := Entry.enqueue ⟨low, e.order, e.reader.advance⟩ rest
      rightmost := max s.rightmost high } := by
  obtain ⟨f, hf, hout⟩ := hlost
  have hle : s.rightmost ≤ max s.rightmost high := Int.le_max_left ..
  rw [hq] at hf
  rcases List.mem_cons.1 hf with rfl | hf
  · exact ⟨_, (Entry.mem_enqueue _ _ rest).2 (Or.inl rfl), outOfReach_advance hout hle⟩
  · exact ⟨f, (Entry.mem_enqueue _ f rest).2 (Or.inr hf), outOfReach_mono hout hle⟩

/-- A step with a reader out of reach finds nothing. It answers no, or the reader stays out of
reach. -/
theorem Lost.fullStep (hlost : s.Lost) (h : Entry.Lined s.rightmost s.queue) :
    s.fullStep.answer = some false ∨ (s.fullStep.answer = s.answer ∧ s.fullStep.Lost ∧
      Entry.Lined s.fullStep.rightmost s.fullStep.queue) := by
  cases hq : s.queue with
  | nil =>
    obtain ⟨e, he, -⟩ := hlost
    rw [hq] at he
    cases he
  | cons e rest =>
    have hfar := hlost.far h e rest hq
    have hmove : s.fullStep = s.move e rest := by
      rw [Search.fullStep, hq]
      exact if_neg (by omega)
    have hstep := step_move s e rest hq hfar
    have hlined := hstep.lined h
    rw [hmove]
    generalize s.move e rest = s' at hstep hlined ⊢
    cases hstep with
    | idle => exact Or.inl rfl
    | found e' rest' hq' hnear =>
      obtain ⟨rfl, rfl⟩ := List.cons.inj (hq.symm.trans hq')
      omega
    | beyond => exact Or.inl rfl
    | ended => exact Or.inl rfl
    | moved e' rest' low high hq' =>
      exact Or.inr ⟨rfl, hlost.moved e' rest' low high hq', hlined⟩

theorem Lost.answer_settleFully (hlost : s.Lost) (h : Entry.Lined s.rightmost s.queue)
    (ha : s.answer = none) : s.settleFully.answer = some false := by
  fun_induction settleFully s with
  | case1 s hs => simp [ha] at hs
  | case2 s hs next hn =>
    rcases hlost.fullStep h with hno | ⟨hsame, -⟩
    · exact hno
    · rw [show next.answer = s.answer from hsame, ha] at hn
      cases hn
  | case3 s hs next hn ih =>
    rcases hlost.fullStep h with hno | ⟨hsame, hlost', hlined⟩
    · rw [show next.answer = some false from hno] at hn
      exact absurd rfl hn
    · exact ih hlost' hlined (hsame.trans ha)

end Lost

/-! ### The same answer -/

theorem answer_settleFully (s : Search) (h : Entry.Lined s.rightmost s.queue) :
    s.settleFully.answer = s.settle.answer := by
  fun_induction settle s with
  | case1 s hs => rw [settleFully, if_pos hs]
  | case2 s hs next hn =>
    rcases fullStep_eq_step_or_lost s with heq | ⟨hlost, hno⟩
    · have hn' : s.fullStep.answer.isSome = true := by rw [heq]; exact hn
      rw [settleFully, if_neg hs, dif_pos hn', heq]
    · -- only here do the two part, and the full run comes to the same answer later
      rw [hlost.answer_settleFully h (by simpa using hs)]
      exact hno.symm
  | case3 s hs next hn ih =>
    rcases fullStep_eq_step_or_lost s with heq | ⟨-, hno⟩
    · have hn' : ¬s.fullStep.answer.isSome = true := by rw [heq]; exact hn
      rw [settleFully, if_neg hs, dif_neg hn', heq]
      exact ih ((step_spec s).lined h)
    · rw [show next.answer = some false from hno] at hn
      exact absurd rfl hn

theorem lined_of_start {distance : Nat} {terms : List String} {slots : List Value} {shared : Bool}
    {s : Search} (hs : start distance terms slots shared = .ok s) :
    Entry.Lined s.rightmost s.queue := by
  have hempty : ∀ rightmost : Int, -1 ≤ rightmost → Entry.Lined rightmost [] :=
    fun _ hfloor => ⟨by simp, List.Pairwise.nil, hfloor, by simp⟩
  refine start_induction (fun s => Entry.Lined s.rightmost s.queue) ?_ ?_ hs
    (hempty (-1) (Int.le_refl _))
  · intro s h
    exact hempty s.rightmost h.floor
  · intro s r low high h hlow hhigh
    exact h.enqueue _ r low high hlow hhigh

/-- A search gives the same answer without its early end, whatever it is started with. -/
theorem foundFully_eq_found (distance : Value) (terms : List String) (slots : Value)
    (shared : Bool) (s : Search) (hs : ofValues distance terms slots shared = .ok s) :
    s.foundFully = s.found := by
  obtain ⟨d, -, hd⟩ := exists_of_bind_eq_ok hs
  obtain ⟨vs, -, hstart⟩ := exists_of_bind_eq_ok hd
  rw [foundFully, found, answer_settleFully s (lined_of_start hstart)]

/-- The first step ends the search, where the full one moves on from 1 to 2. -/
theorem foundFully_eq_found_beyond :
    ∃ s, ofValues (.whole 1) ["a", "b"] (.list [.ofInts [1, 2], .ofInts [10]]) false = .ok s ∧
      s.found = false ∧ s.foundFully = false := by
  let T := Task.ofSlots 1 ["a", "b"] [some [1, 2], some [10]] false
  obtain ⟨s, hs, hfound⟩ := found_start_iff T _ rfl
    (Task.reads_ofSlots 1 ["a", "b"] [some [1, 2], some [10]] false (by simp [Positions.Plain]))
  have hno : s.found = false := by
    rw [Bool.eq_false_iff, ne_eq, hfound]
    intro hwindow
    obtain ⟨-, -, start, hplaces, -⟩ := hwindow
    have hfits := T.fits_block start hplaces
    have hnonempty : ∀ t ∈ T.terms, ∃ x, x ∈ T.block start t := fun t ht =>
      List.exists_mem_of_length_pos (by rw [hfits.enough t ht]; exact T.needed_pos t ht)
    obtain ⟨x, hx⟩ := hnonempty "a" (by decide)
    obtain ⟨y, hy⟩ := hnonempty "b" (by decide)
    have hclose : y - x ≤ 1 := hfits.close "b" (by decide) "a" (by decide) y hy x hx
    have hx' : x ∈ [1, 2] := T.mem_occurrences_of_mem_block start "a" x hx
    have hy' : y ∈ [10] := T.mem_occurrences_of_mem_block start "b" y hy
    simp only [List.mem_cons, List.not_mem_nil, or_false] at hx' hy'
    omega
  have hsame := foundFully_eq_found (.whole 1) ["a", "b"] (.list [.ofInts [1, 2], .ofInts [10]])
    false s hs
  exact ⟨s, hs, hno, hsame.trans hno⟩

end Search

end TermWindow
