import TermWindow.Proofs.DifferentPositions
import TermWindow.Proofs.StoredNumbers

/-!
# Shifted and mirrored positions

Only the differences between positions matter to a search. Shifted positions take it through the
same steps, each state shifted like its positions; the position below all others, from which a
search starts, is left behind with the first reader. Mirrored positions are read from the other end,
in steps that have nothing to do with the former ones, and the answer follows from the task.
-/

namespace TermWindow

/-! ### Shifted readers -/

namespace Positions

def shift (p : Positions) (k : Int) : Positions where
  toArray := p.toArray.map (· + k)
  ascending := by
    rw [Array.toList_map, List.pairwise_map]
    exact p.ascending.imp fun h => Int.add_le_add_right h k

variable (p : Positions) (k : Int)

theorem toList_shift : (p.shift k).toList = p.toList.map (· + k) := by
  simp [toList, shift]

@[simp] theorem size_shift : (p.shift k).size = p.size := by
  simp [size, shift]

@[simp] theorem get?_shift (i : Nat) : (p.shift k).get? i = (p.get? i).map (· + k) := by
  simp [get?, shift]

@[simp] theorem last?_shift : (p.shift k).last? = p.last?.map (· + k) := by
  rw [last?_eq_toList, last?_eq_toList, toList_shift, List.getLast?_map]

theorem ofList_shift (xs : List Int) : ofList (xs.map (· + k)) = (ofList xs).shift k := by
  have hperm : (xs.map (· + k)).Perm ((ofList xs).shift k).toList := by
    rw [toList_shift]
    exact (perm_toList_ofList xs).symm.map _
  exact ofList_eq_of_perm hperm

end Positions

namespace Reader

def shift (r : Reader) (k : Int) : Reader := { r with positions := r.positions.shift k }

variable (r : Reader) (k : Int)

@[simp] theorem spent_shift : (r.shift k).spent = r.spent := by
  have hsize : (r.shift k).size = r.size := r.positions.size_shift k
  rw [spent, hsize]
  rfl

@[simp] theorem low?_shift : (r.shift k).low? = r.low?.map (· + k) := by
  simp only [low?, spent_shift]
  split
  · rfl
  · exact r.positions.get?_shift k _

@[simp] theorem high?_shift : (r.shift k).high? = r.high?.map (· + k) := by
  simp only [high?, spent_shift]
  split
  · rfl
  · exact r.positions.get?_shift k _

@[simp] theorem last?_shift : (r.shift k).last? = r.last?.map (· + k) :=
  r.positions.last?_shift k

@[simp] theorem advance_shift : (r.shift k).advance = r.advance.shift k := by
  simp only [advance, spent_shift]
  split <;> rfl

end Reader

namespace Entry

def shift (e : Entry) (k : Int) : Entry :=
  { e with key := e.key + k, reader := e.reader.shift k }

theorem before_shift (a b : Entry) (k : Int) : (a.shift k).before (b.shift k) = a.before b := by
  rw [Bool.eq_iff_iff]
  simp only [before, Bool.or_eq_true, Bool.and_eq_true, decide_eq_true_eq]
  simp only [shift]
  omega

theorem enqueue_shift (e : Entry) (queue : List Entry) (k : Int) :
    enqueue (e.shift k) (queue.map (·.shift k)) = (enqueue e queue).map (·.shift k) := by
  induction queue with
  | nil => rfl
  | cons f rest ih =>
    rw [List.map_cons, enqueue, enqueue, before_shift, ih]
    split <;> rfl

end Entry

/-! ### Shifted searches -/

namespace Search

def shift (s : Search) (k : Int) : Search :=
  { s with
    rightmost := s.rightmost + k
    queue := s.queue.map (·.shift k)
    halted := s.halted.map (·.shift k) }

section Steps

variable (s : Search) (k : Int)

theorem outOfReach_shift (distance : Nat) (rightmost : Int) (r : Reader) :
    outOfReach distance (rightmost + k) (r.shift k) = outOfReach distance rightmost r := by
  simp only [outOfReach, Reader.last?_shift]
  cases r.last? with
  | none => rfl
  | some last =>
    rw [Option.map_some, Bool.eq_iff_iff, decide_eq_true_eq, decide_eq_true_eq]
    omega

theorem move_shift (e : Entry) (rest : List Entry) :
    (s.shift k).move (e.shift k) (rest.map (·.shift k)) = (s.move e rest).shift k := by
  have hadvance : (e.shift k).reader.advance = e.reader.advance.shift k := e.reader.advance_shift k
  simp only [move, hadvance, Reader.low?_shift, Reader.high?_shift]
  cases e.reader.advance.low? with
  | none => rfl
  | some low =>
    cases e.reader.advance.high? with
    | none => rfl
    | some high =>
      have hqueue := Entry.enqueue_shift ⟨low, e.order, e.reader.advance⟩ rest k
      have hmax : max (s.rightmost + k) (high + k) = max s.rightmost high + k := by omega
      simp only [shift, Option.map_some, ← hqueue, ← hmax]
      rfl

theorem step_shift : (s.shift k).step = s.step.shift k := by
  cases hq : s.queue with
  | nil => simp [step, shift, hq]
  | cons e rest =>
    have hq' : (s.shift k).queue = e.shift k :: rest.map (·.shift k) := by simp [shift, hq]
    have hnear : (s.shift k).rightmost - (e.shift k).key = s.rightmost - e.key :=
      Int.add_sub_add_right ..
    have hout : outOfReach (s.shift k).distance (s.shift k).rightmost (e.shift k).reader =
        outOfReach s.distance s.rightmost e.reader := outOfReach_shift k ..
    simp only [step, hq, hq', hnear, hout, move_shift, apply_ite (shift · k)]
    rfl

theorem settle_shift : (s.shift k).settle = s.settle.shift k := by
  fun_induction settle s with
  | case1 s hs => exact settle_of_answer (s.shift k) hs
  | case2 s hs next hn =>
    rw [settle_step (s.shift k) hs, step_shift]
    exact settle_of_answer (s.step.shift k) hn
  | case3 s hs next hn ih =>
    rw [settle_step (s.shift k) hs, step_shift]
    exact ih

theorem found_shift : (s.shift k).found = s.found := by
  rw [found, settle_shift]
  rfl

theorem readers_shift : (s.shift k).readers = s.readers.map (·.shift k) := by
  have hmap := List.map_mergeSort (f := fun e : Entry => e.shift k)
    (r := fun a b => decide (a.order ≤ b.order)) (s := fun a b => decide (a.order ≤ b.order))
    (l := s.halted.toList ++ s.queue) fun _ _ _ _ => rfl
  have hentries : (s.shift k).halted.toList ++ (s.shift k).queue =
      (s.halted.toList ++ s.queue).map (·.shift k) := by
    cases hhalted : s.halted <;> simp [shift, hhalted]
  rw [readers, readers, hentries, ← hmap, List.map_map, List.map_map]
  rfl

end Steps

/-! ### Shifted slots -/

theorem holds_shift (s : Search) (k : Int) (t : String) : (s.shift k).holds t = s.holds t := by
  simp only [holds, shift, List.any_map]
  rfl

theorem enter_shift (s : Search) (k : Int) (r : Reader) (low high : Int) :
    (s.shift k).enter (r.shift k) (low + k) (high + k) = (s.enter r low high).shift k := by
  have hqueue := Entry.enqueue_shift ⟨low, s.queue.length, r⟩ s.queue k
  have hmax : max (s.rightmost + k) (high + k) = max s.rightmost high + k := by omega
  have hlength : (s.shift k).queue.length = s.queue.length := List.length_map ..
  simp only [enter, hlength]
  simp only [shift, ← hqueue, ← hmax]
  rfl

/-- The first reader leaves nothing of the rightmost position that a search starts with. -/
theorem enter_idle_shift (distance : Nat) (k : Int) (r : Reader) (low high : Int)
    (hhigh : 0 ≤ high) (hshifted : 0 ≤ high + k) :
    (idle distance).enter (r.shift k) (low + k) (high + k) =
      ((idle distance).enter r low high).shift k := by
  have hmax : max (-1) (high + k) = max (-1) high + k := by omega
  simp only [enter, idle, shift, hmax]
  rfl

section Slots

variable {needed : String → Nat} {k : Int}

theorem ofValue_shift {t : String} {count : Nat} (hc : 0 < count) {xs : List Int}
    (hplain : ∀ x ∈ xs, Positions.Plain x) (hshifted : ∀ x ∈ xs, Positions.Plain (x + k)) :
    ∃ r, Reader.ofValue t (some (count : Int)) (.ofInts xs) = .ok r ∧
      Reader.ofValue t (some (count : Int)) (.ofInts (xs.map (· + k))) = .ok (r.shift k) ∧
      ∀ high, r.high? = some high → 0 ≤ high ∧ 0 ≤ high + k := by
  have hread := Positions.ofValue_ofInts xs hplain
  have hread' := Positions.ofValue_ofInts (xs.map (· + k)) (List.forall_mem_map.2 hshifted)
  rw [Positions.ofList_shift] at hread'
  refine ⟨_, Reader.ofValue_eq_ok t count hc _ _ hread, Reader.ofValue_eq_ok t count hc _ _ hread',
    fun high hhigh => ?_⟩
  have hget := ((Reader.high?_eq_some_iff _ high).1 hhigh).2
  rw [Positions.get?_eq_toList] at hget
  have hmem := (Positions.perm_toList_ofList xs).mem_iff.1 (List.mem_of_getElem? hget)
  exact ⟨(hplain high hmem).1, (hshifted high hmem).1⟩

/-- A new slot and the shifted one are taken alike, whatever the searches that take them. -/
theorem fill_new_shift {t : String} (ht : 0 < needed t) {xs : List Int}
    (hplain : ∀ x ∈ xs, Positions.Plain x) (hshifted : ∀ x ∈ xs, Positions.Plain (x + k))
    (s s' : Search) (hnew : s.holds t = false) (hnew' : s'.holds t = false) :
    (∀ rest rest', fill needed s ((t, .ofInts xs) :: rest) = .ok s.abandon ∧
      fill needed s' ((t, .ofInts (xs.map (· + k))) :: rest') = .ok s'.abandon) ∨
    ∃ r low high, 0 ≤ high ∧ 0 ≤ high + k ∧ ∀ rest rest',
      fill needed s ((t, .ofInts xs) :: rest) = fill needed (s.enter r low high) rest ∧
      fill needed s' ((t, .ofInts (xs.map (· + k))) :: rest') =
        fill needed (s'.enter (r.shift k) (low + k) (high + k)) rest' := by
  obtain ⟨r, hr, hr', hnonneg⟩ := ofValue_shift (t := t) ht hplain hshifted
  rcases fill_reader needed s t _ r rfl hnew hr with
    ⟨hspent, heq⟩ | ⟨hfull, low, high, hlow, hhigh, heq⟩
  · rcases fill_reader needed s' t _ _ rfl hnew' hr' with ⟨-, heq'⟩ | ⟨hfull', -⟩
    · exact Or.inl fun rest rest' => ⟨heq rest, heq' rest'⟩
    · rw [Reader.spent_shift, hspent] at hfull'
      cases hfull'
  · rcases fill_reader needed s' t _ _ rfl hnew' hr' with
      ⟨hspent', -⟩ | ⟨-, low', high', hlow', hhigh', heq'⟩
    · rw [Reader.spent_shift, hfull] at hspent'
      cases hspent'
    · rw [Reader.low?_shift, hlow] at hlow'
      rw [Reader.high?_shift, hhigh] at hhigh'
      obtain rfl := Option.some.inj hlow'
      obtain rfl := Option.some.inj hhigh'
      obtain ⟨h0, hk⟩ := hnonneg high hhigh
      exact Or.inr ⟨r, low, high, h0, hk, fun rest rest' => ⟨heq rest, heq' rest'⟩⟩

theorem fill_shift (terms : List String) (lists : List (List Int)) (s : Search)
    (hpos : ∀ t ∈ terms, 0 < needed t) (hplain : ∀ xs ∈ lists, ∀ x ∈ xs, Positions.Plain x)
    (hshifted : ∀ xs ∈ lists, ∀ x ∈ xs, Positions.Plain (x + k)) :
    ∃ s', fill needed s (terms.zip (lists.map Value.ofInts)) = .ok s' ∧
      fill needed (s.shift k) (terms.zip ((lists.map (List.map (· + k))).map Value.ofInts)) =
        .ok (s'.shift k) := by
  induction terms generalizing lists s with
  | nil => exact ⟨s, rfl, rfl⟩
  | cons t terms ih =>
    cases lists with
    | nil => exact ⟨s, rfl, rfl⟩
    | cons xs lists =>
      have ht := List.forall_mem_cons.1 hpos
      have hxs := List.forall_mem_cons.1 hplain
      have hxs' := List.forall_mem_cons.1 hshifted
      have hgiven : ∀ ys, (Value.ofInts ys).isMissing = false := fun _ => rfl
      simp only [List.map_cons, List.zip_cons_cons]
      -- a term that is held is held by the shifted search, and both pass over its slot
      cases hholds : s.holds t with
      | true =>
        obtain ⟨s', hs, hs'⟩ := ih lists s ht.2 hxs.2 hxs'.2
        refine ⟨s', ?_, ?_⟩
        · simpa [fill, hgiven, hholds] using hs
        · simpa [fill, hgiven, holds_shift, hholds] using hs'
      | false =>
        rcases fill_new_shift ht.1 hxs.1 hxs'.1 s (s.shift k) hholds
          ((holds_shift s k t).trans hholds) with hgiveup | ⟨r, low, high, -, -, henter⟩
        · exact ⟨s.abandon, hgiveup _ _⟩
        · obtain ⟨s', hs, hs'⟩ := ih lists (s.enter r low high) ht.2 hxs.2 hxs'.2
          obtain ⟨heq, heq'⟩ := henter (terms.zip (lists.map Value.ofInts))
            (terms.zip ((lists.map (List.map (· + k))).map Value.ofInts))
          rw [enter_shift] at heq'
          exact ⟨s', heq.trans hs, heq'.trans hs'⟩

/-- Over shifted slots a search starts shifted, unless the very first slot gives it up. -/
theorem start_shift (distance : Nat) (terms : List String) (lists : List (List Int))
    (shared : Bool) (hne : terms ≠ []) (hlen : lists.length = terms.length)
    (hplain : ∀ xs ∈ lists, ∀ x ∈ xs, Positions.Plain x)
    (hshifted : ∀ xs ∈ lists, ∀ x ∈ xs, Positions.Plain (x + k)) :
    ∃ s s', start distance terms (lists.map Value.ofInts) shared = .ok s ∧
      start distance terms ((lists.map (List.map (· + k))).map Value.ofInts) shared = .ok s' ∧
      (s' = s.shift k ∨ (s = idle distance ∧ s' = idle distance)) := by
  rw [start_eq_fill distance shared (by rw [List.length_map, hlen]),
    start_eq_fill distance shared (by rw [List.length_map, List.length_map, hlen])]
  obtain ⟨t, terms, rfl⟩ := List.exists_cons_of_ne_nil hne
  obtain ⟨xs, lists, rfl⟩ := List.exists_cons_of_length_eq_add_one hlen
  have hpos : ∀ u ∈ t :: terms, 0 < Demand.needed shared (t :: terms) u :=
    fun u hu => Demand.needed_pos shared hu
  have ht := List.forall_mem_cons.1 hpos
  have hxs := List.forall_mem_cons.1 hplain
  have hxs' := List.forall_mem_cons.1 hshifted
  simp only [List.map_cons, List.zip_cons_cons]
  -- the first slot is always new; behind it the two searches are shifted against each other
  rcases fill_new_shift ht.1 hxs.1 hxs'.1 (idle distance) (idle distance) rfl rfl with
    hgiveup | ⟨r, low, high, h0, hk, henter⟩
  · obtain ⟨heq, heq'⟩ := hgiveup _ _
    exact ⟨_, _, heq, heq', Or.inr ⟨rfl, rfl⟩⟩
  · obtain ⟨s, hs, hs'⟩ := fill_shift terms lists ((idle distance).enter r low high) ht.2 hxs.2
      hxs'.2
    obtain ⟨heq, heq'⟩ := henter (terms.zip (lists.map Value.ofInts))
      (terms.zip ((lists.map (List.map (· + k))).map Value.ofInts))
    rw [enter_idle_shift distance k r low high h0 hk] at heq'
    exact ⟨s, s.shift k, heq.trans hs, heq'.trans hs', Or.inl rfl⟩

end Slots

end Search

/-! ### Mirrored tasks -/

namespace Task

def mirror (T : Task) (M : Int) : Task :=
  { T with occurrences := fun t => (T.occurrences t).map (M - ·) }

variable {T : Task} {pick : String → List Int} (M : Int)

theorem mirror_mirror : (T.mirror M).mirror M = T := by
  have hmap : ∀ xs : List Int, (xs.map (M - ·)).map (M - ·) = xs := by
    intro xs
    rw [List.map_map]
    exact (List.map_congr_left fun x _ => Int.sub_sub_self M x).trans (List.map_id xs)
  simp only [mirror, hmap]

theorem Fits.mirror (h : T.Fits pick) : (T.mirror M).Fits fun t => (pick t).map (M - ·) where
  taken t ht := by
    obtain ⟨picked, hperm, hsub⟩ := h.taken t ht
    exact ⟨picked.map (M - ·), hperm.map _, hsub.map _⟩
  enough t ht := (List.length_map _).trans (h.enough t ht)
  close t ht u hu x hx y hy := by
    obtain ⟨a, ha, rfl⟩ := List.mem_map.1 hx
    obtain ⟨b, hb, rfl⟩ := List.mem_map.1 hy
    have hclose := h.close u hu t ht b hb a ha
    show M - a - (M - b) ≤ (T.distance : Int)
    omega

theorem exists_fits_mirror_iff : (∃ pick, (T.mirror M).Fits pick) ↔ ∃ pick, T.Fits pick := by
  refine ⟨fun h => ?_, fun h => ?_⟩
  · obtain ⟨pick, h⟩ := h
    have hback := h.mirror M
    rw [mirror_mirror] at hback
    exact ⟨_, hback⟩
  · obtain ⟨pick, h⟩ := h
    exact ⟨_, h.mirror M⟩

end Task

namespace Search

section Lists

variable (distance : Nat) (terms : List String) (lists : List (List Int)) (shared : Bool)

theorem map_slot_some : (lists.map some).map Value.slot = lists.map Value.ofInts := by
  rw [List.map_map]
  rfl

/-- A search over given numbers has readers when each term occurs often enough. -/
theorem queue_lists (hne : terms ≠ []) (hlen : lists.length = terms.length)
    (hplain : ∀ xs ∈ lists, ∀ x ∈ xs, Positions.Plain x) {s : Search}
    (hs : start distance terms (lists.map Value.ofInts) shared = .ok s) :
    let T := Task.ofSlots distance terms (lists.map some) shared
    s.queue ≠ [] ↔ ∀ t ∈ terms, T.needed t ≤ (T.occurrences t).length := by
  intro T
  rw [← map_slot_some] at hs
  have hlen' : ((lists.map some).map Value.slot).length = terms.length := by
    rw [List.length_map, List.length_map, hlen]
  obtain ⟨s₁, hs₁, hread⟩ := start_cases T _ hlen'
    (Task.reads_ofSlots distance terms (lists.map some) shared (by simpa using hplain))
  obtain rfl := Except.ok.inj (hs₁.symm.trans hs)
  rcases hread with ⟨hfilled, -⟩ | hup
  · refine iff_of_true ?_ fun t ht => ?_
    · obtain ⟨t, ht⟩ := List.exists_mem_of_ne_nil terms hne
      obtain ⟨e, he, -⟩ := hfilled.served.exists_entry t ht
      exact List.ne_nil_of_mem he
    · obtain ⟨e, he, rfl⟩ := hfilled.served.exists_entry t ht
      have hfull := e.reader.not_spent_iff.1 (hfilled.lined.spent_eq_false e he)
      rw [hfilled.fresh e he, hfilled.served.multiplicity e he,
        hfilled.served.size_eq e he] at hfull
      omega
  · refine iff_of_false (fun h => h hup.queue) fun henough => ?_
    rcases hup.cause with ⟨v, hv, hmissing⟩ | ⟨t, ht, hshort⟩
    · rw [map_slot_some] at hv
      obtain ⟨xs, -, rfl⟩ := List.mem_map.1 hv
      cases hmissing
    · exact Nat.not_lt.2 (henough t ht) hshort

theorem found_lists (hlen : lists.length = terms.length)
    (hplain : ∀ xs ∈ lists, ∀ x ∈ xs, Positions.Plain x) :
    ∃ s, start distance terms (lists.map Value.ofInts) shared = .ok s ∧
      (s.found = true ↔ terms ≠ [] ∧
        ∃ pick, (Task.ofSlots distance terms (lists.map some) shared).Fits pick) := by
  obtain ⟨s, b, hs, -, hb, hiff⟩ := answers_ofSlots distance terms (lists.map some) shared
    (by rw [List.length_map, hlen]) (by simpa using hplain)
  rw [map_slot_some] at hs
  refine ⟨s, hs, ?_⟩
  rw [hb, hiff]
  simp

theorem found_mirror (hlen : lists.length = terms.length)
    (hplain : ∀ xs ∈ lists, ∀ x ∈ xs, Positions.Plain x) (M : Int)
    (hmirrored : ∀ xs ∈ lists, ∀ x ∈ xs, Positions.Plain (M - x)) :
    ∃ s s', start distance terms (lists.map Value.ofInts) shared = .ok s ∧
      start distance terms ((lists.map (List.map (M - ·))).map Value.ofInts) shared = .ok s' ∧
      s'.found = s.found := by
  obtain ⟨s, hs, hfound⟩ := found_lists distance terms lists shared hlen hplain
  obtain ⟨s', hs', hfound'⟩ := found_lists distance terms (lists.map (List.map (M - ·))) shared
    (by rw [List.length_map, hlen])
    (List.forall_mem_map.2 fun xs hxs => List.forall_mem_map.2 (hmirrored xs hxs))
  have hslots : (lists.map (List.map (M - ·))).map some =
      (lists.map some).map (Option.map (List.map (M - ·))) := by
    simp [List.map_map, Function.comp_def]
  have htask : Task.ofSlots distance terms ((lists.map (List.map (M - ·))).map some) shared =
      (Task.ofSlots distance terms (lists.map some) shared).mirror M := by
    rw [hslots]
    exact Task.ofSlots_map (List.map (M - ·)) rfl ..
  rw [htask, Task.exists_fits_mirror_iff, ← hfound] at hfound'
  exact ⟨s, s', hs, hs', Bool.eq_iff_iff.2 hfound'⟩

/-- A search over given numbers answers the same when all of them are shifted or mirrored. Shifted
numbers leave each reader at the same index. They shift the rightmost position before and after the
run, unless the search was given up, as it is just when a term occurs too seldom. -/
theorem found_shifted_or_mirrored (hne : terms ≠ []) (hlen : lists.length = terms.length)
    (hplain : ∀ xs ∈ lists, ∀ x ∈ xs, Positions.Plain x) :
    let search (given : List (List Int)) :=
      ofValues (.whole distance) terms (.list (given.map Value.ofInts)) shared
    let standing (s : Search) := s.readers.map fun r => (r.term, r.index)
    let T := Task.ofSlots distance terms (lists.map some) shared
    ∃ s, search lists = .ok s ∧
      (s.queue ≠ [] ↔ ∀ t ∈ terms, T.needed t ≤ (T.occurrences t).length) ∧
      (∀ k : Int, (∀ xs ∈ lists, ∀ x ∈ xs, Positions.Plain (x + k)) →
        ∃ s', search (lists.map (List.map (· + k))) = .ok s' ∧ s'.found = s.found ∧
          standing s'.settle = standing s.settle ∧
          (s.queue ≠ [] → s'.rightmost = s.rightmost + k ∧
            s'.settle.rightmost = s.settle.rightmost + k)) ∧
      ∀ M : Int, M < 2 ^ 63 → (∀ xs ∈ lists, ∀ x ∈ xs, x ≤ M) →
        ∃ s', search (lists.map (List.map (M - ·))) = .ok s' ∧ s'.found = s.found := by
  intro search standing T
  obtain ⟨s, hs, -⟩ := found_lists distance terms lists shared hlen hplain
  have hqueue := queue_lists distance terms lists shared hne hlen hplain hs
  refine ⟨s, hs, hqueue, fun k hshifted => ?_, fun M hM hle => ?_⟩
  · obtain ⟨s₁, s', hs₁, hs', hcases⟩ := start_shift distance terms lists shared hne hlen hplain
      hshifted
    obtain rfl := Except.ok.inj (hs₁.symm.trans hs)
    refine ⟨s', hs', ?_⟩
    rcases hcases with rfl | ⟨rfl, rfl⟩
    · refine ⟨found_shift s₁ k, ?_, fun _ => ⟨rfl, by rw [settle_shift]; rfl⟩⟩
      show standing (s₁.shift k).settle = standing s₁.settle
      simp only [standing, settle_shift, readers_shift, List.map_map]
      rfl
    · exact ⟨rfl, rfl, fun hqueue => absurd rfl hqueue⟩
  · have hmirrored : ∀ xs ∈ lists, ∀ x ∈ xs, Positions.Plain (M - x) := by
      intro xs hxs x hx
      have hx0 := (hplain xs hxs x hx).1
      have hxM := hle xs hxs x hx
      exact ⟨by omega, by omega⟩
    obtain ⟨s₁, s', hs₁, hs', hfound⟩ := found_mirror distance terms lists shared hlen hplain M
      hmirrored
    obtain rfl := Except.ok.inj (hs₁.symm.trans hs)
    exact ⟨s', hs', hfound⟩

end Lists

/-- The least position is shifted to 0. -/
theorem found_shifted_or_mirrored_repeated :
    let search (given : List (List Int)) :=
      ofValues (.whole 2) ["a", "b", "a"] (.list (given.map Value.ofInts)) false
    ∃ s shifted mirrored, search [[9, 5, 6], [1, 7, 7], []] = .ok s ∧
      search [[8, 4, 5], [0, 6, 6], []] = .ok shifted ∧
      search [[0, 4, 3], [8, 2, 2], []] = .ok mirrored ∧
      s.found = true ∧ shifted.found = true ∧ mirrored.found = true ∧
      shifted.settle.rightmost = s.settle.rightmost - 1 := by
  intro search
  obtain ⟨s, hs, hqueue, hshift, hmirror⟩ := found_shifted_or_mirrored 2 ["a", "b", "a"]
    [[9, 5, 6], [1, 7, 7], []] false (by decide) rfl (by simp [Positions.Plain])
  obtain ⟨shifted, hs', hfound', -, hrightmost⟩ := hshift (-1) (by simp [Positions.Plain])
  obtain ⟨mirrored, hs'', hfound''⟩ := hmirror 9 (by decide) (by simp)
  obtain ⟨s₁, hs₁, hiff⟩ := found_lists 2 ["a", "b", "a"] [[9, 5, 6], [1, 7, 7], []] false rfl
    (by simp [Positions.Plain])
  obtain rfl := Except.ok.inj (hs₁.symm.trans hs)
  have hfits : (Task.ofSlots 2 ["a", "b", "a"] [some [9, 5, 6], some [1, 7, 7], some []] false).Fits
      fun t => if t = "a" then [5, 6] else [7] := ⟨by decide, by decide, by decide⟩
  have hfound : s₁.found = true := hiff.2 ⟨by decide, _, hfits⟩
  exact ⟨s₁, shifted, mirrored, hs, hs', hs'', hfound, hfound'.trans hfound, hfound''.trans hfound,
    (hrightmost (hqueue.2 (by decide))).2⟩

end Search

end TermWindow
