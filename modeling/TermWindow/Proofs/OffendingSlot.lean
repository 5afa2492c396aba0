import TermWindow.Proofs.GivenPositions
import TermWindow.Proofs.LeastWindow
import TermWindow.Proofs.UnreadSlots

/-!
# The first offending slot

A search is started by its slots one after the other until one of them offends: it is missing, or it
is the first of its term and cannot be read or holds too few positions. Without such a slot the
search holds a reader for each term. With one it is refused or given up, and only the slots in front
have left a trace, in the rightmost position.
-/

namespace TermWindow

theorem eq_take_cons_drop {slots : List (String × Value)} {i : Nat} {slot : String × Value}
    (h : slots[i]? = some slot) : slots = slots.take i ++ slot :: slots.drop (i + 1) := by
  obtain ⟨hlt, rfl⟩ := List.getElem?_eq_some_iff.1 h
  rw [← List.drop_eq_getElem_cons hlt, List.take_append_drop]

theorem lookup_eq_some_iff_first (slots : List (String × Value)) (t : String) (v : Value) :
    slots.lookup t = some v ↔
      ∃ i, slots[i]? = some (t, v) ∧ t ∉ (slots.take i).map Prod.fst := by
  refine ⟨fun h => ?_, fun h => ?_⟩
  · obtain ⟨before, behind, rfl, hbefore⟩ := List.lookup_eq_some_iff.1 h
    refine ⟨before.length, by simp, ?_⟩
    rw [List.take_left, List.mem_map]
    intro hmem
    obtain ⟨slot, hslot, rfl⟩ := hmem
    simpa using hbefore slot hslot
  · obtain ⟨i, hslot, hnew⟩ := h
    rw [eq_take_cons_drop hslot]
    exact Table.lookup_of_new _ _ t v hnew

namespace Search

/-! ### What a slot does -/

/-- The slot in the place `i` keeps a search from running. -/
def Offends (needed : String → Nat) (slots : List (String × Value)) (i : Nat) : Prop :=
  ∃ t v, slots[i]? = some (t, v) ∧
    (v.isMissing = true ∨ t ∉ (slots.take i).map Prod.fst ∧
      ((∃ fault, Positions.ofValue v = .error fault) ∨
        ∃ p, Positions.ofValue v = .ok p ∧ p.size < needed t))

section Offends

variable {needed : String → Nat} {slots : List (String × Value)} {i n : Nat} {t : String}
  {v : Value} {s : Search}

theorem not_offends_iff (hslot : slots[i]? = some (t, v)) :
    ¬Offends needed slots i ↔
      v.isMissing = false ∧ (t ∉ (slots.take i).map Prod.fst →
        ∃ p, Positions.ofValue v = .ok p ∧ needed t ≤ p.size) := by
  refine ⟨fun h => ⟨?_, fun hnew => ?_⟩, fun h hoffends => ?_⟩
  · cases hgiven : v.isMissing with
    | false => rfl
    | true => exact absurd ⟨t, v, hslot, Or.inl hgiven⟩ h
  · cases hv : Positions.ofValue v with
    | error fault => exact absurd ⟨t, v, hslot, Or.inr ⟨hnew, Or.inl ⟨fault, hv⟩⟩⟩ h
    | ok p =>
      refine ⟨p, rfl, Nat.le_of_not_lt fun hfew => ?_⟩
      exact h ⟨t, v, hslot, Or.inr ⟨hnew, Or.inr ⟨p, hv, hfew⟩⟩⟩
  · obtain ⟨t', v', hslot', hcause⟩ := hoffends
    obtain ⟨rfl, rfl⟩ := Prod.mk.inj (Option.some.inj (hslot'.symm.trans hslot))
    obtain ⟨hgiven, hread⟩ := h
    rcases hcause with hmissing | ⟨hnew, hcause⟩
    · rw [hgiven] at hmissing
      cases hmissing
    · obtain ⟨p, hp, henough⟩ := hread hnew
      rcases hcause with ⟨fault, hfault⟩ | ⟨q, hq, hfew⟩
      · cases hp.symm.trans hfault
      · obtain rfl := Except.ok.inj (hp.symm.trans hq)
        omega

/-- An offending slot is refused, or it gives the search up. The slots behind it are not read. -/
theorem fill_of_offends (hpos : 0 < needed t) (h : Offends needed slots i)
    (hslot : slots[i]? = some (t, v))
    (hholds : s.holds t = true ↔ t ∈ (slots.take i).map Prod.fst) :
    ((v.isMissing = true ∨ ∃ p, Positions.ofValue v = .ok p) ∧
      ∀ rest, fill needed s ((t, v) :: rest) = .ok s.abandon) ∨
    (v.isMissing = false ∧ ∃ fault, Positions.ofValue v = .error fault ∧
      ∀ rest, fill needed s ((t, v) :: rest) = .error fault) := by
  obtain ⟨t', v', hslot', h⟩ := h
  obtain ⟨rfl, rfl⟩ := Prod.mk.inj (Option.some.inj (hslot'.symm.trans hslot))
  cases hgiven : v'.isMissing with
  | true => exact Or.inl ⟨Or.inl rfl, fun rest => by simp [fill, hgiven]⟩
  | false =>
    rcases h with hmissing | ⟨hnew, hcause⟩
    · rw [hgiven] at hmissing
      cases hmissing
    · have hfree : s.holds t' = false := Bool.eq_false_iff.2 fun h => hnew (hholds.1 h)
      rcases hcause with ⟨fault, hv⟩ | ⟨p, hv, hfew⟩
      · have hrefused := fun rest => fill_refused needed s t' v' rest hpos hgiven hfree hv
        exact Or.inr ⟨rfl, fault, hv, hrefused⟩
      · rcases fill_new needed s t' v' p hpos hgiven hfree hv with
          ⟨heq, -⟩ | ⟨r, low, high, -, -, -, -, henough, -⟩
        · exact Or.inl ⟨Or.inr ⟨p, hv⟩, heq⟩
        · omega

theorem exists_isLeast_of_offends (h : ∃ i, Offends needed slots i) :
    ∃ i, IsLeast {j | Offends needed slots j} i := by
  classical
  exact ⟨Nat.find h, Nat.find_spec h, fun j hj => Nat.find_min' h hj⟩

theorem passes_of_lookup (hpass : ∀ j < n, ¬Offends needed slots j)
    (h : (slots.take n).lookup t = some v) :
    v.isMissing = false ∧ ∃ p, Positions.ofValue v = .ok p ∧ needed t ≤ p.size := by
  obtain ⟨i, hslot, hnew⟩ := (lookup_eq_some_iff_first ..).1 h
  obtain ⟨hlt, hslot⟩ : i < n ∧ slots[i]? = some (t, v) := by
    rw [List.getElem?_take] at hslot
    split at hslot
    · exact ⟨‹_›, hslot⟩
    · cases hslot
  rw [List.take_take, Nat.min_eq_left (by omega)] at hnew
  obtain ⟨hgiven, hread⟩ := (not_offends_iff hslot).1 (hpass i hlt)
  exact ⟨hgiven, hread hnew⟩

/-! ### The slots in front of an offending one -/

/-- Slots that do not offend leave a search with a reader for each of their terms, which then reads
what comes behind them. -/
theorem fill_take {T : Task} (hterms : ∀ slot ∈ slots, slot.1 ∈ T.terms)
    (hpass : ∀ j < n, ¬Offends T.needed slots j)
    (hread : ∀ t v, (slots.take n).lookup t = some v → Positions.ofValue v = .ok (T.sorted t))
    (hi : i ≤ n) (hlen : i ≤ slots.length) :
    ∃ s, Filled T ((slots.take i).map Prod.fst) s ∧
      ∀ tail, fill T.needed (idle T.distance) (slots.take i ++ tail) = fill T.needed s tail := by
  induction i with
  | zero => exact ⟨idle T.distance, filled_idle T, fun tail => rfl⟩
  | succ i ih =>
    obtain ⟨s, hs, htail⟩ := ih (by omega) (by omega)
    obtain ⟨⟨t, v⟩, hslot⟩ : ∃ slot, slots[i]? = some slot :=
      ⟨slots[i], List.getElem?_eq_getElem (by omega)⟩
    have htake : slots.take (i + 1) = slots.take i ++ [(t, v)] := by
      rw [List.take_add_one, hslot]
      rfl
    obtain ⟨hgiven, hnew⟩ := (not_offends_iff hslot).1 (hpass i (by omega))
    have hstep : ∀ s₁, Filled T ((slots.take i).map Prod.fst ++ [t]) s₁ →
        (∀ tail, fill T.needed s ((t, v) :: tail) = fill T.needed s₁ tail) →
        ∃ s₁, Filled T ((slots.take (i + 1)).map Prod.fst) s₁ ∧ ∀ tail,
          fill T.needed (idle T.distance) (slots.take (i + 1) ++ tail) =
            fill T.needed s₁ tail := by
      intro s₁ hs₁ heq
      rw [htake]
      refine ⟨s₁, by simpa using hs₁, fun tail => ?_⟩
      rw [List.append_assoc, htail]
      exact heq tail
    by_cases hd : t ∈ (slots.take i).map Prod.fst
    · have hholds := (hs.holds_iff t).2 hd
      exact hstep s (hs.skip t hd) fun tail => by simp [fill, hgiven, hholds]
    · have hholds : s.holds t = false := Bool.eq_false_iff.2 fun h => hd ((hs.holds_iff t).1 h)
      obtain ⟨p, hp, henough⟩ := hnew hd
      have hfirst : (slots.take n).lookup t = some v := by
        refine (lookup_eq_some_iff_first ..).2 ⟨i, ?_, ?_⟩
        · rw [List.getElem?_take, if_pos (by omega)]
          exact hslot
        · rw [List.take_take, Nat.min_eq_left (by omega)]
          exact hd
      have hv := hread t v hfirst
      obtain rfl := Except.ok.inj (hp.symm.trans hv)
      have hmem : t ∈ T.terms := hterms (t, v) (List.mem_of_getElem? hslot)
      rcases fill_new T.needed s t v _ (T.needed_pos t hmem) hgiven hholds hv with
        ⟨-, hfew⟩ | ⟨r, low, high, rfl, hm, hpos, hindex, -, hlow, hhigh, heq⟩
      · omega
      · exact hstep _ (hs.enter r low high hd hm hpos hindex hlow hhigh) heq

end Offends

/-! ### What is left of the slots -/

/-- `r` stands at the beginning of the positions in the first slot of its term. -/
def Opens (needed : String → Nat) (slots : List (String × Value)) (r : Reader) : Prop :=
  ∃ v, slots.lookup r.term = some v ∧
    Reader.ofValue r.term (some (needed r.term : Int)) v = .ok r

/-- The greatest position at the end of a block that the slots open, if it lies beyond the one
before all positions. -/
def Reaches (needed : String → Nat) (slots : List (String × Value)) (rightmost : Int) : Prop :=
  IsGreatest {x | x = -1 ∨ ∃ r, Opens needed slots r ∧ r.high? = some x} rightmost

/-- A search that is ready to run. It holds a reader for each term in the order of first occurrence,
and each of them is queued. -/
structure Opened (needed : String → Nat) (slots : List (String × Value)) (s : Search) : Prop where
  halted : s.halted = none
  answer : s.answer = none
  terms : s.readers.map (·.term) = Demand.distinct (slots.map Prod.fst)
  opens : ∀ r, r ∈ s.readers ↔ Opens needed slots r
  full : ∀ r ∈ s.readers, r.spent = false
  queued : (s.queue.map (·.reader)).Perm s.readers
  reaches : Reaches needed slots s.rightmost

/-- A search given up behind some slots. -/
structure Abandoned (needed : String → Nat) (before : List (String × Value)) (s : Search) :
    Prop where
  readers : s.readers = []
  queue : s.queue = []
  found : s.found = false
  reaches : Reaches needed before s.rightmost

section Opened

variable {needed : String → Nat} {slots : List (String × Value)} {s : Search}

theorem Opened.holds_iff (h : Opened needed slots s) (t : String) :
    s.holds t = true ↔ t ∈ slots.map Prod.fst := by
  have hterms : s.holds t = true ↔ t ∈ s.readers.map (·.term) := by
    rw [← (h.queued.map (·.term)).mem_iff]
    simp [holds]
  rw [hterms, h.terms, Demand.mem_distinct]

theorem Opened.abandoned (h : Opened needed slots s) : Abandoned needed slots s.abandon where
  readers := by simp [Search.readers, abandon, h.halted]
  queue := rfl
  found := found_of_no_queue s.abandon h.answer rfl
  reaches := h.reaches

theorem Filled.opened {T : Task} (h : Filled T (slots.map Prod.fst) s)
    (hterms : ∀ slot ∈ slots, slot.1 ∈ T.terms)
    (hread : ∀ t v, slots.lookup t = some v → Positions.ofValue v = .ok (T.sorted t)) :
    Opened T.needed slots s := by
  have hreaders : ∀ r, r ∈ s.readers ↔ ∃ e ∈ s.queue, e.reader = r := by
    intro r
    simp only [readers, h.halted, Option.toList_none, List.nil_append, List.mem_map,
      (List.mergeSort_perm s.queue _).mem_iff]
  have hopened : ∀ e ∈ s.queue, ∀ v, slots.lookup e.reader.term = some v →
      Reader.ofValue e.reader.term (some (T.needed e.reader.term : Int)) v = .ok e.reader := by
    intro e he v hv
    have hmem := h.served.mem_terms e he
    obtain ⟨slot, hslot, hterm⟩ := List.mem_map.1 hmem
    have hpos := T.needed_pos e.reader.term (hterm ▸ hterms slot hslot)
    rw [Reader.ofValue_eq_ok _ _ hpos v _ (hread _ v hv)]
    exact congrArg Except.ok (Reader.eq_of_parts rfl (h.served.multiplicity e he).symm
      (h.served.positions e he).symm (h.fresh e he).symm)
  have hopens : ∀ r, Opens T.needed slots r ↔ ∃ e ∈ s.queue, e.reader = r := by
    intro r
    refine ⟨fun hr => ?_, fun hr => ?_⟩
    · obtain ⟨v, hv, hr⟩ := hr
      have hsome : (slots.lookup r.term).isSome = true := by rw [hv]; rfl
      obtain ⟨e, he, hterm⟩ :=
        h.served.exists_entry r.term ((Table.lookup_isSome_iff r.term slots).1 hsome)
      rw [← hterm] at hv hr
      exact ⟨e, he, Except.ok.inj ((hopened e he v hv).symm.trans hr)⟩
    · obtain ⟨e, he, rfl⟩ := hr
      have hsome := (Table.lookup_isSome_iff e.reader.term slots).2 (h.served.mem_terms e he)
      obtain ⟨v, hv⟩ := Option.isSome_iff_exists.1 hsome
      exact ⟨v, hv, hopened e he v hv⟩
  constructor
  case halted => exact h.halted
  case answer => exact h.answer
  case terms =>
    rw [readers, h.halted, List.map_map]
    exact h.served.map_term_mergeSort
  case opens => exact fun r => (hreaders r).trans (hopens r).symm
  case full =>
    intro r hr
    obtain ⟨e, he, rfl⟩ := (hreaders r).1 hr
    exact h.lined.spent_eq_false e he
  case queued =>
    rw [readers, h.halted]
    exact ((List.mergeSort_perm s.queue _).map _).symm
  case reaches =>
    refine ⟨h.attained.imp_right fun hheld => ?_, fun x hx => ?_⟩
    · obtain ⟨e, he, hhigh⟩ := hheld
      exact ⟨e.reader, (hopens e.reader).2 ⟨e, he, rfl⟩, hhigh⟩
    · rcases hx with rfl | ⟨r, hr, hhigh⟩
      · exact h.lined.floor
      · obtain ⟨e, he, rfl⟩ := (hopens r).1 hr
        exact h.lined.bounded e he x hhigh

end Opened

/-! ### The start -/

section Start

variable (distance : Nat) (shared : Bool) (slots : List (String × Value))

theorem ofValues_slots :
    ofValues (.whole distance) (slots.map Prod.fst) (.list (slots.map Prod.snd)) shared =
      fill (Demand.needed shared (slots.map Prod.fst)) (idle distance) slots := by
  have hzip : (slots.map Prod.fst).zip (slots.map Prod.snd) = slots :=
    (List.zip_of_prod rfl rfl).symm
  show start distance (slots.map Prod.fst) (slots.map Prod.snd) shared = _
  rw [start_eq_fill distance shared (by simp), hzip]

/-- Slots that do not offend set a task for which they fill a search. -/
theorem exists_filled_take {n : Nat} (hn : n ≤ slots.length)
    (hpass : ∀ j < n, ¬Offends (Demand.needed shared (slots.map Prod.fst)) slots j) :
    ∃ (positions : String → Positions) (s : Search),
      let T := Task.ofPositions distance (slots.map Prod.fst) shared positions
      (∀ t v, (slots.take n).lookup t = some v → Positions.ofValue v = .ok (T.sorted t)) ∧
      Filled T ((slots.take n).map Prod.fst) s ∧
      ∀ tail, fill (Demand.needed shared (slots.map Prod.fst)) (idle distance)
        (slots.take n ++ tail) = fill (Demand.needed shared (slots.map Prod.fst)) s tail := by
  obtain ⟨positions, hgives⟩ := Task.exists_gives (slots.take n) fun t v hv _ => by
    obtain ⟨-, p, hp, -⟩ := passes_of_lookup hpass hv
    exact ⟨p, hp⟩
  let T := Task.ofPositions distance (slots.map Prod.fst) shared positions
  have hterms : ∀ slot ∈ slots, slot.1 ∈ T.terms := fun slot hslot => List.mem_map_of_mem hslot
  have hread : ∀ t v, (slots.take n).lookup t = some v →
      Positions.ofValue v = .ok (T.sorted t) := by
    intro t v hv
    rw [Task.sorted_ofPositions]
    exact hgives t v hv (passes_of_lookup hpass hv).1
  obtain ⟨s, hs, htail⟩ := fill_take (T := T) hterms hpass hread (Nat.le_refl n) hn
  exact ⟨positions, s, hread, hs, htail⟩

theorem exists_opened_take {n : Nat} (hn : n ≤ slots.length)
    (hpass : ∀ j < n, ¬Offends (Demand.needed shared (slots.map Prod.fst)) slots j) :
    ∃ s, Opened (Demand.needed shared (slots.map Prod.fst)) (slots.take n) s ∧
      ∀ tail, fill (Demand.needed shared (slots.map Prod.fst)) (idle distance)
        (slots.take n ++ tail) = fill (Demand.needed shared (slots.map Prod.fst)) s tail := by
  obtain ⟨positions, s, hread, hs, htail⟩ := exists_filled_take distance shared slots hn hpass
  refine ⟨s, hs.opened (fun slot hslot => ?_) hread, htail⟩
  exact List.mem_map_of_mem (List.mem_of_mem_take hslot)

theorem alikeAt_take_append {slots others : List (String × Value)} {n : Nat}
    (hn : n ≤ slots.length) (h : ∀ j < n, AlikeAt [] slots others j) (j : Nat) :
    AlikeAt [] (slots.take n ++ others.drop n) others j := by
  have hlen : (slots.take n).length = n := by rw [List.length_take]; omega
  rcases Nat.lt_or_ge j n with hj | hj
  · have hget : (slots.take n ++ others.drop n)[j]? = slots[j]? := by
      rw [List.getElem?_append_left (by omega), List.getElem?_take, if_pos hj]
    have htake : (slots.take n ++ others.drop n).take j = slots.take j := by
      rw [List.take_append_of_le_length (by omega), List.take_take, Nat.min_eq_left (by omega)]
    rw [AlikeAt, hget, htake]
    exact h j hj
  · refine Or.inl ?_
    rw [List.getElem?_append_right (by omega), hlen, List.getElem?_drop, Nat.add_sub_cancel' hj]

theorem fill_alike {others : List (String × Value)}
    (halike : ∀ j, (∀ i < j, ¬Offends (Demand.needed shared (slots.map Prod.fst)) slots i) →
      AlikeAt [] slots others j) :
    fill (Demand.needed shared (slots.map Prod.fst)) (idle distance) others =
      fill (Demand.needed shared (slots.map Prod.fst)) (idle distance) slots := by
  by_cases hpass : ∀ i, ¬Offends (Demand.needed shared (slots.map Prod.fst)) slots i
  · rw [← fill_idle_consulted, consulted_congr slots others [] fun j => halike j fun i _ => hpass i,
      fill_idle_consulted]
  · obtain ⟨i, hoffends, hleast⟩ := exists_isLeast_of_offends (by simpa using hpass)
    obtain ⟨t, v, hslot, -⟩ := id hoffends
    obtain ⟨hlt, -⟩ := List.getElem?_eq_some_iff.1 hslot
    have hbefore : ∀ j < i, ¬Offends (Demand.needed shared (slots.map Prod.fst)) slots j :=
      fun j hj h => Nat.not_lt.2 (hleast h) hj
    -- the slots up to the offending one, with what the others have behind it
    have hmixed : ∀ j, AlikeAt [] (slots.take (i + 1) ++ others.drop (i + 1)) others j :=
      alikeAt_take_append hlt fun j hj => halike j fun k hk => hbefore k (by omega)
    rw [← fill_idle_consulted, consulted_congr _ others [] hmixed, fill_idle_consulted]
    obtain ⟨s, hs, htail⟩ := exists_opened_take distance shared slots (by omega) hbefore
    have hpos : 0 < Demand.needed shared (slots.map Prod.fst) t :=
      Demand.needed_pos shared (List.mem_map_of_mem (List.mem_of_getElem? hslot))
    have hsplit : ∀ rest, slots.take (i + 1) ++ rest = slots.take i ++ (t, v) :: rest := by
      intro rest
      rw [List.take_add_one, hslot]
      simp
    have hslots := htail ((t, v) :: slots.drop (i + 1))
    rw [← eq_take_cons_drop hslot] at hslots
    rw [hsplit, htail, hslots]
    rcases fill_of_offends hpos hoffends hslot (hs.holds_iff t) with ⟨-, heq⟩ | ⟨-, _, -, heq⟩
    · rw [heq, heq]
    · rw [heq, heq]

/-- A search over as many slots as terms holds a reader for each term when no slot offends. The
first slot that does decides: a slot that is refused refuses the search, and a slot that is missing
or too short gives it up behind the slots in front. Slots further on and given slots of known terms
change nothing. -/
theorem start_decided :
    let needed := Demand.needed shared (slots.map Prod.fst)
    let outcome (given : List (String × Value)) :=
      ofValues (.whole distance) (given.map Prod.fst) (.list (given.map Prod.snd)) shared
    ((∀ i, ¬Offends needed slots i) → ∃ s, outcome slots = .ok s ∧ Opened needed slots s) ∧
    (∀ i t v, IsLeast {j | Offends needed slots j} i → slots[i]? = some (t, v) →
      (∀ fault, v.isMissing = false → Positions.ofValue v = .error fault →
        outcome slots = .error fault) ∧
      (v.isMissing = true ∨ (∃ p, Positions.ofValue v = .ok p) →
        ∃ s, outcome slots = .ok s ∧ Abandoned needed (slots.take i) s)) ∧
    ∀ others, others.map Prod.fst = slots.map Prod.fst →
      (∀ j, (∀ i < j, ¬Offends needed slots i) → AlikeAt [] slots others j) →
      outcome others = outcome slots := by
  intro needed outcome
  have houtcome : outcome slots = fill needed (idle distance) slots :=
    ofValues_slots distance shared slots
  refine ⟨fun hpass => ?_, fun i t v hleast hslot => ?_, fun others hterms halike => ?_⟩
  · obtain ⟨s, hs, htail⟩ := exists_opened_take distance shared slots (Nat.le_refl _)
      fun j _ => hpass j
    rw [List.take_length] at hs htail
    have hfill := htail []
    rw [List.append_nil] at hfill
    exact ⟨s, houtcome.trans hfill, hs⟩
  · obtain ⟨hlt, -⟩ := List.getElem?_eq_some_iff.1 hslot
    obtain ⟨s, hs, htail⟩ := exists_opened_take distance shared slots (Nat.le_of_lt hlt)
      fun j hj h => Nat.not_lt.2 (hleast.2 h) hj
    have hpos : 0 < needed t :=
      Demand.needed_pos shared (List.mem_map_of_mem (List.mem_of_getElem? hslot))
    have hfill : outcome slots = fill needed s ((t, v) :: slots.drop (i + 1)) := by
      rw [houtcome, ← htail, ← eq_take_cons_drop hslot]
    rw [hfill]
    rcases fill_of_offends hpos hleast.1 hslot (hs.holds_iff t) with
      ⟨hread, heq⟩ | ⟨hgiven, refused, hrefused, heq⟩
    · rw [heq]
      refine ⟨fun fault hgiven hfault => ?_, fun _ => ⟨s.abandon, rfl, hs.abandoned⟩⟩
      rcases hread with hmissing | ⟨p, hp⟩
      · rw [hgiven] at hmissing
        cases hmissing
      · cases hp.symm.trans hfault
    · rw [heq]
      refine ⟨fun fault _ hfault => ?_, fun h => ?_⟩
      · obtain rfl := Except.error.inj (hrefused.symm.trans hfault)
        rfl
      · rcases h with hmissing | ⟨p, hp⟩
        · rw [hgiven] at hmissing
          cases hmissing
        · cases hp.symm.trans hrefused
  · rw [houtcome]
    show ofValues (.whole distance) (others.map Prod.fst) (.list (others.map Prod.snd)) shared = _
    rw [ofValues_slots, hterms]
    exact fill_alike distance shared slots halike

end Start

/-- The term `c` occurs nowhere, so that the negative number behind it is not met. -/
theorem start_decided_short :
    let slots := [("a", Value.ofInts [9, 5, 6]), ("b", .ofInts [7, 1]), ("a", .ofInts []),
      ("c", .ofInts []), ("d", .ofInts [-1])]
    let others := [Value.ofInts [9, 5, 6], .ofInts [7, 1], .truth true, .ofInts [], .missing]
    ∃ s,
      ofValues (.whole 4) (slots.map Prod.fst) (.list (slots.map Prod.snd)) false = .ok s ∧
      ofValues (.whole 4) (slots.map Prod.fst) (.list others) false = .ok s ∧
      s.readers = [] ∧ s.found = false := by
  intro slots others
  let needed := Demand.needed false (slots.map Prod.fst)
  have hoffends : Offends needed slots 3 :=
    ⟨"c", .ofInts [], rfl, Or.inr ⟨by decide, Or.inr ⟨Positions.empty, rfl, by decide⟩⟩⟩
  have hbefore : ∀ j < 3, ¬Offends needed slots j := by
    intro j hj
    match j, hj with
    | 0, _ =>
      have henough : needed "a" ≤ (Positions.ofList [9, 5, 6]).size := by
        rw [Positions.size_ofList]
        decide
      exact (not_offends_iff rfl).2 ⟨rfl, fun _ => ⟨_, rfl, henough⟩⟩
    | 1, _ =>
      have henough : needed "b" ≤ (Positions.ofList [7, 1]).size := by
        rw [Positions.size_ofList]
        decide
      exact (not_offends_iff rfl).2 ⟨rfl, fun _ => ⟨_, rfl, henough⟩⟩
    | 2, _ => exact (not_offends_iff rfl).2 ⟨rfl, fun hnew => absurd (by decide) hnew⟩
  obtain ⟨-, hfirst, hunread⟩ := start_decided 4 false slots
  obtain ⟨s, hs, habandoned⟩ := (hfirst 3 "c" (.ofInts [])
    ⟨hoffends, fun j h => Nat.le_of_not_lt fun hj => hbefore j hj h⟩ rfl).2
      (Or.inr ⟨Positions.empty, rfl⟩)
  have halike : ∀ j, (∀ i < j, ¬Offends needed slots i) →
      AlikeAt [] slots ((slots.map Prod.fst).zip others) j := by
    intro j hpass
    match j with
    | 0 => exact Or.inl rfl
    | 1 => exact Or.inl rfl
    | 2 => exact Or.inr ⟨"a", .ofInts [], .truth true, rfl, rfl, rfl, rfl, by decide⟩
    | 3 => exact Or.inl rfl
    | j + 4 => exact absurd hoffends (hpass 3 (by omega))
  exact ⟨s, hs, (hunread ((slots.map Prod.fst).zip others) rfl halike).trans hs,
    habandoned.readers, habandoned.found⟩

end Search

end TermWindow
