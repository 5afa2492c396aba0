import TermWindow.Proofs.MergedElements

/-!
# Additions that are kept

In the course of any additions a field holds just what was accepted for it. The next addition ends
as if all these values were read at once, with the new ones behind them, and one that is refused
leaves no trace.
-/

namespace TermWindow

theorem run_ofExcept_bind {σ α β : Type} (x : Except Fault α)
    (f : α → ExceptT Fault (StateM σ) β) (s : σ) :
    (ofExcept x >>= f).run s = match x with
      | .ok a => (f a).run s
      | .error fault => (.error fault, s) := by
  cases x <;> rfl

namespace Postings

/-! ### One addition -/

/-- An addition in place that is refused has changed nothing yet. -/
theorem run_record (p : Postings) (field : String) (v : Value) :
    (record field v).run p = match p.add field v with
      | .ok q => (.ok (), q)
      | .error fault => (.error fault, p) := by
  let merge (elements : List Value) : Except Fault Positions :=
    Positions.ofElements ((p.listed field).map Value.whole ++ elements)
  have hrun : (record field v).run p = (ofExcept v.elements >>= fun elements =>
      ofExcept (merge elements) >>= fun merged =>
        modify fun p => ⟨p.byField.insert field merged⟩ : ExceptT Fault (StateM Postings) Unit).run
      p := rfl
  have hadd : p.add field v = v.elements.bind fun elements =>
      (merge elements).bind fun merged => .ok ⟨p.byField.insert field merged⟩ := rfl
  rw [hrun, run_ofExcept_bind, hadd]
  cases v.elements with
  | error fault => rfl
  | ok elements =>
    simp only [run_ofExcept_bind, Except.bind]
    cases merge elements <;> rfl

theorem add_of_elements (p : Postings) (field : String) {v : Value} {elements : List Value}
    (h : v.elements? = some elements) :
    p.add field v =
      (Positions.ofElements ((p.listed field).map Value.whole ++ elements)).map fun merged =>
        ⟨p.byField.insert field merged⟩ := by
  have helements : v.elements = .ok elements := by rw [Value.elements, h]
  rw [add, helements]
  show (Positions.ofElements ((p.listed field).map Value.whole ++ elements)).bind _ = _
  cases Positions.ofElements ((p.listed field).map Value.whole ++ elements) <;> rfl

theorem add_of_no_elements (p : Postings) (field : String) {v : Value}
    (h : v.elements? = none) : p.add field v = .error (.notSequence v) := by
  have helements : v.elements = .error (.notSequence v) := by rw [Value.elements, h]
  rw [add, helements]
  rfl

/-! ### What additions give -/

/-- The values that additions give for a field, one after the other. -/
def valuesGiven (calls : List (String × Value)) (field : String) : List Value :=
  (calls.filter (·.1 = field)).flatMap fun call => call.2.elements?.getD []

theorem valuesGiven_concat (calls : List (String × Value)) (field other : String) (v : Value) :
    valuesGiven (calls ++ [(field, v)]) other =
      valuesGiven calls other ++ if other = field then v.elements?.getD [] else [] := by
  rw [valuesGiven, List.filter_append, List.flatMap_append]
  by_cases h : other = field
  · simp [valuesGiven, h]
  · simp [valuesGiven, h, Ne.symm h]

theorem valuesGiven_of_not_mem {calls : List (String × Value)} {field : String}
    (h : field ∉ calls.map Prod.fst) : valuesGiven calls field = [] := by
  have hnone : calls.filter (·.1 = field) = [] := by
    rw [List.filter_eq_nil_iff]
    intro call hcall hfield
    exact h (List.mem_map.2 ⟨call, hcall, by simpa using hfield⟩)
  rw [valuesGiven, hnone]
  rfl

theorem lt_of_mem_valuesGiven {calls : List (String × Value)}
    (hcalls : ∀ call ∈ calls, Positions.Storable call.2) (field : String) :
    ∀ n, .whole n ∈ valuesGiven calls field → n < 2 ^ 63 := by
  intro n hn
  obtain ⟨call, hcall, hmem⟩ := List.mem_flatMap.1 hn
  cases helements : call.2.elements? with
  | none =>
    rw [helements] at hmem
    cases hmem
  | some elements =>
    rw [helements] at hmem
    exact hcalls call (List.mem_filter.1 hcall).1 elements helements n hmem

/-- A field is there just when something was given for it, and holds the positions of all that was
given. -/
def Holds (p : Postings) (calls : List (String × Value)) : Prop :=
  ∀ field, (p.positions? field = none ↔ field ∉ calls.map Prod.fst) ∧
    ∀ q, p.positions? field = some q → Positions.ofElements (valuesGiven calls field) = .ok q

theorem holds_empty : Holds empty [] := fun field =>
  ⟨iff_of_true rfl List.not_mem_nil, fun q hq => by cases hq⟩

section Holds

variable {p : Postings} {calls : List (String × Value)} (h : p.Holds calls)
  (hcalls : ∀ call ∈ calls, Positions.Storable call.2)

include h hcalls

theorem Holds.ofElements_listed (field : String) (elements : List Value) :
    Positions.ofElements ((p.listed field).map Value.whole ++ elements) =
      Positions.ofElements (valuesGiven calls field ++ elements) := by
  obtain ⟨hnone, hsome⟩ := h field
  rw [listed]
  cases hfield : p.positions? field with
  | none =>
    rw [valuesGiven_of_not_mem (hnone.1 hfield)]
    rfl
  | some q =>
    exact Positions.ofElements_merged (lt_of_mem_valuesGiven hcalls field) (hsome q hfield) elements

theorem Holds.add {field : String} {v : Value} {q : Postings} (hadd : p.add field v = .ok q) :
    q.Holds (calls ++ [(field, v)]) := by
  obtain ⟨elements, merged, helements, hmerged, rfl⟩ := add_eq_ok hadd
  rw [h.ofElements_listed hcalls] at hmerged
  intro other
  rw [positions?_insert, valuesGiven_concat, helements, Option.getD_some, List.map_append,
    List.mem_append]
  by_cases hother : other = field
  · subst hother
    rw [if_pos rfl, if_pos rfl]
    refine ⟨iff_of_false (Option.some_ne_none merged) (by simp), fun found hfound => ?_⟩
    obtain rfl := Option.some.inj hfound
    exact hmerged
  · rw [if_neg hother, if_neg hother, List.append_nil]
    obtain ⟨hnone, hsome⟩ := h other
    refine ⟨hnone.trans (not_congr ?_), hsome⟩
    simp [hother]

/-- An addition ends as the reading of all values at once, with nothing changed when it is
refused. -/
theorem Holds.record_outcome (field : String) (v : Value) :
    ∃ outcome next, (record field v).run p = (outcome, next) ∧
      (v.elements? = none → outcome = .error (.notSequence v)) ∧
      (∀ elements, v.elements? = some elements → outcome.map (fun _ => next.positions? field) =
        (Positions.ofElements (valuesGiven calls field ++ elements)).map some) ∧
      ∀ fault, outcome = .error fault → next = p := by
  rw [run_record]
  cases helements : v.elements? with
  | none =>
    rw [p.add_of_no_elements field helements]
    exact ⟨_, _, rfl, fun _ => rfl, nofun, fun _ _ => rfl⟩
  | some elements =>
    rw [p.add_of_elements field helements, h.ofElements_listed hcalls]
    cases hread : Positions.ofElements (valuesGiven calls field ++ elements) with
    | error fault =>
      refine ⟨_, _, rfl, nofun, fun elements' h => ?_, fun _ _ => rfl⟩
      obtain rfl := Option.some.inj h
      rw [hread]
      rfl
    | ok merged =>
      refine ⟨_, _, rfl, nofun, fun elements' h => ?_, nofun⟩
      obtain rfl := Option.some.inj h
      rw [hread]
      show Except.ok (positions? ⟨p.byField.insert field merged⟩ field) = _
      rw [positions?_insert, if_pos rfl]
      rfl

theorem Holds.exists_numbers (field : String) (q : Positions)
    (hq : p.positions? field = some q) :
    ∃ xs, (valuesGiven calls field).mapM Positions.number? = some xs ∧ q = .ofList xs := by
  obtain ⟨xs, hnumbers, hperm, -⟩ := Positions.ofElements_storable
    (lt_of_mem_valuesGiven hcalls field) ((h field).2 q hq)
  exact ⟨xs, hnumbers, (Positions.ofList_eq_of_perm hperm.symm).symm⟩

end Holds

/-! ### Runs -/

/-- The postings after some additions in place, also refused ones. -/
def recorded (p : Postings) (calls : List (String × Value)) : Postings :=
  calls.foldl (fun p call => ((record call.1 call.2).run p).2) p

/-- The additions among some that are not refused. -/
def taken (p : Postings) : List (String × Value) → List (String × Value)
  | [] => []
  | call :: calls =>
    match (record call.1 call.2).run p with
    | (.ok _, q) => call :: taken q calls
    | (.error _, q) => taken q calls

theorem Holds.recorded {p : Postings} {before : List (String × Value)} (h : p.Holds before)
    (calls : List (String × Value))
    (hcalls : ∀ call ∈ before ++ calls, Positions.Storable call.2) :
    (p.recorded calls).Holds (before ++ p.taken calls) ∧
      ∀ call ∈ before ++ p.taken calls, Positions.Storable call.2 := by
  induction calls generalizing p before with
  | nil => exact ⟨by rw [taken, List.append_nil]; exact h, hcalls⟩
  | cons call calls ih =>
    have hbefore : ∀ given ∈ before, Positions.Storable given.2 :=
      fun given hgiven => hcalls given (List.mem_append_left _ hgiven)
    rw [Postings.recorded, List.foldl_cons, taken, run_record]
    cases hadd : p.add call.1 call.2 with
    | error fault =>
      refine ih h fun given hgiven => hcalls given ?_
      rcases List.mem_append.1 hgiven with hgiven | hgiven
      · exact List.mem_append_left _ hgiven
      · exact List.mem_append_right _ (List.mem_cons_of_mem call hgiven)
    | ok q =>
      have hnext := ih (h.add hbefore hadd) (by simpa using hcalls)
      rw [List.append_assoc] at hnext
      exact hnext

theorem Holds.foldlM_add {p q : Postings} {before : List (String × Value)} (h : p.Holds before)
    (calls : List (String × Value))
    (hcalls : ∀ call ∈ before ++ calls, Positions.Storable call.2)
    (hadd : calls.foldlM (fun p call => p.add call.1 call.2) p = .ok q) :
    q.Holds (before ++ calls) := by
  induction calls generalizing p before with
  | nil =>
    obtain rfl := Except.ok.inj hadd
    rw [List.append_nil]
    exact h
  | cons call calls ih =>
    have hbefore : ∀ given ∈ before, Positions.Storable given.2 :=
      fun given hgiven => hcalls given (List.mem_append_left _ hgiven)
    rw [List.foldlM_cons] at hadd
    obtain ⟨next, hnext, hrest⟩ := exists_of_bind_eq_ok hadd
    have hlast := ih (h.add hbefore hnext) (by simpa using hcalls) hrest
    rw [List.append_assoc] at hlast
    exact hlast

/-! ### Postings made of a table -/

theorem add_fresh {p : Postings} {field : String} (hfresh : p.positions? field = none)
    (v : Value) :
    p.add field v = (Positions.ofValue v).map fun q => ⟨p.byField.insert field q⟩ := by
  have hlisted : p.listed field = [] := by
    rw [listed, hfresh]
    rfl
  cases helements : v.elements? with
  | none =>
    have hread : Positions.ofValue v = .error (.notSequence v) := by
      rw [Positions.ofValue, Value.elements, helements]
      rfl
    rw [p.add_of_no_elements field helements, hread]
    rfl
  | some elements =>
    have hread : Positions.ofValue v = Positions.ofElements elements := by
      rw [Positions.ofValue, Value.elements, helements]
      rfl
    rw [p.add_of_elements field helements, hlisted, hread]
    rfl

/-- Values for different fields that are all new are refused with the first one that is refused. -/
theorem foldlM_add_eq_error_iff (entries : List (String × Value))
    (hnodup : (entries.map Prod.fst).Nodup) (p : Postings)
    (hfresh : ∀ entry ∈ entries, p.positions? entry.1 = none) (fault : Fault) :
    entries.foldlM (fun p entry => p.add entry.1 entry.2) p = .error fault ↔
      ∃ before entry behind, entries = before ++ entry :: behind ∧
        (∀ other ∈ before, ∃ q, Positions.ofValue other.2 = .ok q) ∧
        Positions.ofValue entry.2 = .error fault := by
  induction entries generalizing p with
  | nil => simp [pure, Except.pure]
  | cons first entries ih =>
    obtain ⟨hnew, hnodup'⟩ := List.nodup_cons.1 hnodup
    obtain ⟨hfirst, hrest⟩ := List.forall_mem_cons.1 hfresh
    rw [List.foldlM_cons, add_fresh hfirst]
    cases hread : Positions.ofValue first.2 with
    | error found =>
      show (Except.error found : Except Fault Postings) = .error fault ↔ _
      refine ⟨fun h => ?_, fun h => ?_⟩
      · obtain rfl := Except.error.inj h
        exact ⟨[], first, entries, rfl, by simp, hread⟩
      · obtain ⟨before, entry, behind, heq, hbefore, hrefused⟩ := h
        cases before with
        | nil =>
          obtain ⟨rfl, -⟩ := List.cons.inj heq
          rw [Except.error.inj (hread.symm.trans hrefused)]
        | cons other before =>
          obtain ⟨rfl, -⟩ := List.cons.inj heq
          obtain ⟨q, hq⟩ := hbefore first (List.mem_cons_self ..)
          cases hread.symm.trans hq
    | ok q =>
      have hfresh' : ∀ entry ∈ entries,
          positions? ⟨p.byField.insert first.1 q⟩ entry.1 = none := by
        intro entry hentry
        have hne : entry.1 ≠ first.1 := fun heq => hnew (heq ▸ List.mem_map_of_mem hentry)
        rw [positions?_insert, if_neg hne]
        exact hrest entry hentry
      refine (ih hnodup' _ hfresh').trans ⟨fun h => ?_, fun h => ?_⟩
      · obtain ⟨before, entry, behind, rfl, hbefore, hrefused⟩ := h
        exact ⟨first :: before, entry, behind, rfl, List.forall_mem_cons.2 ⟨⟨q, hread⟩, hbefore⟩,
          hrefused⟩
      · obtain ⟨before, entry, behind, heq, hbefore, hrefused⟩ := h
        cases before with
        | nil =>
          obtain ⟨rfl, -⟩ := List.cons.inj heq
          cases hread.symm.trans hrefused
        | cons other before =>
          obtain ⟨rfl, rfl⟩ := List.cons.inj heq
          exact ⟨before, entry, behind, rfl, (List.forall_mem_cons.1 hbefore).2, hrefused⟩

/-! ### Numbers in any order -/

namespace History

theorem storable_ofInts {xs : List Int} (h : ∀ x ∈ xs, Positions.Plain x) :
    Positions.Storable (Value.ofInts xs) := by
  intro elements helements n hn
  obtain rfl := Option.some.inj helements
  obtain ⟨x, hx, heq⟩ := List.mem_map.1 hn
  obtain rfl := Value.whole.inj heq
  exact (h x hx).2

theorem valuesGiven_calls (h : History) (field : String) :
    valuesGiven (h.calls.map fun call => (call.1, Value.ofInts call.2)) field =
      (h.given field).map Value.whole := by
  rw [valuesGiven, given, givenBy, List.filter_map, List.flatMap_map, List.map_flatMap]
  rfl

theorem holds_of_replay {h : History} (hplain : h.Plain) {p : Postings}
    (hreplay : h.replay = .ok p) :
    p.Holds (h.calls.map fun call => (call.1, Value.ofInts call.2)) := by
  rw [replay_eq_foldlM] at hreplay
  refine holds_empty.foldlM_add _ (fun call hcall => ?_) (by rwa [List.foldlM_map])
  obtain ⟨given, hgiven, rfl⟩ := List.mem_map.1 hcall
  exact storable_ofInts (hplain given hgiven)

/-- A field that is named holds the numbers given for it in order, any other one is not there. -/
theorem positions?_of_replay {h : History} (hplain : h.Plain) {p : Postings}
    (hreplay : h.replay = .ok p) (field : String) :
    p.positions? field =
      if field ∈ h.calls.map Prod.fst then some (Positions.ofList (h.given field)) else none := by
  obtain ⟨hnone, hsome⟩ := holds_of_replay hplain hreplay field
  rw [valuesGiven_calls, Positions.ofElements_plain _ (h.plain_given hplain field)] at hsome
  rw [List.map_map] at hnone
  split
  · rename_i hnamed
    cases hfield : p.positions? field with
    | none => exact absurd hnamed (hnone.1 hfield)
    | some q => rw [Except.ok.inj (hsome q hfield)]
  · rename_i hunnamed
    exact hnone.2 hunnamed

theorem listed_of_replay {h : History} (hplain : h.Plain) {p : Postings}
    (hreplay : h.replay = .ok p) (field : String) :
    p.listed field = (Positions.ofList (h.given field)).toList := by
  rw [listed, positions?_of_replay hplain hreplay]
  split
  · rfl
  · rename_i hunnamed
    have hgiven : (h.given field).map Value.whole = [] := by
      rw [← valuesGiven_calls]
      exact valuesGiven_of_not_mem (by rw [List.map_map]; exact hunnamed)
    rw [List.map_eq_nil_iff.1 hgiven, ← Positions.empty_eq_ofList]
    rfl

end History

/-- Postings are made unless a value for one of the fields is refused. In the course of additions
to them, a field holds the numbers of all values that were accepted for it and is there once
something was; an addition ends as the reading of these values and the new ones at once, and leaves
everything as it was when it is refused. Plain numbers make the same positions in every order and
division into calls. -/
theorem record_ends_as_ofValue :
    (∀ (made : Table Value) (fault : Fault), ofTable made = .error fault ↔
      ∃ before entry behind, made.entries = before ++ entry :: behind ∧
        (∀ other ∈ before, ∃ q, Positions.ofValue other.2 = .ok q) ∧
        Positions.ofValue entry.2 = .error fault) ∧
    (∀ (made : Table Value) (calls : List (String × Value)) (p₀ : Postings),
      (∀ call ∈ made.entries ++ calls, Positions.Storable call.2) → ofTable made = .ok p₀ →
      let kept := made.entries ++ taken p₀ calls
      let p := recorded p₀ calls
      (∀ field, (p.positions? field = none ↔ field ∉ kept.map Prod.fst) ∧
        ∀ q, p.positions? field = some q →
          ∃ xs, (valuesGiven kept field).mapM Positions.number? = some xs ∧ q = .ofList xs) ∧
      ∀ field v,
        ∃ outcome next, (record field v).run p = (outcome, next) ∧
          (v.elements? = none → outcome = .error (.notSequence v)) ∧
          (∀ elements, v.elements? = some elements →
            outcome.map (fun _ => next.positions? field) =
              (Positions.ofValue (.list (valuesGiven kept field ++ elements))).map some) ∧
          ∀ fault, outcome = .error fault → next = p) ∧
    ∀ h h' : History, h.Plain → h'.Plain →
      ∃ p p', h.replay = .ok p ∧ h'.replay = .ok p' ∧
        ∀ field, (h.given field).Perm (h'.given field) →
          p.listed field = p'.listed field ∧
          (p.positions? field = p'.positions? field ↔
            (field ∈ h.calls.map Prod.fst ↔ field ∈ h'.calls.map Prod.fst)) := by
  refine ⟨fun made fault => ?_, fun made calls p₀ hcalls hmade => ?_, fun h h' hplain hplain' => ?_⟩
  · exact foldlM_add_eq_error_iff made.entries made.nodup empty (fun _ _ => rfl) fault
  · have hmade' : ∀ call ∈ made.entries, Positions.Storable call.2 :=
      fun call hcall => hcalls call (List.mem_append_left calls hcall)
    obtain ⟨hholds, hkept⟩ :=
      (holds_empty.foldlM_add made.entries hmade' hmade).recorded calls hcalls
    exact ⟨fun field => ⟨(hholds field).1, hholds.exists_numbers hkept field⟩,
      hholds.record_outcome hkept⟩
  · obtain ⟨p, hreplay, -⟩ := h.replay_records hplain
    obtain ⟨p', hreplay', -⟩ := h'.replay_records hplain'
    refine ⟨p, p', hreplay, hreplay', fun field hperm => ?_⟩
    rw [History.listed_of_replay hplain hreplay, History.listed_of_replay hplain' hreplay',
      History.positions?_of_replay hplain hreplay, History.positions?_of_replay hplain' hreplay',
      Positions.ofList_congr hperm]
    refine ⟨rfl, ?_⟩
    by_cases hnamed : field ∈ h.calls.map Prod.fst
    · by_cases hnamed' : field ∈ h'.calls.map Prod.fst <;> simp [hnamed, hnamed']
    · by_cases hnamed' : field ∈ h'.calls.map Prod.fst <;> simp [hnamed, hnamed']

/-- Additions of which the first two are refused, and then a text that is refused beside numbers;
and the same numbers in two divisions. -/
theorem record_ends_as_ofValue_refusals :
    let made : Table Value := ⟨[("body", .list [])], by decide⟩
    let calls : List (String × Value) := [("body", .list [.whole (-1)]), ("title", .whole 5),
      ("body", .list [.whole 9, .truth true])]
    let h : History := ⟨⟨[("body", [3, 1])], by decide⟩, [("body", [2])]⟩
    let h' : History := ⟨Table.empty, [("body", [2]), ("body", [1, 3])]⟩
    (∃ p₀, ofTable made = .ok p₀ ∧ (p₀.recorded calls).positions? "title" = none ∧
      (record "body" (.list [.text "ab"])).run (p₀.recorded calls) =
        (.error (.notWhole "<U21"), p₀.recorded calls)) ∧
    ∃ p p', h.replay = .ok p ∧ h'.replay = .ok p' ∧ p.positions? "body" = p'.positions? "body" := by
  intro made calls h h'
  obtain ⟨-, hruns, horders⟩ := record_ends_as_ofValue
  refine ⟨?_, ?_⟩
  · have hmade : ofTable made = .ok ⟨Table.empty.insert "body" .empty⟩ := rfl
    have htaken : taken ⟨Table.empty.insert "body" .empty⟩ calls =
        [("body", .list [.whole 9, .truth true])] := rfl
    have hsmall : ∀ call ∈ made.entries ++ calls, Positions.Storable call.2 := by
      intro call hcall elements helements n hn
      simp only [made, calls, List.cons_append, List.nil_append, List.mem_cons, List.not_mem_nil,
        or_false] at hcall
      rcases hcall with rfl | rfl | rfl | rfl
      · obtain rfl := Option.some.inj helements
        simp at hn
      · obtain rfl := Option.some.inj helements
        simp at hn
        omega
      · cases helements
      · obtain rfl := Option.some.inj helements
        simp at hn
        omega
    obtain ⟨hfields, hnext⟩ := hruns made calls _ hsmall hmade
    rw [htaken] at hfields hnext
    obtain ⟨outcome, next, hrun, -, hends, hkept⟩ := hnext "body" (.list [.text "ab"])
    have hread : Positions.ofValue (.list ([.whole 9, .truth true] ++ [.text "ab"])) =
        .error (.notWhole "<U21") := rfl
    have houtcome : outcome.map (fun _ => next.positions? "body") = .error (.notWhole "<U21") := by
      rw [hends _ rfl]
      exact congrArg (Except.map some) hread
    cases outcome with
    | ok _ => cases houtcome
    | error fault =>
      obtain rfl := Except.error.inj houtcome
      obtain rfl := hkept _ rfl
      exact ⟨_, hmade, (hfields "title").1.2 (by decide), hrun⟩
  · have hplain : h.Plain ∧ h'.Plain := by
      unfold History.Plain Positions.Plain
      decide
    obtain ⟨p, p', hp, hp', hfields⟩ := horders h h' hplain.1 hplain.2
    exact ⟨p, p', hp, hp', (hfields "body" (by decide)).2.2 (by decide)⟩

end Postings

end TermWindow
