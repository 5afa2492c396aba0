import TermWindow.Postings
import TermWindow.Proofs.Slots

/-!
# Histories of documents

Postings are made from positions by field and may grow afterwards. Whatever the order of the calls,
a field ends with all positions that were given for it and no others, and no call is refused.
-/

namespace TermWindow

namespace Postings

/-- What is done to the postings of a term: the positions that they are made from, by field, and
those that are added later, call by call. -/
structure History where
  made : Table (List Int)
  added : List (String × List Int)

/-- The postings hold the given positions of every field, in whatever order these were given. -/
def Records (p : Postings) (given : String → List Int) : Prop :=
  ∀ field, (p.listed field).Perm (given field)

theorem records_empty : Records empty fun _ => [] := fun _ => List.Perm.refl _

/-! ### One call -/

theorem add_ofInts (p : Postings) (field : String) (xs : List Int)
    (hplain : ∀ x ∈ p.listed field ++ xs, Positions.Plain x) :
    p.add field (Value.ofInts xs) =
      .ok ⟨p.byField.insert field (Positions.ofList (p.listed field ++ xs))⟩ := by
  have helements : (Value.ofInts xs).elements = .ok (xs.map Value.whole) := rfl
  simp only [add, helements]
  show (Positions.ofElements (_ ++ _)).bind _ = _
  rw [← List.map_append, Positions.ofElements_plain _ hplain]
  rfl

theorem Records.add {p : Postings} {given : String → List Int} (h : Records p given)
    (hplain : ∀ f, ∀ x ∈ given f, Positions.Plain x) (field : String) (xs : List Int)
    (hxs : ∀ x ∈ xs, Positions.Plain x) :
    ∃ q, p.add field (Value.ofInts xs) = .ok q ∧
      Records q fun f => if f = field then given f ++ xs else given f := by
  have hall : ∀ x ∈ p.listed field ++ xs, Positions.Plain x := by
    intro x hx
    rcases List.mem_append.1 hx with hx | hx
    · exact hplain field x ((h field).subset hx)
    · exact hxs x hx
  refine ⟨_, add_ofInts p field xs hall, fun f => ?_⟩
  show (listed _ f).Perm (if f = field then given f ++ xs else given f)
  rw [listed_insert]
  by_cases hf : f = field
  · subst hf
    rw [if_pos rfl, if_pos rfl]
    exact (Positions.perm_toList_ofList _).trans ((h f).append_right xs)
  · rw [if_neg hf, if_neg hf]
    exact h f

/-! ### All calls -/

def givenBy (calls : List (String × List Int)) (field : String) : List Int :=
  (calls.filter (·.1 = field)).flatMap (·.2)

theorem Records.foldlM_add {p : Postings} {given : String → List Int} (h : Records p given)
    (hplain : ∀ f, ∀ x ∈ given f, Positions.Plain x) (calls : List (String × List Int))
    (hcalls : ∀ call ∈ calls, ∀ x ∈ call.2, Positions.Plain x) :
    ∃ q, calls.foldlM (fun p call => p.add call.1 (Value.ofInts call.2)) p = .ok q ∧
      Records q fun f => given f ++ givenBy calls f := by
  induction calls generalizing p given with
  | nil => exact ⟨p, rfl, by simpa [givenBy] using h⟩
  | cons call rest ih =>
    have hc := List.forall_mem_cons.1 hcalls
    obtain ⟨q, hq, hr⟩ := h.add hplain call.1 call.2 hc.1
    have hgiven : ∀ f, ∀ x ∈ (if f = call.1 then given f ++ call.2 else given f),
        Positions.Plain x := by
      intro f x hx
      split at hx
      · rcases List.mem_append.1 hx with hx | hx
        · exact hplain f x hx
        · exact hc.1 x hx
      · exact hplain f x hx
    obtain ⟨last, hlast, hrecords⟩ := ih hr hgiven hc.2
    refine ⟨last, ?_, fun f => ?_⟩
    · rw [List.foldlM_cons, hq]
      exact hlast
    · have hf := hrecords f
      by_cases heq : f = call.1
      · simpa [givenBy, heq] using hf
      · have hne : ¬call.1 = f := fun e => heq e.symm
        simpa [givenBy, heq, hne] using hf

namespace History

def calls (h : History) : List (String × List Int) := h.made.entries ++ h.added

def given (h : History) (field : String) : List Int := givenBy h.calls field

def Plain (h : History) : Prop := ∀ call ∈ h.calls, ∀ x ∈ call.2, Positions.Plain x

def replay (h : History) : Except Fault Postings := do
  let made ← Postings.ofTable (h.made.map Value.ofInts)
  h.added.foldlM (fun p call => p.add call.1 (Value.ofInts call.2)) made

theorem replay_eq_foldlM (h : History) :
    h.replay = h.calls.foldlM (fun p call => p.add call.1 (Value.ofInts call.2)) empty := by
  rw [calls, List.foldlM_append]
  show (Postings.ofTable (h.made.map Value.ofInts)).bind _ = _
  rw [ofTable, Table.map, List.foldlM_map]
  rfl

theorem plain_given (h : History) (hplain : h.Plain) (field : String) :
    ∀ x ∈ h.given field, Positions.Plain x := by
  intro x hx
  obtain ⟨call, hc, hxc⟩ := List.mem_flatMap.1 hx
  exact hplain call (List.mem_filter.1 hc).1 x hxc

/-- Calls with numbers that 63 bits hold all succeed, and nothing that they give is lost. -/
theorem replay_records (h : History) (hplain : h.Plain) :
    ∃ p, h.replay = .ok p ∧ p.Records h.given := by
  rw [replay_eq_foldlM]
  exact records_empty.foldlM_add (by simp) h.calls hplain

end History

end Postings

namespace Document

def replay (histories : Table Postings.History) : Except Fault Document := do
  return Table.ofList (← histories.entries.mapM fun entry => do
    return (entry.1, ← entry.2.replay))

def given (histories : Table Postings.History) (term field : String) : List Int :=
  ((histories.get? term).map (·.given field)).getD []

/-- The positions of a term in a field, none where the field or the term is missing. -/
def positions (document : Document) (term field : String) : List Int :=
  ((document.get? term).getD Postings.empty).listed field

theorem mapM_replay (entries : List (String × Postings.History))
    (hplain : ∀ entry ∈ entries, entry.2.Plain) :
    ∃ pairs : List (String × Postings),
      (entries.mapM fun entry => do return (entry.1, ← entry.2.replay)) = .ok pairs ∧
      pairs.map Prod.fst = entries.map Prod.fst ∧
      ∀ term field,
        (((pairs.lookup term).getD Postings.empty).listed field).Perm
          (((entries.lookup term).map (·.given field)).getD []) := by
  induction entries with
  | nil => exact ⟨[], rfl, rfl, fun _ _ => List.Perm.refl _⟩
  | cons entry rest ih =>
    have hp := List.forall_mem_cons.1 hplain
    obtain ⟨p, hreplay, hrecords⟩ := entry.2.replay_records hp.1
    obtain ⟨pairs, hmap, hfst, hlookup⟩ := ih hp.2
    refine ⟨(entry.1, p) :: pairs, ?_, ?_, fun term field => ?_⟩
    · rw [List.mapM_cons, hreplay, hmap]
      rfl
    · rw [List.map_cons, List.map_cons, hfst]
    · obtain ⟨name, h⟩ := entry
      rw [List.lookup_cons, List.lookup_cons]
      cases term == name with
      | true => exact hrecords field
      | false => exact hlookup term field

theorem replay_positions (histories : Table Postings.History)
    (hplain : ∀ h ∈ histories.values, h.Plain) :
    ∃ document, replay histories = .ok document ∧
      ∀ term field, (positions document term field).Perm (given histories term field) := by
  have hentries : ∀ entry ∈ histories.entries, entry.2.Plain :=
    fun entry he => hplain entry.2 (List.mem_map_of_mem he)
  obtain ⟨pairs, hmap, hfst, hlookup⟩ := mapM_replay histories.entries hentries
  have hnodup : (pairs.map Prod.fst).Nodup := by rw [hfst]; exact histories.nodup
  refine ⟨Table.ofList pairs, ?_, fun term field => ?_⟩
  · rw [replay, hmap]
    rfl
  · rw [positions, Table.get?, Table.entries_ofList pairs hnodup]
    exact hlookup term field

theorem plain_given (histories : Table Postings.History)
    (hplain : ∀ h ∈ histories.values, h.Plain) (term field : String) :
    ∀ x ∈ given histories term field, Positions.Plain x := by
  unfold given Table.get?
  cases hl : histories.entries.lookup term with
  | none => simp
  | some h =>
    obtain ⟨l₁, l₂, heq, -⟩ := List.lookup_eq_some_iff.1 hl
    have hm : h ∈ histories.values := by
      rw [Table.values, heq]
      simp
    exact h.plain_given (hplain h hm) field

end Document

end TermWindow
