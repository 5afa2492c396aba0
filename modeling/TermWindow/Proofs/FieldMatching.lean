import TermWindow.Proofs.Histories
import TermWindow.Proofs.SearchStart
import TermWindow.Query

/-!
# Matching field by field

On a document of given positions a matcher always answers. It says yes just when there is one field
in which occurrences of all terms fit; occurrences in different fields are never put together.
-/

namespace TermWindow

namespace Task

theorem firstSlot_map (terms : List String) (slot : String → Option (List Int)) (t : String)
    (ht : t ∈ terms) : firstSlot terms (terms.map slot) t = (slot t).getD [] := by
  have hlookup : (terms.zip (terms.map slot)).lookup t = some (slot t) := by
    induction terms with
    | nil => cases ht
    | cons u terms ih =>
      rw [List.map_cons, List.zip_cons_cons, List.lookup_cons]
      by_cases hu : t = u
      · subst hu
        simp
      · have hne : (t == u) = false := beq_eq_false_iff_ne.2 hu
        rw [hne]
        exact ih ((List.mem_cons.1 ht).resolve_left hu)
  rw [firstSlot, hlookup]
  rfl

end Task

namespace Matcher

/-! ### One field -/

def task (m : Matcher) (occurrences : String → List Int) : Task :=
  ⟨m.distance, m.terms, m.shared, occurrences⟩

/-- The positions of a term in a field, where it has a slot. -/
def positionsIn (m : Matcher) (field term : String) : Option (List Int) :=
  ((m.document.get? term).bind (·.positions? field)).map (·.toList)

theorem getD_positionsIn (m : Matcher) (field term : String) :
    (m.positionsIn field term).getD [] = m.document.positions term field := by
  rw [positionsIn, Document.positions]
  cases m.document.get? term with
  | none => rfl
  | some p =>
    show ((p.positions? field).map (·.toList)).getD [] = p.listed field
    rw [Postings.listed]
    cases p.positions? field <;> rfl

theorem fieldSlots_eq (m : Matcher) (field : String) :
    (m.fieldSlots field).map slotOf = (m.terms.map (m.positionsIn field)).map Value.slot := by
  rw [fieldSlots, List.map_map, List.map_map]
  apply List.map_congr_left
  intro term _
  simp only [Function.comp_apply, positionsIn]
  cases (m.document.get? term).bind (·.positions? field) <;> rfl

theorem firstSlot_positionsIn (m : Matcher) (field t : String) (ht : t ∈ m.terms) :
    Task.firstSlot m.terms (m.terms.map (m.positionsIn field)) t =
      m.document.positions t field := by
  rw [Task.firstSlot_map m.terms _ t ht, getD_positionsIn]

theorem plain_positionsIn (m : Matcher) (field : String)
    (hplain : ∀ term, ∀ x ∈ m.document.positions term field, Positions.Plain x) :
    ∀ xs, some xs ∈ m.terms.map (m.positionsIn field) → ∀ x ∈ xs, Positions.Plain x := by
  intro xs hxs x hx
  obtain ⟨t, -, ht⟩ := List.mem_map.1 hxs
  have hall := m.getD_positionsIn field t
  rw [ht] at hall
  exact hplain t x (hall ▸ hx)

theorem evaluateSlots_field_eq (m : Matcher) (field : String) (s : Search)
    (hs : Search.start m.distance m.terms ((m.terms.map (m.positionsIn field)).map Value.slot)
      m.shared = .ok s) :
    m.evaluateSlots ((m.fieldSlots field).map slotOf) = .ok s.found := by
  rw [fieldSlots_eq, evaluateSlots]
  show (Search.start m.distance m.terms _ m.shared).bind _ = _
  rw [hs]
  rfl

/-- A field in which occurrences of all terms fit has a slot for every term. -/
theorem isMissing_of_fits (m : Matcher) (field : String) (pick : String → List Int)
    (hfits : (m.task fun term => m.document.positions term field).Fits pick) :
    ∀ v ∈ (m.terms.map (m.positionsIn field)).map Value.slot, v.isMissing = false := by
  intro v hv
  rw [List.map_map] at hv
  obtain ⟨t, ht, rfl⟩ := List.mem_map.1 hv
  have hne : m.document.positions t field ≠ [] := Task.occurrences_ne_nil_of_fits _ pick hfits t ht
  rw [← getD_positionsIn] at hne
  rw [Function.comp_apply, Value.isMissing_slot]
  cases hslot : m.positionsIn field t with
  | none => simp [hslot] at hne
  | some xs => rfl

/-- One field is looked at on its own, and the search in it always answers. -/
theorem evaluateSlots_field (m : Matcher) (field : String) (hterms : m.terms ≠ [])
    (hplain : ∀ term, ∀ x ∈ m.document.positions term field, Positions.Plain x) :
    ∃ b, m.evaluateSlots ((m.fieldSlots field).map slotOf) = .ok b ∧
      (b = true ↔ ∃ pick, (m.task fun term => m.document.positions term field).Fits pick) := by
  let slots := m.terms.map (m.positionsIn field)
  let T := Task.ofSlots m.distance m.terms slots m.shared
  have hplain' := m.plain_positionsIn field hplain
  have hlen : (slots.map Value.slot).length = m.terms.length := by simp [slots]
  have hsame : ∀ pick, T.Fits pick ↔
      (m.task fun term => m.document.positions term field).Fits pick := fun pick =>
    Task.fits_congr _ _ _ _ _ pick fun t ht =>
      List.Perm.of_eq (m.firstSlot_positionsIn field t ht)
  obtain ⟨s, hs, hfound⟩ := Search.found_start_iff T (slots.map Value.slot) hlen
    (Task.reads_ofSlots m.distance m.terms slots m.shared hplain')
  refine ⟨s.found, m.evaluateSlots_field_eq field s hs, ?_⟩
  rw [hfound, T.exists_places_above_iff fun t _ x hx =>
    (Task.plain_firstSlot m.terms slots hplain' t x hx).1]
  refine ⟨fun h => ?_, fun h => ?_⟩
  · obtain ⟨-, -, pick, hfits⟩ := h
    exact ⟨pick, (hsame pick).1 hfits⟩
  · obtain ⟨pick, hfits⟩ := h
    exact ⟨hterms, m.isMissing_of_fits field pick hfits, pick, (hsame pick).2 hfits⟩

/-! ### All fields -/

theorem matchesAny_iff (m : Matcher) (matched : String → Prop)
    (h : ∀ field, ∃ b, m.evaluateSlots ((m.fieldSlots field).map slotOf) = .ok b ∧
      (b = true ↔ matched field)) (fields : List String) :
    ∃ b, m.matchesAny fields = .ok b ∧ (b = true ↔ ∃ field ∈ fields, matched field) := by
  induction fields with
  | nil => exact ⟨false, rfl, by simp⟩
  | cons field rest ih =>
    obtain ⟨b, hb, hm⟩ := h field
    cases b with
    | true =>
      refine ⟨true, ?_, iff_of_true rfl ⟨field, List.mem_cons_self .., hm.1 rfl⟩⟩
      rw [matchesAny, hb]
      rfl
    | false =>
      obtain ⟨c, hc, hrest⟩ := ih
      have hnot : ¬matched field := fun hf => Bool.false_ne_true (hm.2 hf)
      refine ⟨c, ?_, ?_⟩
      · rw [matchesAny, hb]
        exact hc
      · rw [hrest]
        simp [hnot]

theorem mem_fieldSet (fields : List String) (field : String) :
    field ∈ fieldSet fields ↔ field ∈ fields := by
  rw [fieldSet, List.mem_mergeSort, Demand.mem_distinct]

theorem fieldSet_eq_nil_iff (fields : List String) : fieldSet fields = [] ↔ fields = [] := by
  simp only [List.eq_nil_iff_forall_not_mem, mem_fieldSet]

theorem make_eq_ok (fields : List String) (distance : Nat) (document : Document)
    (terms : List String) (shared : Bool) (hterms : terms ≠ []) :
    make fields (.whole distance) document terms shared =
      .ok ⟨fieldSet fields, distance, document, terms, shared⟩ := by
  have hne : terms.isEmpty = false := by simpa using hterms
  simp only [make, Distance.ofValue_natCast, hne]
  rfl

/-- A matcher for a document of given positions answers, by the fields one at a time. -/
theorem evaluateFields_given (histories : Table Postings.History)
    (hplain : ∀ h ∈ histories.values, h.Plain) (document : Document)
    (hdocument : ∀ term field,
      (document.positions term field).Perm (Document.given histories term field))
    (m : Matcher) (hm : m.document = document) (hterms : m.terms ≠ []) :
    ∃ b, m.evaluateFields = .ok b ∧
      (b = true ↔ ∃ field ∈ m.fields, ∃ pick,
        (m.task fun term => Document.given histories term field).Fits pick) := by
  subst hm
  refine m.matchesAny_iff _ (fun field => ?_) m.fields
  have hin : ∀ term, ∀ x ∈ m.document.positions term field, Positions.Plain x :=
    fun term x hx => Document.plain_given histories hplain term field x
      ((hdocument term field).subset hx)
  obtain ⟨b, hb, hfits⟩ := m.evaluateSlots_field field hterms hin
  refine ⟨b, hb, hfits.trans (exists_congr fun pick => ?_)⟩
  exact Task.fits_congr _ _ _ _ _ pick fun t _ => hdocument t field

end Matcher

/-- The documents of given positions exist, and on them a matcher, made directly or by a query,
answers whether there is one field in which occurrences of all terms fit. -/
theorem evaluateFields_iff (histories : Table Postings.History)
    (hplain : ∀ h ∈ histories.values, h.Plain) (distance : Nat) (terms : List String)
    (hterms : terms ≠ []) (shared : Bool) (fields otherFields : List String) :
    let Matched (field : String) : Prop :=
      ∃ pick,
        (⟨distance, terms, shared, fun t => Document.given histories t field⟩ : Task).Fits pick
    ∃ document, Document.replay histories = .ok document ∧
      (∃ m b, Matcher.make fields (.whole distance) document terms shared = .ok m ∧
        m.evaluateFields = .ok b ∧ (b = true ↔ ∃ field ∈ fields, Matched field)) ∧
      ∃ m b,
        (Query.make (.whole distance) terms fields).matcher document otherFields shared = .ok m ∧
        m.evaluateFields = .ok b ∧
        (b = true ↔ ∃ field ∈ (if fields = [] then otherFields else fields), Matched field) := by
  intro Matched
  obtain ⟨document, hreplay, hdocument⟩ := Document.replay_positions histories hplain
  have hanswer : ∀ names : List String,
      ∃ m b, Matcher.make names (.whole distance) document terms shared = .ok m ∧
        m.evaluateFields = .ok b ∧ (b = true ↔ ∃ field ∈ names, Matched field) := by
    intro names
    obtain ⟨b, hb, hiff⟩ := Matcher.evaluateFields_given histories hplain document hdocument
      ⟨Matcher.fieldSet names, distance, document, terms, shared⟩ rfl hterms
    simp only [Matcher.mem_fieldSet] at hiff
    exact ⟨_, b, Matcher.make_eq_ok names distance document terms shared hterms, hb, hiff⟩
  refine ⟨document, hreplay, hanswer fields, ?_⟩
  by_cases hempty : fields = []
  · subst hempty
    simpa [Query.matcher, Query.make, Matcher.fieldSet_eq_nil_iff] using hanswer otherFields
  · have hset : (Matcher.fieldSet fields).isEmpty = false := by
      simpa [Matcher.fieldSet_eq_nil_iff] using hempty
    obtain ⟨m, b, hm, hb, hiff⟩ := hanswer (Matcher.fieldSet fields)
    simp only [Matcher.mem_fieldSet] at hiff
    refine ⟨m, b, ?_, hb, ?_⟩
    · simp only [Query.matcher, Query.make, hset]
      exact hm
    · rw [if_neg hempty]
      exact hiff

def twoTerms : Table Postings.History :=
  ⟨[("a", ⟨⟨[("body", [3, 1])], by decide⟩, [("title", [4])]⟩),
    ("b", ⟨Table.empty, [("body", [5]), ("title", [2])]⟩)], by decide⟩

/-- The term `a` occurs twice around `b` in the field `body`, and once only in `title`. -/
theorem evaluateFields_twoTerms :
    ∃ document m, Document.replay twoTerms = .ok document ∧
      Matcher.make ["title", "body"] (.whole 4) document ["a", "b", "a"] false = .ok m ∧
      m.evaluateFields = .ok true := by
  have hplain : ∀ h ∈ twoTerms.values, h.Plain := by
    unfold Postings.History.Plain Positions.Plain
    decide
  obtain ⟨document, hreplay, ⟨m, b, hm, hb, hiff⟩, -⟩ := evaluateFields_iff twoTerms hplain 4
    ["a", "b", "a"] (by decide) false ["title", "body"] []
  have hfits : (⟨4, ["a", "b", "a"], false, fun t => Document.given twoTerms t "body"⟩ : Task).Fits
      fun t => if t = "a" then [3, 1] else [5] := by
    exact ⟨by decide, by decide, by decide⟩
  have hyes : b = true := hiff.2 ⟨"body", by decide, _, hfits⟩
  subst hyes
  exact ⟨document, m, hreplay, hm, hb⟩

end TermWindow
