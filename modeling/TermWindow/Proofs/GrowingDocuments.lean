import TermWindow.Proofs.EasierTasks
import TermWindow.Proofs.FieldMatching
import TermWindow.Proofs.StoredNumbers

/-!
# Growing documents

While a matcher is in use, positions may be added to its document: some of them are merged with
those of a field, others are refused, and none that the document holds is ever lost. So a matcher
always answers, and once its answer is yes it stays so.
-/

namespace TermWindow

namespace Positions

/-- No number among the elements of a value is too great to be stored as it is. -/
def Storable (v : Value) : Prop :=
  ∀ elements, v.elements? = some elements → ∀ n, .whole n ∈ elements → n < 2 ^ 63

theorem exists_of_mem_mapM_number? {elements : List Value} {xs : List Int}
    (h : elements.mapM number? = some xs) : ∀ x ∈ xs, ∃ v ∈ elements, number? v = some x := by
  induction elements generalizing xs with
  | nil =>
    obtain rfl := Option.some.inj h
    simp
  | cons v elements ih =>
    rw [List.mapM_cons] at h
    obtain ⟨y, hy, h⟩ := Option.bind_eq_some_iff.1 h
    obtain ⟨ys, hys, h⟩ := Option.bind_eq_some_iff.1 h
    obtain rfl := Option.some.inj h
    refine List.forall_mem_cons.2 ⟨⟨v, List.mem_cons_self .., hy⟩, fun x hx => ?_⟩
    obtain ⟨w, hw, hwx⟩ := ih hys x hx
    exact ⟨w, List.mem_cons_of_mem v hw, hwx⟩

/-- The numbers in front come first among the numbers of all elements. -/
theorem exists_append_of_mapM_number? {present xs : List Int} {elements : List Value}
    (h : (present.map Value.whole ++ elements).mapM number? = some xs) :
    ∃ ys, xs = present ++ ys := by
  rw [List.mapM_append, mapM_number?_whole] at h
  have hbind : (elements.mapM number?).bind (fun ys => some (present ++ ys)) = some xs := h
  obtain ⟨ys, -, hys⟩ := Option.bind_eq_some_iff.1 hbind
  exact ⟨ys, (Option.some.inj hys).symm⟩

/-- Elements without numbers that are too great are stored as they are, or refused. -/
theorem ofElements_storable {elements : List Value} {p : Positions}
    (hsmall : ∀ n, .whole n ∈ elements → n < 2 ^ 63) (h : ofElements elements = .ok p) :
    ∃ xs, elements.mapM number? = some xs ∧ p.toList.Perm xs ∧ ∀ x ∈ xs, Plain x := by
  obtain ⟨xs, hnumbers, rfl, hxs⟩ := ofElements_eq_ok h
  have hplain : ∀ x ∈ xs, Plain x := by
    intro x hx
    refine ⟨(hxs x hx).1, ?_⟩
    obtain ⟨v, hv, hvx⟩ := exists_of_mem_mapM_number? hnumbers x hx
    cases v with
    | truth b =>
      obtain rfl := Option.some.inj hvx
      split <;> decide
    | whole n =>
      obtain rfl := Option.some.inj hvx
      exact hsmall n hv
    | missing | real | text | list => cases hvx
  refine ⟨xs, hnumbers, ?_, hplain⟩
  rw [map_stored_plain xs hplain]
  exact perm_toList_ofList xs

end Positions

/-! ### One addition -/

namespace Postings

theorem add_eq_ok {p q : Postings} {field : String} {v : Value} (h : p.add field v = .ok q) :
    ∃ elements merged, v.elements? = some elements ∧
      Positions.ofElements ((p.listed field).map Value.whole ++ elements) = .ok merged ∧
      q = ⟨p.byField.insert field merged⟩ := by
  obtain ⟨elements, helements, hread⟩ := exists_of_bind_eq_ok h
  obtain ⟨merged, hmerged, hinsert⟩ := exists_of_bind_eq_ok hread
  unfold Value.elements at helements
  split at helements
  · rename_i given hgiven
    obtain rfl := Except.ok.inj helements
    exact ⟨given, merged, hgiven, hmerged, (Except.ok.inj hinsert).symm⟩
  · cases helements

/-- An addition that is not refused keeps all positions, and adds none that is not stored as it
is. -/
theorem add_grows {p q : Postings} {field : String} {v : Value}
    (hplain : ∀ f, ∀ x ∈ p.listed f, Positions.Plain x) (hv : Positions.Storable v)
    (h : p.add field v = .ok q) (f : String) :
    (p.listed f).Subperm (q.listed f) ∧ ∀ x ∈ q.listed f, Positions.Plain x := by
  obtain ⟨elements, merged, helements, hmerged, rfl⟩ := add_eq_ok h
  rw [listed_insert]
  by_cases hf : f = field
  · subst hf
    rw [if_pos rfl]
    have hsmall : ∀ n, .whole n ∈ (p.listed f).map Value.whole ++ elements → n < 2 ^ 63 := by
      intro n hn
      rcases List.mem_append.1 hn with hn | hn
      · obtain ⟨x, hx, heq⟩ := List.mem_map.1 hn
        obtain rfl := Value.whole.inj heq
        exact (hplain f x hx).2
      · exact hv elements helements n hn
    obtain ⟨xs, hnumbers, hperm, hxs⟩ := Positions.ofElements_storable hsmall hmerged
    obtain ⟨ys, rfl⟩ := Positions.exists_append_of_mapM_number? hnumbers
    exact ⟨hperm.symm.subperm_left.1 (List.sublist_append_left _ ys).subperm,
      fun x hx => hxs x (hperm.subset hx)⟩
  · rw [if_neg hf]
    exact ⟨List.Subperm.refl _, hplain f⟩

end Postings

namespace Document

/-- All positions of a document are stored as they are. -/
def Plain (document : Document) : Prop :=
  ∀ term field, ∀ x ∈ document.positions term field, Positions.Plain x

/-- A document that holds every position at least as often as another one. -/
def Grows (before later : Document) : Prop :=
  ∀ term field, (before.positions term field).Subperm (later.positions term field)

theorem positions_insert (document : Document) (name term field : String) (p : Postings) :
    Document.positions (document.insert name p) term field =
      if term = name then p.listed field else document.positions term field := by
  simp only [positions, Table.get?_insert]
  split <;> rfl

theorem insert_grows {document : Document} (hplain : document.Plain) (name : String)
    {p : Postings} (h : ∀ field, (document.positions name field).Subperm (p.listed field) ∧
      ∀ x ∈ p.listed field, Positions.Plain x) :
    document.Grows (document.insert name p) ∧ Document.Plain (document.insert name p) := by
  refine ⟨fun term field => ?_, fun term field => ?_⟩
  · rw [positions_insert]
    split
    · rename_i hterm
      rw [hterm]
      exact (h field).1
    · exact List.Subperm.refl _
  · rw [positions_insert]
    split
    · exact (h field).2
    · exact hplain term field

end Document

namespace Matcher

/-- Whether the positions are refused or not, the document holds what it held before. -/
theorem add_grows (m : Matcher) (hplain : m.document.Plain) (term field : String) (v : Value)
    (hv : Positions.Storable v) :
    m.document.Grows (m.add term field v).1.document ∧ (m.add term field v).1.document.Plain := by
  unfold add
  apply Document.insert_grows hplain term
  intro f
  cases hadd : ((m.document.get? term).getD Postings.empty).add field v with
  | ok q => exact Postings.add_grows (hplain term) hv hadd f
  | error fault => exact ⟨List.Subperm.refl _, hplain term f⟩

theorem positions_add_of_ok {m : Matcher} {term field : String} {v : Value} {q : Postings}
    (h : ((m.document.get? term).getD Postings.empty).add field v = .ok q) (t f : String) :
    (m.add term field v).1.document.positions t f =
      if t = term then q.listed f else m.document.positions t f := by
  simp only [add, h, Document.positions_insert]

/-! ### Answers -/

/-- Whether occurrences of all terms fit in one of the fields. -/
def Matches (m : Matcher) : Prop :=
  ∃ field ∈ m.fields, ∃ pick, (m.task fun term => m.document.positions term field).Fits pick

theorem evaluateFields_plain (m : Matcher) (hterms : m.terms ≠ []) (hplain : m.document.Plain) :
    ∃ b, m.evaluateFields = .ok b ∧ (b = true ↔ m.Matches) :=
  m.matchesAny_iff _
    (fun field => m.evaluateSlots_field field hterms fun term => hplain term field) m.fields

theorem evaluateFields_eq_ok {m : Matcher} {b : Bool} (hterms : m.terms ≠ [])
    (hplain : m.document.Plain) (h : b = true ↔ m.Matches) : m.evaluateFields = .ok b := by
  obtain ⟨c, hc, hiff⟩ := m.evaluateFields_plain hterms hplain
  rw [hc, Bool.eq_iff_iff.2 (hiff.trans h.symm)]

theorem Matches.add {m : Matcher} (h : m.Matches) (hplain : m.document.Plain)
    (term field : String) (v : Value) (hv : Positions.Storable v) :
    (m.add term field v).1.Matches := by
  obtain ⟨f, hf, pick, hfits⟩ := h
  have hgrows := (m.add_grows hplain term field v hv).1
  have heasier : ((m.add term field v).1.task
      fun t => (m.add term field v).1.document.positions t f).Easier
      (m.task fun t => m.document.positions t f) :=
    ⟨Nat.le_refl _, fun _ ht => ht, fun _ _ => Nat.le_refl _, fun t _ => hgrows t f⟩
  exact ⟨f, hf, _, heasier.fits hfits⟩

/-! ### Runs -/

/-- What is done with a matcher: it is asked for an answer, or positions are added to its
document. -/
inductive Call where
  | evaluate
  | add (term field : String) (v : Value)

/-- The answers that a matcher gives in the course of some calls. -/
def answers (m : Matcher) : List Call → List (Except Fault Bool)
  | [] => []
  | .evaluate :: calls => m.evaluateFields :: m.answers calls
  | .add term field v :: calls => (m.add term field v).1.answers calls

def Call.Storable : Call → Prop
  | evaluate => True
  | add _ _ v => Positions.Storable v

/-- All answers of a run are given, in ascending order and none below the answer at its start. -/
theorem answers_from (m : Matcher) (hterms : m.terms ≠ []) (hplain : m.document.Plain)
    (calls : List Call) (hcalls : ∀ call ∈ calls, call.Storable) :
    ∃ bs : List Bool, m.answers calls = bs.map Except.ok ∧
      bs.Pairwise (fun earlier later => earlier = true → later = true) ∧
      (m.Matches → ∀ b ∈ bs, b = true) := by
  -- The last part carries the induction: what fits goes on fitting through the additions, so that
  -- the answers after a yes need not be compared with it one by one.
  induction calls generalizing m with
  | nil => exact ⟨[], rfl, List.Pairwise.nil, by simp⟩
  | cons call calls ih =>
    have hc := List.forall_mem_cons.1 hcalls
    cases call with
    | evaluate =>
      obtain ⟨b, hb, hiff⟩ := m.evaluateFields_plain hterms hplain
      obtain ⟨bs, hbs, hordered, hmatches⟩ := ih m hterms hplain hc.2
      refine ⟨b :: bs, ?_, ?_, fun hm => ?_⟩
      · rw [answers, hb, hbs]
        rfl
      · exact List.pairwise_cons.2 ⟨fun c hc hyes => hmatches (hiff.1 hyes) c hc, hordered⟩
      · exact List.forall_mem_cons.2 ⟨hiff.2 hm, hmatches hm⟩
    | add term field v =>
      have hplain' := (m.add_grows hplain term field v hc.1).2
      obtain ⟨bs, hbs, hordered, hmatches⟩ := ih (m.add term field v).1 hterms hplain' hc.2
      exact ⟨bs, hbs, hordered, fun hm => hmatches (hm.add hplain term field v hc.1)⟩

end Matcher

theorem Document.plain_of_replay (histories : Table Postings.History)
    (hplain : ∀ h ∈ histories.values, h.Plain) (document : Document)
    (hreplay : replay histories = .ok document) : document.Plain := by
  obtain ⟨made, hmade, hpositions⟩ := replay_positions histories hplain
  obtain rfl := Except.ok.inj (hmade.symm.trans hreplay)
  intro term field x hx
  exact plain_given histories hplain term field x ((hpositions term field).subset hx)

namespace Matcher

theorem of_make {fields : List String} {distance : Value} {document : Document}
    {terms : List String} {shared : Bool} {m : Matcher}
    (h : make fields distance document terms shared = .ok m) :
    m.terms ≠ [] ∧ m.document = document := by
  obtain ⟨d, -, h⟩ := exists_of_bind_eq_ok h
  cases terms with
  | nil => cases h
  | cons term terms =>
    obtain rfl := Except.ok.inj h
    exact ⟨List.cons_ne_nil term terms, rfl⟩

/-- A matcher for a document of given positions answers each time it is asked, whatever positions
are added to the document in between, and after an answer yes it never says no again. -/
theorem answers_ascending (histories : Table Postings.History)
    (hhistories : ∀ h ∈ histories.values, h.Plain) (document : Document)
    (hdocument : Document.replay histories = .ok document) (fields : List String)
    (distance : Value) (terms : List String) (shared : Bool) (m : Matcher)
    (hm : make fields distance document terms shared = .ok m) (calls : List Call)
    (hcalls : ∀ term field v, Call.add term field v ∈ calls → Positions.Storable v) :
    ∃ bs : List Bool, m.answers calls = bs.map Except.ok ∧
      bs.Pairwise (fun earlier later => earlier = true → later = true) := by
  have hplain := Document.plain_of_replay histories hhistories document hdocument
  have hstorable : ∀ call ∈ calls, call.Storable := by
    intro call hcall
    cases call with
    | evaluate => trivial
    | add term field v => exact hcalls term field v hcall
  obtain ⟨hterms, hholds⟩ := of_make hm
  obtain ⟨bs, hbs, hordered, -⟩ := m.answers_from hterms (hholds ▸ hplain) calls hstorable
  exact ⟨bs, hbs, hordered⟩

/-- An addition that is refused, an empty list for a term that is new, and two that are merged. -/
def additions : List Call :=
  [.evaluate, .add "a" "body" (.list [.whole 2, .whole (-1)]), .add "c" "body" (.list []),
    .evaluate, .add "a" "body" (.list [.truth true, .whole 4]), .evaluate,
    .add "b" "title" (.list [.whole 9]), .evaluate]

/-- The document of `twoTerms` with given positions in the field `body`. -/
def twoTermsDocument (a b : Positions) : Document :=
  ⟨[("a", ⟨⟨[("body", a), ("title", .ofList [4])], by simp⟩⟩),
    ("b", ⟨⟨[("body", b), ("title", .ofList [2])], by simp⟩⟩)], by simp⟩

theorem replay_twoTerms :
    Document.replay twoTerms =
      .ok (twoTermsDocument ⟨#[1, 3], by decide⟩ ⟨#[5], by decide⟩) := by
  have ha : Positions.ofList [3, 1] = ⟨#[1, 3], by decide⟩ :=
    Positions.ofList_eq_of_perm (by decide)
  have hb : Positions.ofList [5] = ⟨#[5], by decide⟩ := Positions.ofList_eq_of_perm (by decide)
  rw [← ha, ← hb]
  rfl

/-- The answers are no while `a` stands at 1 and 3, and yes from the addition of 4 on. -/
theorem answers_ascending_additions :
    ∃ document m, Document.replay twoTerms = .ok document ∧
      make ["body"] (.whole 2) document ["a", "b", "a"] false = .ok m ∧
      m.answers additions = [false, false, true, true].map Except.ok ∧
      [false, false, true, true].Pairwise (fun earlier later => earlier = true → later = true) := by
  have hhistories : ∀ h ∈ twoTerms.values, h.Plain := by
    unfold Postings.History.Plain Positions.Plain
    decide
  have hsmall : ∀ term field v, Call.add term field v ∈ additions → Positions.Storable v := by
    intro term field v hv elements helements n hn
    simp only [additions, List.mem_cons, Call.add.injEq, reduceCtorEq, false_or, or_false,
      List.not_mem_nil] at hv
    rcases hv with ⟨-, -, rfl⟩ | ⟨-, -, rfl⟩ | ⟨-, -, rfl⟩ | ⟨-, -, rfl⟩ <;>
      obtain rfl := Option.some.inj helements <;> simp at hn <;> omega
  let document := twoTermsDocument ⟨#[1, 3], by decide⟩ ⟨#[5], by decide⟩
  let m : Matcher := ⟨fieldSet ["body"], 2, document, ["a", "b", "a"], false⟩
  let m₁ := (m.add "a" "body" (.list [.whole 2, .whole (-1)])).1
  let m₂ := (m₁.add "c" "body" (.list [])).1
  let m₃ := (m₂.add "a" "body" (.list [.truth true, .whole 4])).1
  have hm : make ["body"] (.whole 2) document ["a", "b", "a"] false = .ok m :=
    make_eq_ok ["body"] 2 document ["a", "b", "a"] false (by decide)
  have hbody : "body" ∈ fieldSet ["body"] := (mem_fieldSet ..).2 (List.mem_singleton_self _)
  have hplain := Document.plain_of_replay twoTerms hhistories document replay_twoTerms
  have hplain₁ : m₁.document.Plain :=
    (m.add_grows hplain _ _ _ (hsmall "a" "body" _ (by simp [additions]))).2
  have hplain₂ : m₂.document.Plain :=
    (m₁.add_grows hplain₁ _ _ _ (hsmall "c" "body" _ (by simp [additions]))).2
  have hplain₃ : m₃.document.Plain :=
    (m₂.add_grows hplain₂ _ _ _ (hsmall "a" "body" _ (by simp [additions]))).2
  have hno : ¬m₂.Matches := by
    rintro ⟨field, hfield, pick, hfits⟩
    obtain rfl := List.mem_singleton.1 ((mem_fieldSet ["body"] field).1 hfield)
    have ha : (pick "a").Perm [1, 3] := (hfits.taken "a" (by decide)).perm_of_length_le
      (by rw [hfits.enough "a" (by decide)]; decide)
    have hb : (pick "b").Perm [5] := (hfits.taken "b" (by decide)).perm_of_length_le
      (by rw [hfits.enough "b" (by decide)]; decide)
    have hclose := hfits.close "b" (by decide) "a" (by decide) 5 (hb.mem_iff.2 (by decide)) 1
      (ha.mem_iff.2 (by decide))
    cases hclose
  have hyes : m₃.Matches := by
    have ha : [3, 4].Subperm (m₃.document.positions "a" "body") := by
      have hadd : ((m₂.document.get? "a").getD Postings.empty).add "body"
          (.list [.truth true, .whole 4]) =
            .ok ⟨Table.insert _ "body" (.ofList [1, 3, 1, 4])⟩ := rfl
      rw [positions_add_of_ok hadd, if_pos rfl, Postings.listed_insert, if_pos rfl]
      exact (Positions.perm_toList_ofList [1, 3, 1, 4]).subperm_left.2 (by decide)
    have hb : [5].Subperm (m₃.document.positions "b" "body") := List.Subperm.refl [5]
    have htaken : ∀ t ∈ ["a", "b", "a"],
        (if t = "a" then [3, 4] else [5]).Subperm (m₃.document.positions t "body") := by
      simp only [List.forall_mem_cons]
      exact ⟨ha, hb, ha, by simp⟩
    exact ⟨"body", hbody, _, htaken, by decide, by decide⟩
  have hanswer₂ : m₂.evaluateFields = .ok false :=
    evaluateFields_eq_ok (List.cons_ne_nil _ _) hplain₂ (iff_of_false Bool.false_ne_true hno)
  have hanswer₃ : m₃.evaluateFields = .ok true :=
    evaluateFields_eq_ok (List.cons_ne_nil _ _) hplain₃ (iff_of_true rfl hyes)
  -- the first and the last answer follow from those between them
  obtain ⟨bs, hbs, hordered⟩ := answers_ascending twoTerms hhistories document replay_twoTerms
    ["body"] (.whole 2) ["a", "b", "a"] false m hm additions hsmall
  have hrun : bs.map Except.ok = [m.evaluateFields, m₂.evaluateFields, m₃.evaluateFields,
    (m₃.add "b" "title" (.list [.whole 9])).1.evaluateFields] := hbs.symm
  rw [hanswer₂, hanswer₃] at hrun
  simp only [List.map_eq_cons_iff, List.map_eq_nil_iff] at hrun
  obtain ⟨b₁, _, rfl, -, _, _, rfl, h₂, _, _, rfl, h₃, b₄, _, rfl, -, rfl⟩ := hrun
  cases h₂
  cases h₃
  obtain ⟨rfl, rfl⟩ : b₁ = false ∧ b₄ = true := by
    simp at hordered
    exact ⟨hordered.1.1, hordered.2⟩
  exact ⟨document, m, replay_twoTerms, hm, hbs, hordered⟩

end Matcher

end TermWindow
