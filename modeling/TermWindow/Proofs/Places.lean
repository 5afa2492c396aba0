import TermWindow.Proofs.Splitting

/-!
# Places between literals

Reading a text from its beginning tells of each place whether it lies inside a literal. A literal
takes the reader inside at its first mark and out again at its last one, and nowhere between.
-/

namespace TermWindow.Query

open Text

/-- Where a text ends: outside its literals, inside one of them, or there behind a backslash. -/
inductive Place where
  | outside
  | inside (mark : Char)
  | escaped (mark : Char)

namespace Place

def next : Place → Char → Place
  | outside, c => if isQuote c then inside c else outside
  | inside mark, c =>
    if c = mark then outside else if c = backslash then escaped mark else inside mark
  | escaped mark, _ => inside mark

def behind (start : Place) (cs : List Char) : Place := cs.foldl next start

theorem behind_append (start : Place) (xs ys : List Char) :
    start.behind (xs ++ ys) = (start.behind xs).behind ys :=
  List.foldl_append

theorem behind_plain {cs : List Char} (h : ∀ c ∈ cs, isQuote c = false) :
    outside.behind cs = outside := by
  induction cs with
  | nil => rfl
  | cons c cs ih =>
    obtain ⟨hc, hcs⟩ := List.forall_mem_cons.1 h
    have hnext : next outside c = outside := by rw [next, hc, if_neg Bool.false_ne_true]
    show behind (next outside c) cs = outside
    rw [hnext]
    exact ih hcs

theorem behind_blanks (b : Blanks) : outside.behind b = outside :=
  behind_plain fun c hc => isQuote_of_isBlank c (b.2 c hc)

section Units

variable {mark : Char} (hm : isQuote mark = true)

include hm

theorem next_outside_mark : next outside mark = inside mark := by
  rw [next, if_pos hm]

theorem next_inside_backslash : next (inside mark) backslash = escaped mark := by
  rw [next, if_neg (ne_backslash_of_isQuote mark hm).symm, if_pos rfl]

theorem behind_units {body text : List Char} (h : Literal.Units mark body text) :
    (inside mark).behind body = inside mark := by
  induction h with
  | nil => rfl
  | plain c hmark hback _ ih =>
    show behind (next (inside mark) c) _ = inside mark
    rw [next, if_neg hmark, if_neg hback, ih]
  | pair c _ _ ih =>
    show behind (next (next (inside mark) backslash) c) _ = inside mark
    rw [next_inside_backslash hm, next, ih]

/-- No literal ends within its units. -/
theorem behind_units_ne_outside {body text : List Char} (h : Literal.Units mark body text)
    {before rest : List Char} (hsplit : body = before ++ rest) :
    (inside mark).behind before ≠ outside := by
  induction h generalizing before with
  | nil =>
    obtain ⟨rfl, -⟩ := List.append_eq_nil_iff.1 hsplit.symm
    exact nofun
  | plain c hmark hback _ ih =>
    cases before with
    | nil => exact nofun
    | cons d before =>
      rw [List.cons_append] at hsplit
      obtain ⟨rfl, hbody⟩ := List.cons.inj hsplit
      show behind (next (inside mark) c) before ≠ outside
      rw [next, if_neg hmark, if_neg hback]
      exact ih hbody
  | pair c _ _ ih =>
    match before with
    | [] => exact nofun
    | [d] =>
      rw [List.cons_append] at hsplit
      obtain ⟨rfl, -⟩ := List.cons.inj hsplit
      show next (inside mark) backslash ≠ outside
      rw [next_inside_backslash hm]
      exact nofun
    | d :: e :: before =>
      rw [List.cons_append, List.cons_append] at hsplit
      obtain ⟨rfl, htail⟩ := List.cons.inj hsplit
      obtain ⟨rfl, hbody⟩ := List.cons.inj htail
      show behind (next (next (inside mark) backslash) c) before ≠ outside
      rw [next_inside_backslash hm]
      exact ih hbody

end Units

theorem behind_literal {literal text : List Char} (h : Literal.Writes literal text) :
    outside.behind literal = outside := by
  obtain ⟨mark, body, hm, rfl, hunits⟩ := h
  show behind (next outside mark) (body ++ [mark]) = outside
  rw [next_outside_mark hm, behind_append, behind_units hm hunits]
  show next (inside mark) mark = outside
  rw [next, if_pos rfl]

theorem behind_literal_ne_outside {literal text : List Char} (h : Literal.Writes literal text)
    {before rest : List Char} (hsplit : literal = before ++ rest) (hbefore : before ≠ [])
    (hrest : rest ≠ []) : outside.behind before ≠ outside := by
  obtain ⟨mark, body, hm, rfl, hunits⟩ := h
  cases before with
  | nil => exact absurd rfl hbefore
  | cons c before =>
    rw [List.cons_append] at hsplit
    obtain ⟨rfl, hbody⟩ := List.cons.inj hsplit
    have hlast := List.dropLast_concat_getLast hrest
    rw [← hlast, ← List.append_assoc] at hbody
    show behind (next outside mark) before ≠ outside
    rw [next_outside_mark hm]
    exact behind_units_ne_outside hm hunits (List.append_inj' hbody rfl).1

end Place

end TermWindow.Query
