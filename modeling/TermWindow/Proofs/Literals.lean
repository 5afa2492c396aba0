import TermWindow.Proofs.Characters

/-!
# Writing literals

Any text can be written as a literal between either quote mark: the mark and the backslash are put
behind a backslash. The literal ends where it is meant to, whatever follows it, and stands for the
text again. Conversely every literal consists of units, each for one character of its text.
-/

namespace TermWindow.Query.Literal

open Text

def escape (mark : Char) : List Char → List Char
  | [] => []
  | c :: rest =>
    if c = mark ∨ c = backslash then backslash :: c :: escape mark rest else c :: escape mark rest

def written (mark : Char) (cs : List Char) : List Char := mark :: (escape mark cs ++ [mark])

/-! ### The end of a literal -/

section Units

variable (mark c : Char) (rest : List Char)

theorem close?_mark : close? mark (mark :: rest) = some ([mark], rest) := by
  cases rest <;> simp [close?]

theorem close?_unit (hm : backslash ≠ mark) (hc : c ≠ '\n') :
    close? mark (backslash :: c :: rest) =
      (close? mark rest).map fun (body, after) => (backslash :: c :: body, after) := by
  rw [close?.eq_def]
  simp only [if_neg hm, if_neg hc, if_true]

theorem close?_plain (hm : c ≠ mark) (hc : c ≠ backslash) :
    close? mark (c :: rest) =
      (close? mark rest).map fun (body, after) => (c :: body, after) := by
  rw [close?.eq_def]
  simp only [if_neg hm, if_neg hc]

theorem unescape_unit (hc : c ≠ '\n') :
    unescape (backslash :: c :: rest) = c :: unescape rest := by
  rw [unescape.eq_def]
  simp only [if_neg hc, if_true]

theorem unescape_plain (hc : c ≠ backslash) : unescape (c :: rest) = c :: unescape rest := by
  rw [unescape.eq_def]
  simp only [if_neg hc]

theorem ne_lineEnd_of_escaped (hm : isQuote mark = true) (hc : c = mark ∨ c = backslash) :
    c ≠ '\n' := by
  intro he
  subst he
  rcases hc with rfl | hc
  · exact absurd hm (by decide)
  · exact absurd hc (by decide)

end Units

/-! ### Units -/

/-- The text between the marks of a literal, with the text that it stands for. -/
inductive Units (mark : Char) : List Char → List Char → Prop where
  | nil : Units mark [] []
  | plain {body text : List Char} (c : Char) (hm : c ≠ mark) (hc : c ≠ backslash)
      (h : Units mark body text) : Units mark (c :: body) (c :: text)
  | pair {body text : List Char} (c : Char) (hc : c ≠ '\n') (h : Units mark body text) :
      Units mark (backslash :: c :: body) (c :: text)

theorem Units.close?_eq {mark : Char} {body text : List Char} (h : Units mark body text)
    (hm : isQuote mark = true) (rest : List Char) :
    close? mark (body ++ mark :: rest) = some (body ++ [mark], rest) := by
  induction h with
  | nil => exact close?_mark mark rest
  | plain c hmark hback _ ih =>
    rw [List.cons_append, close?_plain mark c _ hmark hback, ih]
    rfl
  | pair c hline _ ih =>
    have hback : backslash ≠ mark := (ne_backslash_of_isQuote mark hm).symm
    rw [List.cons_append, List.cons_append, close?_unit mark c _ hback hline, ih]
    rfl

theorem Units.unescape_eq {mark : Char} {body text : List Char} (h : Units mark body text) :
    unescape body = text := by
  induction h with
  | nil => rfl
  | plain c _ hback _ ih => rw [unescape_plain c _ hback, ih]
  | pair c hline _ ih => rw [unescape_unit c _ hline, ih]

theorem exists_units_of_close? {mark : Char} {cs found after : List Char}
    (h : close? mark cs = some (found, after)) :
    ∃ body text, found = body ++ [mark] ∧ Units mark body text := by
  fun_induction close? mark cs generalizing found after with
  | case1 => cases h
  | case2 rest =>
    obtain ⟨rfl, rfl⟩ := h
    exact ⟨[], [], rfl, .nil⟩
  | case3 => cases h
  | case4 => cases h
  | case5 d rest hline _ ih =>
    obtain ⟨⟨inner, tail⟩, hf, h⟩ := Option.map_eq_some_iff.1 h
    obtain ⟨rfl, rfl⟩ := h
    obtain ⟨body, text, rfl, hunits⟩ := ih hf
    exact ⟨backslash :: d :: body, d :: text, rfl, hunits.pair d hline⟩
  | case6 c rest hmark hback ih =>
    obtain ⟨⟨inner, tail⟩, hf, h⟩ := Option.map_eq_some_iff.1 h
    obtain ⟨rfl, rfl⟩ := h
    obtain ⟨body, text, rfl, hunits⟩ := ih hf
    exact ⟨c :: body, c :: text, rfl, hunits.plain c hmark hback⟩

theorem units_escape (mark : Char) (hm : isQuote mark = true) (cs : List Char) :
    Units mark (escape mark cs) cs := by
  induction cs with
  | nil => exact .nil
  | cons c cs ih =>
    by_cases hc : c = mark ∨ c = backslash
    · rw [escape, if_pos hc]
      exact ih.pair c (ne_lineEnd_of_escaped mark c hm hc)
    · obtain ⟨hmark, hback⟩ := not_or.1 hc
      rw [escape, if_neg hc]
      exact ih.plain c hmark hback

/-! ### Literals in front of other text -/

theorem close?_append_right {mark : Char} {cs body after : List Char}
    (h : close? mark cs = some (body, after)) (more : List Char) :
    close? mark (cs ++ more) = some (body, after ++ more) := by
  fun_induction close? mark cs generalizing body after with
  | case1 => cases h
  | case2 rest =>
    obtain ⟨rfl, rfl⟩ := h
    exact close?_mark mark (rest ++ more)
  | case3 => cases h
  | case4 => cases h
  | case5 d rest hd hback ih =>
    obtain ⟨⟨inner, tail⟩, hf, h⟩ := Option.map_eq_some_iff.1 h
    obtain ⟨rfl, rfl⟩ := h
    rw [List.cons_append, List.cons_append, close?_unit mark d _ hback hd, ih hf]
    rfl
  | case6 c rest hmark hback ih =>
    obtain ⟨⟨inner, tail⟩, hf, h⟩ := Option.map_eq_some_iff.1 h
    obtain ⟨rfl, rfl⟩ := h
    rw [List.cons_append, close?_plain mark c _ hmark hback, ih hf]
    rfl

theorem split?_append_right {cs literal after : List Char}
    (h : split? cs = some (literal, after)) (more : List Char) :
    split? (cs ++ more) = some (literal, after ++ more) := by
  cases cs with
  | nil => cases h
  | cons mark rest =>
    rw [split?] at h
    split at h
    · rename_i hm
      obtain ⟨⟨body, tail⟩, hclose, heq⟩ := Option.map_eq_some_iff.1 h
      obtain ⟨rfl, rfl⟩ := Prod.mk.inj heq
      rw [List.cons_append, split?, if_pos hm, close?_append_right hclose more]
      rfl
    · cases h

/-- A literal is found in front of any text. -/
theorem split?_of_isLiteral (literal : List Char) (h : isLiteral literal = true)
    (more : List Char) : split? (literal ++ more) = some (literal, more) := by
  cases hsplit : split? literal with
  | none => simp [isLiteral, hsplit] at h
  | some found =>
    obtain ⟨text, after⟩ := found
    cases after with
    | cons c rest => simp [isLiteral, hsplit] at h
    | nil =>
      have happ := split?_append hsplit
      rw [List.append_nil] at happ
      subst happ
      exact split?_append_right hsplit more

theorem exists_mark_of_isLiteral (literal : List Char) (h : isLiteral literal = true) :
    ∃ mark rest, literal = mark :: rest ∧ isQuote mark = true := by
  cases literal with
  | nil => cases h
  | cons mark rest =>
    refine ⟨mark, rest, rfl, ?_⟩
    by_contra hm
    rw [isLiteral, split?, if_neg hm] at h
    cases h

/-! ### The text of a literal -/

theorem unquote_marked (mark : Char) (hm : isQuote mark = true) (body : List Char) :
    unquote (mark :: (body ++ [mark])) = .ok (unescape body) := by
  have hlast : (body ++ [mark]).getLast? = some mark := List.getLast?_concat ..
  have hquoted : (isQuote mark && decide ((body ++ [mark]).getLast? = some mark)) = true := by
    rw [hm, hlast]
    simp
  rw [unquote]
  simp only [if_pos hquoted, List.dropLast_concat]

/-- Between two equal quote marks stand the units of a text. -/
def Writes (literal text : List Char) : Prop :=
  ∃ mark body, isQuote mark = true ∧ literal = mark :: (body ++ [mark]) ∧ Units mark body text

theorem exists_writes_of_split? {cs literal after : List Char}
    (h : split? cs = some (literal, after)) : ∃ text, Writes literal text := by
  cases cs with
  | nil => cases h
  | cons mark rest =>
    rw [split?] at h
    split at h
    · rename_i hm
      obtain ⟨⟨found, tail⟩, hclose, heq⟩ := Option.map_eq_some_iff.1 h
      obtain ⟨rfl, rfl⟩ := Prod.mk.inj heq
      obtain ⟨body, text, rfl, hunits⟩ := exists_units_of_close? hclose
      exact ⟨text, mark, body, hm, rfl, hunits⟩
    · cases h

theorem exists_writes_of_isLiteral (literal : List Char) (h : isLiteral literal = true) :
    ∃ text, Writes literal text := by
  have hsplit := split?_of_isLiteral literal h []
  exact exists_writes_of_split? hsplit

theorem Writes.unquote_eq {literal text : List Char} (h : Writes literal text) :
    unquote literal = .ok text := by
  obtain ⟨mark, body, hm, rfl, hunits⟩ := h
  rw [unquote_marked mark hm, hunits.unescape_eq]

/-- The literals are the texts between marks that are made of units. -/
theorem writes_iff (literal text : List Char) :
    Writes literal text ↔ isLiteral literal = true ∧ unquote literal = .ok text := by
  refine ⟨fun h => ⟨?_, h.unquote_eq⟩, fun h => ?_⟩
  · obtain ⟨mark, body, hm, rfl, hunits⟩ := h
    rw [isLiteral, split?, if_pos hm, hunits.close?_eq hm]
    rfl
  · obtain ⟨hliteral, hunquote⟩ := h
    obtain ⟨read, hread⟩ := exists_writes_of_isLiteral literal hliteral
    obtain rfl := Except.ok.inj (hread.unquote_eq.symm.trans hunquote)
    exact hread

end TermWindow.Query.Literal
