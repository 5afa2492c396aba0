import Mathlib.Data.List.TakeWhile
import Mathlib.Logic.Relation
import TermWindow.Proofs.Grammar
import TermWindow.Proofs.Places

/-!
# Blanks between the parts of a query

Blanks may be put beside the commas and the brackets of a query without changing what it says. The
one place where they may not is behind a comma that closes the arguments: a blank there is an
argument by itself, and no quoted term.
-/

namespace TermWindow.Query

open Text

/-! ### Gaps -/

def isSeparator (c : Char) : Bool := c = ',' || c = '(' || c = ')'

/-- A place outside the literals of a text, beside a separator or at an end of the text. -/
structure Gap (before behind : List Char) : Prop where
  outside : Place.outside.behind before = .outside
  beside : (∀ c ∈ before.getLast?, isSeparator c = true) ∨ ∀ c ∈ behind.head?, isSeparator c = true

/-- The place between a comma and the closing bracket. -/
structure ClosingGap (before behind : List Char) : Prop where
  outside : Place.outside.behind before = .outside
  comma : before.getLast? = some ','
  bracket : behind.head? = some ')'

/-- Blanks are put into one gap of a text. -/
def Widens (text wider : String) : Prop :=
  ∃ (before behind : List Char) (b : Blanks), text.toList = before ++ behind ∧
    Gap before behind ∧ ¬ClosingGap before behind ∧ wider = String.ofList (before ++ b ++ behind)

theorem ClosingGap.gap {before behind : List Char} (h : ClosingGap before behind) :
    Gap before behind := by
  refine ⟨h.outside, Or.inl fun c hc => ?_⟩
  obtain rfl := Option.some.inj (h.comma.symm.trans hc)
  rfl

theorem Gap.of_append_left {front before behind : List Char} (h : Gap (front ++ before) behind)
    (hfront : Place.outside.behind front = .outside) : Gap before behind := by
  have houtside := h.outside
  rw [Place.behind_append, hfront] at houtside
  refine ⟨houtside, h.beside.imp_left fun hlast c hc => hlast c ?_⟩
  rw [List.getLast?_append, Option.mem_def.1 hc]
  rfl

theorem Gap.of_append_right {before behind back : List Char} (h : Gap before (behind ++ back)) :
    Gap before behind := by
  refine ⟨h.outside, h.beside.imp_right fun hfirst c hc => hfirst c ?_⟩
  rw [List.head?_append, Option.mem_def.1 hc]
  rfl

theorem split_at_mark {front back before behind : List Char} {mark : Char}
    (h : front ++ mark :: back = before ++ behind) :
    (∃ rest, front = before ++ rest ∧ behind = rest ++ mark :: back) ∨
      ∃ rest, before = front ++ mark :: rest ∧ back = rest ++ behind := by
  rcases List.append_eq_append_iff.1 h with ⟨rest, rfl, hback⟩ | ⟨rest, rfl, rfl⟩
  · cases rest with
    | nil => exact Or.inl ⟨[], by simp, hback.symm⟩
    | cons c rest =>
      obtain ⟨rfl, rfl⟩ := List.cons.inj hback
      exact Or.inr ⟨rest, rfl, rfl⟩
  · exact Or.inl ⟨rest, rfl, rfl⟩

theorem exists_blanks_widened (b all : Blanks) {before behind : List Char}
    (h : all.1 = before ++ behind) : ∃ wide : Blanks, wide.1 = before ++ b ++ behind := by
  refine ⟨⟨before ++ b ++ behind, fun c hc => ?_⟩, rfl⟩
  have hall := all.2
  rw [h] at hall
  simp only [List.mem_append] at hc hall
  rcases hc with (hc | hc) | hc
  · exact hall c (Or.inl hc)
  · exact b.2 c hc
  · exact hall c (Or.inr hc)

/-! ### Plain texts -/

/-- A text without quote marks and separators. -/
def Plain (cs : List Char) : Prop := ∀ c ∈ cs, isQuote c = false ∧ isSeparator c = false

theorem Plain.append {xs ys : List Char} (hx : Plain xs) (hy : Plain ys) : Plain (xs ++ ys) := by
  intro c hc
  rcases List.mem_append.1 hc with hc | hc
  · exact hx c hc
  · exact hy c hc

theorem Plain.behind_eq {cs : List Char} (h : Plain cs) :
    Place.outside.behind cs = .outside :=
  Place.behind_plain fun c hc => (h c hc).1

/-- There is no gap within a plain text. -/
theorem Plain.eq_nil_or_eq_nil {before behind : List Char} (h : Plain (before ++ behind))
    (hgap : Gap before behind) : before = [] ∨ behind = [] := by
  rcases hgap.beside with hlast | hfirst
  · refine Or.inl (List.getLast?_eq_none_iff.1 (Option.eq_none_iff_forall_not_mem.2 ?_))
    intro c hc
    have hmem := List.mem_append_left behind (List.mem_of_getLast? hc)
    exact absurd (hlast c hc) (by rw [(h c hmem).2]; decide)
  · refine Or.inr (List.head?_eq_none_iff.1 (Option.eq_none_iff_forall_not_mem.2 ?_))
    intro c hc
    have hmem := List.mem_append_right before (List.mem_of_head? hc)
    exact absurd (hfirst c hc) (by rw [(h c hmem).2]; decide)

theorem isSeparator_eq_false (c : Char) (h : isBlank c = true ∨ isQuote c = true ∨
    isWord c = true ∨ c = '.') : isSeparator c = false := by
  rw [← Bool.not_eq_true, isSeparator]
  intro hc
  simp only [Bool.or_eq_true, decide_eq_true_eq] at hc
  rcases hc with (rfl | rfl) | rfl <;> revert h <;> decide

theorem plain_blanks (b : Blanks) : Plain b := fun c hc =>
  ⟨isQuote_of_isBlank c (b.2 c hc), isSeparator_eq_false c (Or.inl (b.2 c hc))⟩

theorem Arguments.Bare.plain {item : List Char} (h : Arguments.Bare item) : Plain item :=
  fun c hc => ⟨h.isQuote_eq_false c hc, isSeparator_eq_false c (Or.inr (Or.inr (h.2 c hc)))⟩

/-! ### Gaps in an argument -/

namespace Arguments

theorem Argument.behind_eq {item : List Char} (h : Argument item) :
    Place.outside.behind item = .outside := by
  rcases h with h | h
  · obtain ⟨text, hwrites⟩ := Literal.exists_writes_of_isLiteral item h
    exact Place.behind_literal hwrites
  · exact h.plain.behind_eq

theorem Argument.eq_nil_or_eq_nil {before behind : List Char} (h : Argument (before ++ behind))
    (hgap : Gap before behind) : before = [] ∨ behind = [] := by
  rcases h with h | h
  · obtain ⟨text, hwrites⟩ := Literal.exists_writes_of_isLiteral _ h
    by_contra hne
    obtain ⟨hbefore, hbehind⟩ := not_or.1 hne
    exact Place.behind_literal_ne_outside hwrites rfl hbefore hbehind hgap.outside
  · exact h.plain.eq_nil_or_eq_nil hgap

theorem Argument.isSeparator_head {item : List Char} (h : Argument item) {c : Char}
    (hc : c ∈ item.head?) : isSeparator c = false := by
  rcases h with h | h
  · obtain ⟨mark, rest, rfl, hm⟩ := Literal.exists_mark_of_isLiteral item h
    obtain rfl := Option.some.inj hc
    exact isSeparator_eq_false mark (Or.inr (Or.inl hm))
  · exact (h.plain c (List.mem_of_head? hc)).2

theorem Argument.exists_getLast {item : List Char} (h : Argument item) :
    ∃ c, item.getLast? = some c ∧ isSeparator c = false := by
  rcases h with h | h
  · obtain ⟨text, mark, body, hm, rfl, -⟩ := Literal.exists_writes_of_isLiteral item h
    rw [← List.cons_append]
    exact ⟨mark, List.getLast?_concat .., isSeparator_eq_false mark (Or.inr (Or.inl hm))⟩
  · have hlast := List.getLast?_eq_some_getLast h.1
    exact ⟨item.getLast h.1, hlast, (h.plain _ (List.mem_of_getLast? hlast)).2⟩

section Around

variable {item : List Char} (hitem : Argument item) (p : Pad)

include hitem

theorem behind_around : Place.outside.behind (p.around item) = .outside := by
  rw [Pad.around, Place.behind_append, Place.behind_append, Place.behind_blanks, hitem.behind_eq,
    Place.behind_blanks]

/-- A gap in an argument with blanks around it lies in the blanks before it or behind it. -/
theorem gap_in_pad {before behind : List Char} (h : p.around item = before ++ behind)
    (hgap : Gap before behind) :
    (∃ rest, p.before.1 = before ++ rest ∧ behind = rest ++ (item ++ p.behind)) ∨
      ∃ rest, p.behind.1 = rest ++ behind ∧ before = p.before ++ item ++ rest := by
  rw [Pad.around, List.append_assoc] at h
  rcases List.append_eq_append_iff.1 h with ⟨within, rfl, htail⟩ | ⟨rest, hpad, rfl⟩
  · have hinner := hgap.of_append_left (Place.behind_blanks p.before)
    rcases List.append_eq_append_iff.1 htail with ⟨rest, rfl, hpad⟩ | ⟨rest, rfl, rfl⟩
    · exact Or.inr ⟨rest, hpad, (List.append_assoc ..).symm⟩
    · -- the argument itself has no gap within
      rcases hitem.eq_nil_or_eq_nil hinner.of_append_right with rfl | rfl
      · exact Or.inl ⟨[], by simp, rfl⟩
      · exact Or.inr ⟨[], rfl, by simp⟩
  · exact Or.inl ⟨rest, hpad, rfl⟩

/-- No separator follows such a gap. -/
theorem isSeparator_behind {before behind : List Char} (h : p.around item = before ++ behind)
    (hgap : Gap before behind) {c : Char} (hc : c ∈ behind.head?) : isSeparator c = false := by
  rcases gap_in_pad hitem p h hgap with ⟨rest, hpad, rfl⟩ | ⟨rest, hpad, -⟩
  · cases rest with
    | nil =>
      rw [List.nil_append, List.head?_append, Option.mem_def, Option.or_eq_some_iff] at hc
      rcases hc with hc | ⟨hnil, -⟩
      · exact hitem.isSeparator_head hc
      · exact absurd (List.head?_eq_none_iff.1 hnil) hitem.ne_nil
    | cons d rest =>
      obtain rfl := Option.some.inj hc
      exact (plain_blanks p.before d (by rw [hpad]; simp)).2
  · exact (plain_blanks p.behind c
      (by rw [hpad]; exact List.mem_append_right rest (List.mem_of_head? hc))).2

theorem exists_getLast_around :
    ∃ c, (p.around item).getLast? = some c ∧ isSeparator c = false := by
  rw [Pad.around, List.getLast?_append]
  cases hbehind : p.behind.1.getLast? with
  | none =>
    obtain ⟨c, hlast, hc⟩ := hitem.exists_getLast
    exact ⟨c, by rw [Option.none_or, List.getLast?_append, hlast]; rfl, hc⟩
  | some c => exact ⟨c, rfl, (plain_blanks p.behind c (List.mem_of_getLast? hbehind)).2⟩

theorem exists_around_widened (b : Blanks) {before behind : List Char}
    (h : p.around item = before ++ behind) (hgap : Gap before behind) :
    ∃ wide : Pad, wide.around item = before ++ b ++ behind := by
  rcases gap_in_pad hitem p h hgap with ⟨rest, hpad, rfl⟩ | ⟨rest, hpad, rfl⟩
  · obtain ⟨wide, hwide⟩ := exists_blanks_widened b p.before hpad
    exact ⟨⟨wide, p.behind⟩, by simp [Pad.around, hwide]⟩
  · obtain ⟨wide, hwide⟩ := exists_blanks_widened b p.behind hpad
    exact ⟨⟨p.before, wide⟩, by simp [Pad.around, hwide]⟩

/-- A gap in front of the comma behind an argument is one in the argument's blanks. -/
theorem gap_in_first (b : Blanks) {tail rest before behind : List Char}
    (htail : Continues tail rest) (h : p.around item ++ tail = before ++ behind)
    (hgap : Gap before behind) :
    ((∃ wide : Pad, wide.around item ++ tail = before ++ b ++ behind) ∧ ')' ∉ behind.head?) ∨
      ∃ more, tail = ',' :: rest ∧ before = p.around item ++ ',' :: more ∧
        rest = more ++ behind := by
  cases htail with
  | ends =>
    rw [List.append_nil] at h
    obtain ⟨wide, hwide⟩ := exists_around_widened hitem p b h hgap
    refine Or.inl ⟨⟨wide, by rw [hwide, List.append_nil]⟩, fun hc => ?_⟩
    exact absurd (isSeparator_behind hitem p h hgap hc) (by decide)
  | more =>
    rcases split_at_mark h with ⟨within, hfirst, rfl⟩ | ⟨more, hbefore, hrest⟩
    · have hinner := hgap.of_append_right
      obtain ⟨wide, hwide⟩ := exists_around_widened hitem p b hfirst hinner
      refine Or.inl ⟨⟨wide, by rw [hwide, List.append_assoc]⟩, fun hc => ?_⟩
      rw [List.head?_append, Option.mem_def, Option.or_eq_some_iff] at hc
      rcases hc with hc | ⟨-, hc⟩
      · exact absurd (isSeparator_behind hitem p hfirst hinner hc) (by decide)
      · cases hc
    · exact Or.inr ⟨more, rfl, hbefore, hrest⟩

end Around

/-! ### Gaps between arguments -/

/-- Blanks in a gap between arguments are blanks around one of them, but behind a closing comma. No
bracket follows such a gap. -/
theorem exists_laid_widened (b : Blanks) {parts : List (Pad × List Char)} (comma : Bool)
    (hne : parts ≠ []) (hparts : ∀ part ∈ parts, Argument part.2) {before behind : List Char}
    (h : laid parts ++ closing comma = before ++ behind) (hgap : Gap before behind)
    (hopen : comma = true → behind ≠ []) :
    (∃ wide : List (Pad × List Char), wide.map (·.2) = parts.map (·.2) ∧
      laid wide ++ closing comma = before ++ b ++ behind) ∧ ')' ∉ behind.head? := by
  induction parts generalizing before with
  | nil => exact absurd rfl hne
  | cons part parts ih =>
    obtain ⟨p, item⟩ := part
    have hitem : Argument item := hparts (p, item) (List.mem_cons_self ..)
    cases parts with
    | nil =>
      rw [laid_singleton] at h
      rcases gap_in_first hitem p b (continues_closing comma) h hgap with
        ⟨⟨wide, hwide⟩, hbracket⟩ | ⟨more, hcomma, -, hrest⟩
      · exact ⟨⟨[(wide, item)], rfl, by rw [laid_singleton, hwide]⟩, hbracket⟩
      · cases comma with
        | false => cases hcomma
        | true => exact absurd (List.append_eq_nil_iff.1 hrest.symm).2 (hopen rfl)
    | cons next parts =>
      have hmore := List.cons_ne_nil next parts
      rw [laid_cons _ hmore, List.append_assoc, List.cons_append] at h
      rcases gap_in_first hitem p b (.more _) h hgap with
        ⟨⟨wide, hwide⟩, hbracket⟩ | ⟨more, -, rfl, hrest⟩
      · refine ⟨⟨(wide, item) :: next :: parts, rfl, ?_⟩, hbracket⟩
        rw [laid_cons _ hmore, List.append_assoc, List.cons_append, hwide]
      · -- behind the first comma the place is outside again, and the gap is one of the other parts
        have houtside : Place.outside.behind (p.around item ++ [',']) = .outside := by
          rw [Place.behind_append, behind_around hitem p]
          rfl
        rw [List.append_cons] at hgap
        obtain ⟨⟨wide, hitems, hwide⟩, hbracket⟩ := ih hmore
          (fun other hother => hparts other (List.mem_cons_of_mem _ hother)) hrest
          (hgap.of_append_left houtside)
        have hwidene : wide ≠ [] := by
          intro hnil
          rw [hnil] at hitems
          cases hitems
        refine ⟨⟨(p, item) :: wide, by rw [List.map_cons, hitems]; rfl, ?_⟩, hbracket⟩
        rw [laid_cons _ hwidene, List.append_assoc, List.cons_append, hwide]
        simp

theorem exists_getLast_laid {parts : List (Pad × List Char)} (hne : parts ≠ [])
    (hparts : ∀ part ∈ parts, Argument part.2) :
    ∃ c, (laid parts).getLast? = some c ∧ isSeparator c = false := by
  induction parts with
  | nil => exact absurd rfl hne
  | cons part parts ih =>
    cases parts with
    | nil =>
      rw [laid_singleton]
      exact exists_getLast_around (hparts part (List.mem_cons_self ..)) part.1
    | cons next parts =>
      have hmore := List.cons_ne_nil next parts
      obtain ⟨c, hlast, hc⟩ :=
        ih hmore fun other hother => hparts other (List.mem_cons_of_mem _ hother)
      refine ⟨c, ?_, hc⟩
      rw [laid_cons _ hmore, List.getLast?_append, List.getLast?_cons, hlast]
      rfl

/-! ### Blanks behind the closing comma -/

section ClosingBlanks

variable (whole : List Char) (b : Blanks) {c : Char} (hlast : b.1.getLast? = some c)

include hlast

/-- Blanks alone are an argument: the last one of them. -/
theorem exists_segment_of_blanks :
    ∃ part : Pad × List Char, Segment part ∧ part.1.around part.2 = b ∧ part.2 = [c] := by
  have hsplit : b.1.dropLast ++ [c] = b := List.dropLast_append_getLast? c hlast
  have hbefore : ∀ d ∈ b.1.dropLast, isBlank d = true :=
    fun d hd => b.2 d (List.dropLast_subset _ hd)
  refine ⟨_, .blank ⟨b.1.dropLast, hbefore⟩ (b.2 c (List.mem_of_getLast? hlast)), ?_, rfl⟩
  rw [Pad.around, List.append_nil]
  exact hsplit

theorem splitRest_laid_blanks {parts : List (Pad × List Char)} (hne : parts ≠ [])
    (hparts : ∀ part ∈ parts, Argument part.2) :
    splitRest whole (laid parts ++ ',' :: b) = .ok (parts.map (·.2) ++ [[c]]) := by
  obtain ⟨part, hpart, haround, hitem⟩ := exists_segment_of_blanks b hlast
  have hsegments : ∀ other ∈ parts ++ [part], Segment other := by
    intro other hother
    rcases List.mem_append.1 hother with hother | hother
    · exact (hparts other hother).segment other.1
    · exact List.mem_singleton.1 hother ▸ hpart
  have hlaid := splitRest_laid whole (parts ++ [part]) false (by simp) hsegments
  rw [laid_concat hne, haround, List.map_append, List.map_singleton, hitem] at hlaid
  simpa [closing] using hlaid

end ClosingBlanks

end Arguments

theorem dropMapWord_append {items : List (List Char)} (h : items ≠ []) (more : List (List Char)) :
    dropMapWord (items ++ more) = dropMapWord items ++ more := by
  cases items with
  | nil => exact absurd rfl h
  | cons item items =>
    rw [List.cons_append, dropMapWord, dropMapWord]
    split <;> rfl

/-- A blank behind the arguments of a clause is refused as a term. -/
theorem Clause.ofArguments_blank (clause : Clause) (text : String) {c : Char}
    (hc : isQuote c = false) :
    ofArguments text (clause.items ++ [[c]]) = .error (.quotedExpected (String.singleton c)) := by
  let behind := (if clause.marked then [mapWord] else []) ++ clause.literals
  have hliterals := mapM_unquote _ _ clause.written
  have hitems : clause.items ++ [[c]] =
      clause.field.toList.map String.toList ++ clause.digits :: (behind ++ [[c]]) := by
    simp [items, argumentList, behind]
  have htake : takeField (clause.items ++ [[c]]) =
      (clause.field.toList, clause.digits :: (behind ++ [[c]])) := by
    rw [hitems]
    exact takeField_append _ clause.named _ _ (isFieldName_of_isDigit _ clause.counted.2.1)
  have hdistance : takeDistance text (clause.digits :: (behind ++ [[c]])) =
      .ok (digitsValue clause.digits, behind ++ [[c]]) :=
    (takeDistance_eq_ok_iff ..).2 ⟨_, rfl, clause.counted, rfl⟩
  have hne : behind ≠ [] := by
    intro hnil
    have hempty := (List.append_eq_nil_iff.1 hnil).2
    have hwritten := clause.written
    rw [hempty, List.forall₂_nil_left_iff, List.map_eq_nil_iff] at hwritten
    exact clause.terms_ne_nil hwritten
  have hdrop : dropMapWord (behind ++ [[c]]) = clause.literals ++ [[c]] := by
    rw [dropMapWord_append hne, dropMapWord_of_unquoted _ _ _ hliterals]
  have hblank : [[c]].mapM Literal.unquote = .error (.quotedExpected (String.singleton c)) := by
    rw [List.mapM_cons, Literal.unquote, hc, String.singleton_eq_ofList]
    rfl
  rw [ofArguments_eq_bind text _ _ _ htake, hdistance]
  show ((dropMapWord (behind ++ [[c]])).mapM Literal.unquote).bind _ = _
  rw [hdrop, List.mapM_append, hliterals, hblank]
  rfl

/-! ### Gaps in a sentence -/

theorem plain_of_isForm (letter c : Char) (h : Frame.isForm letter c = true)
    (hletter : letter ∈ "content".toList ++ "within".toList) :
    isQuote c = false ∧ isSeparator c = false := by
  have hforms : (("content".toList ++ "within".toList).all fun letter =>
      [letter, letter.toUpper, '\u0130', '\u0131'].all fun form =>
        !isQuote form && !isSeparator form) = true := by decide
  have hform : c ∈ [letter, letter.toUpper, '\u0130', '\u0131'] := by
    simp only [Frame.isForm, Bool.or_eq_true, Bool.and_eq_true, decide_eq_true_eq] at h
    rcases h with (rfl | rfl) | ⟨-, rfl | rfl⟩ <;> simp
  have hplain := List.all_eq_true.1 (List.all_eq_true.1 hforms letter hletter) c hform
  rwa [Bool.and_eq_true, Bool.not_eq_true', Bool.not_eq_true'] at hplain

theorem plain_spelling {word : String} (w : Spelling word)
    (hword : word.toList ⊆ "content".toList ++ "within".toList) : Plain w := by
  intro c hc
  obtain ⟨i, hi, rfl⟩ := List.getElem_of_mem hc
  have hlength := w.2.length_eq
  have hform := List.forall₂_iff_get.1 w.2
  exact plain_of_isForm _ _ (hform.2 i (hlength ▸ hi) hi) (hword (List.getElem_mem _))

namespace Sentence

variable (s : Sentence)

/-- What stands in front of the opening bracket. -/
def front : List Char := s.whole.before ++ (s.preamble.text ++ s.word ++ s.gap)

theorem toList_text :
    s.text.toList = s.front ++ '(' :: (s.inner ++ ')' :: s.whole.behind) := by
  simp [text, Pad.around, front]

theorem plain_front : Plain s.front := by
  have hpreamble : Plain s.preamble.text := by
    cases s.preamble with
    | none => exact nofun
    | some lead =>
      have hcolon : Plain [':'] := by
        intro c hc
        obtain rfl := List.mem_singleton.1 hc
        decide
      refine (plain_spelling lead.1 (List.subset_append_left ..)).append ?_
      exact ((plain_blanks _).append hcolon).append (plain_blanks _)
  have hword : Plain s.word := plain_spelling s.word (List.subset_append_right ..)
  exact (plain_blanks _).append ((hpreamble.append hword).append (plain_blanks _))

/-- The gaps of a sentence: at its start, before and behind the opening bracket up to the closing
one, and behind that. -/
inductive Spot (s : Sentence) : List Char → List Char → Prop where
  | start : Spot s [] s.text.toList
  | opening : Spot s s.front ('(' :: (s.inner ++ ')' :: s.whole.behind))
  | within {before behind : List Char} (h : s.inner = before ++ behind)
      (hgap : Gap before behind) :
      Spot s (s.front ++ '(' :: before) (behind ++ ')' :: s.whole.behind)
  | ending {before behind : List Char} (h : s.whole.behind.1 = before ++ behind) :
      Spot s (s.front ++ '(' :: (s.inner ++ ')' :: before)) behind

theorem spot_of_gap {before behind : List Char} (h : s.text.toList = before ++ behind)
    (hgap : Gap before behind) : Spot s before behind := by
  have htext := s.toList_text.symm.trans h
  rcases split_at_mark htext with ⟨rest, hfront, rfl⟩ | ⟨rest, rfl, hrest⟩
  · have hplain : Plain (before ++ rest) := hfront ▸ s.plain_front
    rcases hplain.eq_nil_or_eq_nil hgap.of_append_right with rfl | rfl
    · rw [← List.nil_append (rest ++ _), ← h]
      exact .start
    · rw [List.append_nil] at hfront
      rw [← hfront]
      exact .opening
  · rcases split_at_mark hrest with ⟨within, hinner, rfl⟩ | ⟨more, rfl, hmore⟩
    · have hopened : Place.outside.behind (s.front ++ ['(']) = .outside := by
        rw [Place.behind_append, s.plain_front.behind_eq]
        rfl
      rw [List.append_cons] at hgap
      exact .within hinner (hgap.of_append_left hopened).of_append_right
    · exact .ending hmore

/-- Blanks in a gap of a sentence, but behind a closing comma, give another sentence that says the
same. -/
theorem exists_widened (b : Blanks) {before behind : List Char}
    (h : s.text.toList = before ++ behind) (hgap : Gap before behind)
    (hopen : ¬ClosingGap before behind) :
    ∃ wide : Sentence, wide.text = String.ofList (before ++ b ++ behind) ∧
      wide.query = s.query := by
  have houtside := hgap.outside
  cases s.spot_of_gap h hgap with
  | start =>
    obtain ⟨wide, hwide⟩ := exists_blanks_widened b s.whole.before (List.nil_append _).symm
    refine ⟨{ s with whole := ⟨wide, s.whole.behind⟩ }, String.toList_inj.1 ?_, rfl⟩
    rw [toList_text, toList_text, String.toList_ofList]
    simp [front, inner, hwide]
  | opening =>
    obtain ⟨wide, hwide⟩ := exists_blanks_widened b s.gap (List.append_nil _).symm
    refine ⟨{ s with gap := wide }, String.toList_inj.1 ?_, rfl⟩
    rw [toList_text, String.toList_ofList]
    simp [front, inner, hwide]
  | @within before behind hinner hinside =>
    have hcomma : s.comma = true → behind ≠ [] := by
      intro hcomma hnil
      subst hnil
      refine hopen ⟨houtside, ?_, rfl⟩
      rw [List.append_nil] at hinner
      have hclosed : before = Arguments.laid s.arguments ++ [','] := by
        rw [← hinner, inner, hcomma]
        rfl
      rw [hclosed, ← List.cons_append, ← List.append_assoc, List.getLast?_concat]
    obtain ⟨⟨wide, hitems, hwide⟩, -⟩ := Arguments.exists_laid_widened b s.comma
      s.arguments_ne_nil s.argument_of_mem hinner hinside hcomma
    let widened : Sentence := { s with
      arguments := wide, arguments_eq := hitems.trans s.arguments_eq }
    have hwidened : widened.inner = before ++ b ++ behind := hwide
    refine ⟨widened, String.toList_inj.1 ?_, rfl⟩
    rw [toList_text, hwidened, String.toList_ofList]
    simp [widened, front]
  | ending hwhole =>
    obtain ⟨wide, hwide⟩ := exists_blanks_widened b s.whole.behind hwhole
    refine ⟨{ s with whole := ⟨s.whole.before, wide⟩ }, String.toList_inj.1 ?_, rfl⟩
    rw [toList_text, String.toList_ofList]
    simp [front, inner, hwide]

/-- The gap behind a closing comma ends the arguments. -/
theorem spot_of_closingGap {before behind : List Char} (h : s.text.toList = before ++ behind)
    (hgap : ClosingGap before behind) :
    s.comma = true ∧ before = s.front ++ '(' :: s.inner ∧ behind = ')' :: s.whole.behind := by
  have hcomma := hgap.comma
  have hbracket := hgap.bracket
  cases s.spot_of_gap h hgap.gap with
  | start => cases hcomma
  | opening => cases hbracket
  | @within before behind hinner hinside =>
    have hparts := s.argument_of_mem
    -- a bracket behind the gap is the closing one, so that the gap ends the arguments
    cases behind with
    | nil =>
      rw [List.append_nil] at hinner
      subst hinner
      refine ⟨?_, rfl, rfl⟩
      by_contra hopen
      have hlaid : s.inner = Arguments.laid s.arguments := by
        rw [inner, Bool.eq_false_iff.2 hopen]
        exact List.append_nil _
      obtain ⟨c, hlast, hc⟩ := Arguments.exists_getLast_laid s.arguments_ne_nil hparts
      rw [hlaid, List.getLast?_append, List.getLast?_cons, hlast] at hcomma
      obtain rfl := Option.some.inj hcomma
      exact absurd hc (by decide)
    | cons c behind =>
      have hfree := (Arguments.exists_laid_widened .none s.comma s.arguments_ne_nil hparts
        hinner hinside fun _ => List.cons_ne_nil c behind).2
      exact absurd hbracket hfree
  | ending hwhole =>
    have hmem : ')' ∈ s.whole.behind.1 := by
      rw [hwhole]
      exact List.mem_append_right _ (List.mem_of_head? hbracket)
    exact absurd (plain_blanks _ _ hmem).2 (by decide)

/-- A blank behind a closing comma is refused. -/
theorem ofText_blank {before behind : List Char} (b : Blanks) {c : Char}
    (h : s.text.toList = before ++ behind) (hgap : ClosingGap before behind)
    (hlast : b.1.getLast? = some c) :
    ofText (String.ofList (before ++ b ++ behind)) =
      .error (.quotedExpected (String.singleton c)) := by
  obtain ⟨hcomma, rfl, rfl⟩ := s.spot_of_closingGap h hgap
  let inner := Arguments.laid s.arguments ++ ',' :: b.1
  have hframe : Frame.arguments? (String.ofList (s.front ++ '(' :: s.inner ++ b ++
      ')' :: s.whole.behind)).toList = some inner := by
    rw [Frame.arguments?_eq_some_iff, String.toList_ofList]
    refine ⟨s.whole, s.preamble, s.word, s.gap, ?_⟩
    simp [front, Sentence.inner, hcomma, Arguments.closing, Pad.around, inner]
  have hsplit : Arguments.split inner = .ok (s.clause.items ++ [[c]]) := by
    rw [← s.arguments_eq]
    exact Arguments.splitRest_laid_blanks inner b hlast s.arguments_ne_nil s.argument_of_mem
  have hquote := isQuote_of_isBlank c (b.2 c (List.mem_of_getLast? hlast))
  rw [ofText, hframe]
  show (Arguments.split inner).bind _ = _
  rw [hsplit]
  exact s.clause.ofArguments_blank _ hquote

end Sentence

/-! ### A query with a closing comma -/

theorem writes_a : Literal.Writes ['\'', 'a', '\''] ['a'] :=
  ⟨'\'', ['a'], rfl, rfl, .plain 'a' (by decide) (by decide) .nil⟩

theorem isDistance_two : IsDistance ['2'] := by
  have hdigit : isDigit '2' = true := by decide
  exact ⟨List.cons_ne_nil _ _, fun c hc => by rwa [List.mem_singleton.1 hc], by decide⟩

theorem ofText_closing_comma : ofText "within(2, 'a',)" = .ok ⟨.whole 2, ["a"], []⟩ := by
  let clause : Clause :=
    { field := none
      digits := ['2']
      marked := false
      literals := [['\'', 'a', '\'']]
      terms := ["a"]
      named := nofun
      counted := isDistance_two
      written := .cons writes_a .nil
      terms_ne_nil := List.cons_ne_nil _ _ }
  let sentence : Sentence :=
    { whole := ⟨.none, .none⟩
      preamble := none
      word := ⟨"within".toList, by decide⟩
      gap := .none
      clause := clause
      arguments := [(⟨.none, .none⟩, ['2']), (⟨.space, .none⟩, ['\'', 'a', '\''])]
      comma := true
      arguments_eq := rfl }
  have hdigits : digitsValue ['2'] = 2 := by decide
  have htext : sentence.text = "within(2, 'a',)" := by decide
  rw [← htext, sentence.ofText_text]
  show Except.ok (⟨.whole (digitsValue ['2']), ["a"], []⟩ : Query) = _
  rw [hdigits]
  rfl

theorem closing_blank_eq :
    String.ofList ("within(2, 'a',".toList ++ [' '] ++ ")".toList) = "within(2, 'a', )" := by
  decide

theorem closingGap_closing_comma : ClosingGap "within(2, 'a',".toList ")".toList where
  outside := rfl
  comma := rfl
  bracket := rfl

/-! ### Wider texts -/

/-- Blanks put beside the separators of a query that is read change nothing, however many are put
in turn, but for those between a closing comma and the bracket: there the last of them is refused
as a term. -/
theorem ofText_widened (text : String) (q : Query) (h : ofText text = .ok q) :
    (∀ wider, Relation.ReflTransGen Widens text wider → ofText wider = .ok q) ∧
    ∀ (before behind : List Char) (b : Blanks) (c : Char), text.toList = before ++ behind →
      ClosingGap before behind → b.1.getLast? = some c →
        ofText (String.ofList (before ++ b ++ behind)) =
          .error (.quotedExpected (String.singleton c)) := by
  refine ⟨fun wider hwider => ?_, fun before behind b c htext hgap hlast => ?_⟩
  · induction hwider with
    | refl => exact h
    | tail _ hstep ih =>
      obtain ⟨before, behind, b, htext, hgap, hopen, rfl⟩ := hstep
      obtain ⟨s, rfl, rfl⟩ := exists_sentence ih
      obtain ⟨wide, hwide, hquery⟩ := s.exists_widened b htext hgap hopen
      rw [← hwide, ← hquery]
      exact wide.ofText_text
  · obtain ⟨s, rfl, -⟩ := exists_sentence h
    exact s.ofText_blank b htext hgap hlast

/-- The query of one term with a comma behind it, with blanks on either side of its literal and
with a blank behind that comma. -/
theorem ofText_widened_closing_comma :
    ofText "within(2, 'a',)" = .ok ⟨.whole 2, ["a"], []⟩ ∧
    ofText "within(2,  'a' ,)" = .ok ⟨.whole 2, ["a"], []⟩ ∧
    ofText "within(2, 'a', )" = .error (.quotedExpected " ") := by
  obtain ⟨hsame, hrefused⟩ := ofText_widened _ _ ofText_closing_comma
  have hfirst : Widens "within(2, 'a',)" "within(2,  'a',)" := by
    refine ⟨"within(2,".toList, " 'a',)".toList, .space, rfl, ⟨rfl, ?_⟩, ?_, rfl⟩
    · refine Or.inl fun c hc => ?_
      obtain rfl := Option.some.inj hc
      rfl
    · exact fun h => absurd h.bracket (by decide)
  have hsecond : Widens "within(2,  'a',)" "within(2,  'a' ,)" := by
    refine ⟨"within(2,  'a'".toList, ",)".toList, .space, rfl, ⟨rfl, ?_⟩, ?_, rfl⟩
    · refine Or.inr fun c hc => ?_
      obtain rfl := Option.some.inj hc
      rfl
    · exact fun h => absurd h.comma (by decide)
  refine ⟨ofText_closing_comma, hsame _ ((Relation.ReflTransGen.single hfirst).tail hsecond), ?_⟩
  rw [← closing_blank_eq]
  exact hrefused _ _ .space ' ' (by decide) closingGap_closing_comma rfl

/-- Not all blanks beside a separator change nothing: this query is read, and refused with a blank
behind its last comma. -/
theorem ofText_closing_blank :
    ofText "within(2, 'a',)" = .ok ⟨.whole 2, ["a"], []⟩ ∧
    Gap "within(2, 'a',".toList ")".toList ∧
    ofText "within(2, 'a', )" = .error (.quotedExpected " ") := by
  refine ⟨ofText_closing_comma, closingGap_closing_comma.gap, ?_⟩
  obtain ⟨s, hs, -⟩ := exists_sentence ofText_closing_comma
  rw [← closing_blank_eq]
  exact s.ofText_blank .space (by rw [hs]; decide) closingGap_closing_comma rfl

end TermWindow.Query
