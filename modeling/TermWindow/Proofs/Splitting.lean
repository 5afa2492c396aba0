import TermWindow.Proofs.Literals

/-!
# Splitting arguments

Literals and texts without quote marks with commas between them, each with any blanks around it, are
split into just these arguments, also where one more comma ends the text. Where only blanks stand
between two commas, the argument is the last of them.
-/

namespace TermWindow.Query

open Text

abbrev Blanks := {cs : List Char // ∀ c ∈ cs, isBlank c = true}

def Blanks.none : Blanks := ⟨[], nofun⟩

theorem isBlank_space (c : Char) (h : c ∈ [' ']) : isBlank c = true := by
  obtain rfl := List.mem_singleton.1 h
  decide

def Blanks.space : Blanks := ⟨[' '], isBlank_space⟩

/-- The blanks before and behind a part of a text. -/
structure Pad where
  before : Blanks
  behind : Blanks

def Pad.around (p : Pad) (cs : List Char) : List Char := p.before ++ cs ++ p.behind

theorem dropBlanks_append (b : Blanks) (cs : List Char) :
    dropBlanks (b ++ cs) = dropBlanks cs := by
  rw [dropBlanks, List.dropWhile_append_of_pos b.2]
  rfl

theorem dropBlanks_cons (c : Char) (cs : List Char) (h : isBlank c = false) :
    dropBlanks (c :: cs) = c :: cs := by
  rw [dropBlanks, List.dropWhile_cons_of_neg (by rw [h]; decide)]

namespace Arguments

/-- An argument that stands for itself: a word, or several with dots between them. -/
def Bare (item : List Char) : Prop := item ≠ [] ∧ ∀ c ∈ item, isWord c = true ∨ c = '.'

def Argument (item : List Char) : Prop := Literal.isLiteral item = true ∨ Bare item

/-- A text without commas and quote marks that neither begins nor ends with a blank. -/
structure Trimmed (item : List Char) : Prop where
  ne_nil : item ≠ []
  free : ∀ c ∈ item, c ≠ ',' ∧ isQuote c = false
  first : ∀ c ∈ item.head?, isBlank c = false
  last : ∀ c ∈ item.getLast?, isBlank c = false

/-- An argument with the blanks around it, as it may stand between two commas: a literal, a text
that is not quoted, or the last of nothing but blanks. -/
inductive Segment : Pad × List Char → Prop where
  | literal (p : Pad) {item text : List Char} (h : Literal.Writes item text) : Segment (p, item)
  | plain (p : Pad) {item : List Char} (h : Trimmed item) : Segment (p, item)
  | blank (b : Blanks) {c : Char} (h : isBlank c = true) : Segment (⟨b, ⟨[], by simp⟩⟩, [c])

/-- The text behind an argument: its end, or a comma and more. -/
inductive Continues : List Char → List Char → Prop where
  | ends : Continues [] []
  | more (rest : List Char) : Continues (',' :: rest) rest

section Bare

variable {item : List Char} (h : Bare item)

include h

theorem Bare.isBlank_eq_false (c : Char) (hc : c ∈ item) : isBlank c = false := by
  rcases h.2 c hc with hw | rfl
  · exact isBlank_of_isWord c hw
  · decide

theorem Bare.ne_comma (c : Char) (hc : c ∈ item) : c ≠ ',' := by
  rcases h.2 c hc with hw | rfl
  · exact ne_comma_of_isWord c hw
  · decide

theorem Bare.isQuote_eq_false (c : Char) (hc : c ∈ item) : isQuote c = false := by
  rcases h.2 c hc with hw | rfl
  · exact isQuote_of_isWord c hw
  · decide

theorem Bare.trimmed : Trimmed item where
  ne_nil := h.1
  free c hc := ⟨h.ne_comma c hc, h.isQuote_eq_false c hc⟩
  first c hc := h.isBlank_eq_false c (List.mem_of_head? hc)
  last c hc := h.isBlank_eq_false c (List.mem_of_getLast? hc)

end Bare

theorem Trimmed.dropBlanks_append {item : List Char} (h : Trimmed item) (rest : List Char) :
    dropBlanks (item ++ rest) = item ++ rest := by
  cases item with
  | nil => exact absurd rfl h.ne_nil
  | cons c cs => exact dropBlanks_cons c _ (h.first c rfl)

theorem dropBlanks_literal {item : List Char} (h : Literal.isLiteral item = true)
    (rest : List Char) : dropBlanks (item ++ rest) = item ++ rest := by
  obtain ⟨mark, body, rfl, hm⟩ := Literal.exists_mark_of_isLiteral item h
  exact dropBlanks_cons mark _ (isBlank_of_isQuote mark hm)

theorem Argument.ne_nil {item : List Char} (h : Argument item) : item ≠ [] := by
  rcases h with h | h
  · obtain ⟨mark, body, rfl, -⟩ := Literal.exists_mark_of_isLiteral item h
    exact List.cons_ne_nil mark body
  · exact h.1

theorem Argument.segment {item : List Char} (h : Argument item) (p : Pad) : Segment (p, item) := by
  rcases h with h | h
  · obtain ⟨text, hwrites⟩ := Literal.exists_writes_of_isLiteral item h
    exact .literal p hwrites
  · exact .plain p h.trimmed

theorem isMalformed_of_unquoted {item : List Char} (h : ∀ c ∈ item, isQuote c = false) :
    isMalformed item = false := by
  have hquotes : item.any isQuote = false := by
    rw [List.any_eq_false]
    intro c hc
    rw [h c hc]
    decide
  rw [isMalformed, hquotes]
  rfl

theorem Segment.isMalformed_eq_false {part : Pad × List Char} (h : Segment part) :
    isMalformed part.2 = false := by
  cases h with
  | literal p h =>
    rw [isMalformed, ((Literal.writes_iff ..).1 h).1]
    simp
  | plain p h => exact isMalformed_of_unquoted fun c hc => (h.free c hc).2
  | blank b h =>
    refine isMalformed_of_unquoted fun c hc => ?_
    obtain rfl := List.mem_singleton.1 hc
    exact isQuote_of_isBlank c h

/-! ### One argument -/

theorem afterComma?_of_continues (b : Blanks) {tail rest : List Char}
    (h : Continues tail rest) : afterComma? (b ++ tail) = some rest := by
  rw [afterComma?, dropBlanks_append]
  cases h with
  | ends => rfl
  | more rest => rfl

theorem trimEnd_append (cs : List Char) (b : Blanks)
    (h : ∀ c ∈ cs.getLast?, isBlank c = false) : trimEnd (cs ++ b) = cs := by
  have hb : ∀ c ∈ b.1.reverse, isBlank c = true := fun c hc => b.2 c (List.mem_reverse.1 hc)
  rw [trimEnd, List.reverse_append, List.dropWhile_append_of_pos hb]
  have hkeep : cs.reverse.dropWhile isBlank = cs.reverse := by
    cases hcs : cs.reverse with
    | nil => rfl
    | cons c rest =>
      have hc : cs.getLast? = some c := by rw [List.getLast?_eq_head?_reverse, hcs]; rfl
      rw [List.dropWhile_cons_of_neg]
      rw [h c hc]
      decide
  rw [hkeep, List.reverse_reverse]

theorem takeWhile_of_continues (cs : List Char) (hcs : ∀ c ∈ cs, c ≠ ',') {tail rest : List Char}
    (h : Continues tail rest) :
    (cs ++ tail).takeWhile (· ≠ ',') = cs ∧ ((cs ++ tail).dropWhile (· ≠ ',')).drop 1 = rest := by
  have hall : ∀ c ∈ cs, decide (c ≠ ',') = true := fun c hc => decide_eq_true (hcs c hc)
  rw [List.takeWhile_append_of_pos hall, List.dropWhile_append_of_pos hall]
  cases h with
  | ends => simp
  | more rest => simp

theorem next?_literal {item : List Char} (h : Literal.isLiteral item = true) (p : Pad)
    {tail rest : List Char} (ht : Continues tail rest) :
    next? (p.around item ++ tail) = some (item, rest) := by
  have hstart : dropBlanks (p.around item ++ tail) = item ++ (p.behind ++ tail) := by
    rw [Pad.around, List.append_assoc, List.append_assoc, dropBlanks_append, dropBlanks_literal h]
  have hfirst : literal? (item ++ (p.behind ++ tail)) = some (item, rest) := by
    rw [literal?, Literal.split?_of_isLiteral item h]
    show (afterComma? (p.behind ++ tail)).bind _ = _
    rw [afterComma?_of_continues p.behind ht]
    rfl
  rw [next?, hstart, hfirst, Option.some_or]

theorem next?_trimmed {item : List Char} (h : Trimmed item) (p : Pad) {tail rest : List Char}
    (ht : Continues tail rest) : next? (p.around item ++ tail) = some (item, rest) := by
  have hstart : dropBlanks (p.around item ++ tail) = (item ++ p.behind) ++ tail := by
    rw [Pad.around, List.append_assoc, List.append_assoc, dropBlanks_append,
      h.dropBlanks_append, List.append_assoc]
  have hnone : literal? (item ++ p.behind ++ tail) = none := by
    cases item with
    | nil => exact absurd rfl h.ne_nil
    | cons c cs =>
      have hc := (h.free c (List.mem_cons_self ..)).2
      simp [literal?, Literal.split?, hc]
  have hcommas : ∀ c ∈ item ++ p.behind, c ≠ ',' := by
    intro c hc
    rcases List.mem_append.1 hc with hc | hc
    · exact (h.free c hc).1
    · exact ne_comma_of_isBlank c (p.behind.2 c hc)
  obtain ⟨htake, hdrop⟩ := takeWhile_of_continues _ hcommas ht
  have hsegment : segment (p.around item ++ tail) = item ++ p.behind := by
    rw [segment, hstart, htake]
  have hne : (item ++ p.behind.1).isEmpty = false := by
    simp [h.ne_nil]
  rw [next?, hstart, hnone, Option.none_or, plain?, hsegment, hne, afterSegment, hstart, hdrop,
    trimEnd_append item p.behind h.last]
  rfl

theorem next?_blanks (b : Blanks) {c : Char} (hlast : b.1.getLast? = some c)
    {tail rest : List Char} (ht : Continues tail rest) : next? (b ++ tail) = some ([c], rest) := by
  have hdrop : dropBlanks tail = tail := by
    cases ht with
    | ends => rfl
    | more rest => exact dropBlanks_cons ',' rest (by decide)
  have hstart : dropBlanks (b ++ tail) = tail := (dropBlanks_append b tail).trans hdrop
  have htake : (b ++ tail).takeWhile isBlank = b := by
    have hnone : tail.takeWhile isBlank = [] := by
      cases ht with
      | ends => rfl
      | more rest => rfl
    rw [List.takeWhile_append_of_pos b.2, hnone, List.append_nil]
  have hnone : literal? tail = none := by
    cases ht with
    | ends => rfl
    | more rest => rfl
  obtain ⟨hsegment, hafter⟩ := takeWhile_of_continues [] (by simp) ht
  rw [List.nil_append] at hsegment hafter
  rw [next?, hstart, hnone, Option.none_or, plain?, segment, afterSegment, hstart, hsegment, hafter,
    htake, hlast]
  rfl

/-- A segment is the first argument of the text that it begins. -/
theorem next?_segment {part : Pad × List Char} (h : Segment part) {tail rest : List Char}
    (ht : Continues tail rest) : next? (part.1.around part.2 ++ tail) = some (part.2, rest) := by
  cases h with
  | literal p h => exact next?_literal ((Literal.writes_iff ..).1 h).1 p ht
  | plain p h => exact next?_trimmed h p ht
  | @blank b c h =>
    have hblanks : ∀ d ∈ b.1 ++ [c], isBlank d = true := by
      intro d hd
      rcases List.mem_append.1 hd with hd | hd
      · exact b.2 d hd
      · exact List.mem_singleton.1 hd ▸ h
    have hnext := next?_blanks ⟨b.1 ++ [c], hblanks⟩ List.getLast?_concat ht
    rw [Pad.around, List.append_nil]
    exact hnext

/-! ### All arguments -/

theorem splitRest_of_next? (whole : List Char) {rest item after : List Char}
    (hnext : next? rest = some (item, after)) (hformed : isMalformed item = false) :
    splitRest whole rest = (splitRest whole after).map (item :: ·) := by
  have hne : rest.isEmpty = false := by
    cases rest with
    | nil => exact absurd (next?_length_lt hnext) (Nat.not_lt_zero _)
    | cons c rest => rfl
  rw [splitRest, hne]
  simp only [Bool.false_eq_true, if_false]
  split
  · rename_i hnone
    rw [hnext] at hnone
    cases hnone
  · rename_i found tail hsome
    rw [hnext] at hsome
    obtain ⟨rfl, rfl⟩ := Prod.mk.inj (Option.some.inj hsome)
    rw [hformed]
    cases splitRest whole after <;> rfl

theorem splitRest_continues (whole : List Char) {part : Pad × List Char} (h : Segment part)
    {tail rest : List Char} (ht : Continues tail rest) :
    splitRest whole (part.1.around part.2 ++ tail) = (splitRest whole rest).map (part.2 :: ·) :=
  splitRest_of_next? whole (next?_segment h ht) h.isMalformed_eq_false

/-- Arguments with the blanks around each, and commas between them. -/
def laid (parts : List (Pad × List Char)) : List Char :=
  [','].intercalate (parts.map fun part => part.1.around part.2)

theorem laid_singleton (part : Pad × List Char) : laid [part] = part.1.around part.2 := by
  simp [laid]

theorem laid_cons (part : Pad × List Char) {parts : List (Pad × List Char)} (h : parts ≠ []) :
    laid (part :: parts) = part.1.around part.2 ++ ',' :: laid parts := by
  cases parts with
  | nil => exact absurd rfl h
  | cons next parts => simp [laid]

theorem laid_concat {parts : List (Pad × List Char)} (h : parts ≠ []) (part : Pad × List Char) :
    laid (parts ++ [part]) = laid parts ++ ',' :: part.1.around part.2 := by
  induction parts with
  | nil => exact absurd rfl h
  | cons first parts ih =>
    cases parts with
    | nil =>
      have hmore := List.cons_ne_nil part []
      rw [List.singleton_append, laid_cons first hmore, laid_singleton, laid_singleton]
    | cons next parts =>
      have hmore := List.cons_ne_nil next parts
      rw [List.cons_append, laid_cons first (by simp), ih hmore, laid_cons first hmore,
        List.append_assoc, List.cons_append]

/-- The comma behind all arguments, where there is one. -/
def closing (comma : Bool) : List Char := if comma then [','] else []

theorem continues_closing (comma : Bool) : Continues (closing comma) [] := by
  cases comma with
  | false => exact .ends
  | true => exact .more []

theorem splitRest_laid (whole : List Char) (parts : List (Pad × List Char)) (comma : Bool)
    (hne : parts ≠ []) (h : ∀ part ∈ parts, Segment part) :
    splitRest whole (laid parts ++ closing comma) = .ok (parts.map (·.2)) := by
  have hnil : splitRest whole [] = .ok [] := by simp [splitRest]
  induction parts with
  | nil => exact absurd rfl hne
  | cons part parts ih =>
    have hpart : Segment part := h part (List.mem_cons_self ..)
    -- a comma stands behind the last part only where all are closed with one
    cases parts with
    | nil =>
      rw [laid_singleton, splitRest_continues whole hpart (continues_closing comma), hnil]
      rfl
    | cons next parts =>
      have hmore := List.cons_ne_nil next parts
      have hrest := ih hmore fun other hother => h other (List.mem_cons_of_mem _ hother)
      rw [laid_cons _ hmore, List.append_assoc, List.cons_append,
        splitRest_continues whole hpart (.more _), hrest]
      rfl

end Arguments

end TermWindow.Query
