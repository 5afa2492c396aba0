import Mathlib.Data.List.Forall2
import TermWindow.Proofs.Phrases
import TermWindow.Proofs.Segments

/-!
# The grammar of queries

A text is read as a query just when it is a sentence: the word `within`, perhaps with the word
`content` and a colon in front, and between brackets the arguments that make up the query, with
commas between them. Every other text is refused, and the refusal says why.
-/

namespace TermWindow.Query

open Text

/-- The ways to write a word, each of its letters in some case. -/
abbrev Spelling (word : String) :=
  {cs : List Char // List.Forall₂ (fun letter c => Frame.isForm letter c = true) word.toList cs}

/-! ### The frame -/

namespace Frame

theorem isForm_iff (letter c : Char) (h : letter ≠ 'i') :
    isForm letter c = true ↔ c = letter ∨ c = letter.toUpper := by
  simp [isForm, h]

theorem isBlank_of_isForm (c : Char) (h : isForm 'w' c = true ∨ isForm 'c' c = true) :
    isBlank c = false := by
  rw [isForm_iff 'w' c (by decide), isForm_iff 'c' c (by decide)] at h
  rcases h with (rfl | rfl) | (rfl | rfl) <;> decide

theorem isForm_content_of_within (c : Char) (h : isForm 'w' c = true) : isForm 'c' c = false := by
  rw [isForm_iff 'w' c (by decide)] at h
  rcases h with rfl | rfl <;> decide

theorem exists_first_of_within (word : Spelling "within") :
    ∃ c rest, word.1 = c :: rest ∧ isForm 'w' c = true := by
  obtain ⟨cs, hcs⟩ := word
  cases hcs with
  | cons hfirst _ => exact ⟨_, _, rfl, hfirst⟩

theorem exists_first_of_content (word : Spelling "content") :
    ∃ c rest, word.1 = c :: rest ∧ isForm 'c' c = true := by
  obtain ⟨cs, hcs⟩ := word
  cases hcs with
  | cons hfirst _ => exact ⟨_, _, rfl, hfirst⟩

theorem afterWord?_eq_some_iff (word cs rest : List Char) :
    afterWord? word cs = some rest ↔
      ∃ w, List.Forall₂ (fun letter c => isForm letter c = true) word w ∧ cs = w ++ rest := by
  induction word generalizing cs with
  | nil =>
    simp only [afterWord?, Option.some.injEq, List.forall₂_nil_left_iff, exists_eq_left,
      List.nil_append]
  | cons letter word ih =>
    cases cs with
    | nil => simp [afterWord?, List.forall₂_cons_left_iff]
    | cons c cs =>
      rw [afterWord?]
      split
      · rename_i hform
        rw [ih]
        refine ⟨fun h => ?_, fun h => ?_⟩
        · obtain ⟨w, hw, rfl⟩ := h
          exact ⟨c :: w, .cons hform hw, rfl⟩
        · obtain ⟨w, hw, heq⟩ := h
          cases hw with
          | cons hd hw =>
            obtain ⟨rfl, rfl⟩ := List.cons.inj heq
            exact ⟨_, hw, rfl⟩
      · rename_i hform
        refine iff_of_false (by simp) fun h => ?_
        obtain ⟨w, hw, heq⟩ := h
        cases hw with
        | cons hd hw =>
          obtain ⟨rfl, rfl⟩ := List.cons.inj heq
          exact hform hd

theorem afterMark?_eq_some_iff (mark : Char) (hmark : isBlank mark = false)
    (cs rest : List Char) :
    afterMark? mark cs = some rest ↔ ∃ b : Blanks, cs = b ++ mark :: rest := by
  refine ⟨fun h => ?_, fun h => ?_⟩
  · obtain ⟨b, hb⟩ := exists_blanks cs
    rw [afterMark?] at h
    split at h
    · cases h
    · rename_i c found hstart
      split at h
      · obtain rfl := Option.some.inj h
        subst c
        exact ⟨b, by rw [← hstart]; exact hb⟩
      · cases h
  · obtain ⟨b, rfl⟩ := h
    rw [afterMark?, dropBlanks_append, dropBlanks_cons mark rest hmark]
    exact if_pos rfl

theorem beforeClosing?_eq_some_iff (cs inner : List Char) :
    beforeClosing? cs = some inner ↔ ∃ b : Blanks, cs = inner ++ ')' :: b := by
  refine ⟨fun h => ?_, fun h => ?_⟩
  · obtain ⟨b, hb⟩ := exists_blanks_behind cs
    rw [beforeClosing?] at h
    split at h
    · rename_i rest hback
      obtain rfl := Option.some.inj h
      rw [hback, List.reverse_cons, List.append_assoc] at hb
      exact ⟨b, hb⟩
    · cases h
  · obtain ⟨b, rfl⟩ := h
    have hb : ∀ c ∈ b.1.reverse, isBlank c = true := fun c hc => b.2 c (List.mem_reverse.1 hc)
    have hback : (inner ++ ')' :: b.1).reverse.dropWhile isBlank = ')' :: inner.reverse := by
      rw [List.reverse_append, List.reverse_cons, List.append_assoc,
        List.dropWhile_append_of_pos hb]
      rfl
    rw [beforeClosing?, hback]
    simp

/-- What may stand in front of the query proper: nothing, or `content` and a colon. -/
abbrev Preamble := Option (Spelling "content" × Pad)

def Preamble.text : Preamble → List Char
  | none => []
  | some (word, pad) => word.1 ++ pad.around [':']

/-- A text of the form of a query, with what stands between the brackets. -/
def Frames (cs inner : List Char) : Prop :=
  ∃ (whole : Pad) (preamble : Preamble) (word : Spelling "within") (gap : Blanks),
    cs = whole.around (preamble.text ++ word ++ gap ++ '(' :: inner ++ [')'])

theorem dropBlanks_within (word : Spelling "within") (rest : List Char) :
    dropBlanks (word ++ rest) = word ++ rest := by
  obtain ⟨c, others, hword, hform⟩ := exists_first_of_within word
  rw [hword]
  exact dropBlanks_cons c _ (isBlank_of_isForm c (Or.inl hform))

theorem dropBlanks_preamble (preamble : Preamble) (word : Spelling "within") (rest : List Char) :
    dropBlanks (preamble.text ++ (word ++ rest)) = preamble.text ++ (word ++ rest) := by
  cases preamble with
  | none => exact dropBlanks_within word rest
  | some lead =>
    obtain ⟨c, others, hword, hform⟩ := exists_first_of_content lead.1
    rw [Preamble.text, hword]
    exact dropBlanks_cons c _ (isBlank_of_isForm c (Or.inr hform))

theorem afterPreamble?_eq_some_iff (cs rest : List Char) :
    afterPreamble? cs = some rest ↔
      ∃ (word : Spelling "content") (b : Blanks) (after : List Char),
        cs = word ++ b ++ ':' :: after ∧ rest = dropBlanks after := by
  simp only [afterPreamble?, Option.bind_eq_bind, Option.bind_eq_some_iff,
    afterWord?_eq_some_iff, afterMark?_eq_some_iff ':' (by decide)]
  refine ⟨fun h => ?_, fun h => ?_⟩
  · obtain ⟨found, ⟨word, hword, rfl⟩, after, ⟨b, rfl⟩, h⟩ := h
    exact ⟨⟨word, hword⟩, b, after, by simp, (Option.some.inj h).symm⟩
  · obtain ⟨word, b, after, rfl, rfl⟩ := h
    exact ⟨b ++ ':' :: after, ⟨word, word.2, by simp⟩, after, ⟨b, rfl⟩, rfl⟩

theorem afterPreamble?_text (preamble : Preamble) (word : Spelling "within") (rest : List Char) :
    (afterPreamble? (preamble.text ++ (word ++ rest))).getD (preamble.text ++ (word ++ rest)) =
      word ++ rest := by
  cases preamble with
  | none =>
    obtain ⟨c, others, hword, hform⟩ := exists_first_of_within word
    have hnone : afterPreamble? (word ++ rest) = none := by
      have hfirst := isForm_content_of_within c hform
      have hcontent : afterWord? "content".toList (c :: (others ++ rest)) = none := by
        show afterWord? ('c' :: "ontent".toList) (c :: (others ++ rest)) = none
        rw [afterWord?, hfirst]
        rfl
      rw [hword, List.cons_append, afterPreamble?, hcontent]
      rfl
    show (afterPreamble? (word ++ rest)).getD (word ++ rest) = _
    rw [hnone]
    rfl
  | some lead =>
    obtain ⟨content, pad⟩ := lead
    have hsome : afterPreamble? (Preamble.text (some (content, pad)) ++ (word ++ rest)) =
        some (word ++ rest) := by
      rw [afterPreamble?_eq_some_iff]
      refine ⟨content, pad.before, pad.behind ++ (word ++ rest), ?_, ?_⟩
      · simp [Preamble.text, Pad.around]
      · rw [dropBlanks_append, dropBlanks_within]
    rw [hsome]
    rfl

theorem exists_preamble (cs : List Char) :
    ∃ preamble : Preamble, cs = preamble.text ++ (afterPreamble? cs).getD cs := by
  cases h : afterPreamble? cs with
  | none => exact ⟨none, rfl⟩
  | some rest =>
    obtain ⟨word, before, after, rfl, rfl⟩ := (afterPreamble?_eq_some_iff cs rest).1 h
    obtain ⟨behind, hbehind⟩ := exists_blanks after
    refine ⟨some (word, ⟨before, behind⟩), ?_⟩
    rw [Option.getD_some]
    nth_rewrite 1 [hbehind]
    simp [Preamble.text, Pad.around]

theorem arguments?_eq_some_iff (cs inner : List Char) :
    arguments? cs = some inner ↔ Frames cs inner := by
  refine ⟨fun h => ?_, fun h => ?_⟩
  · simp only [arguments?, Option.bind_eq_bind, Option.bind_eq_some_iff, afterWord?_eq_some_iff,
      afterMark?_eq_some_iff '(' (by decide), beforeClosing?_eq_some_iff] at h
    obtain ⟨found, ⟨word, hword, hfound⟩, opened, ⟨gap, rfl⟩, behind, rfl⟩ := h
    obtain ⟨before, hbefore⟩ := exists_blanks cs
    obtain ⟨preamble, hpreamble⟩ := exists_preamble (dropBlanks cs)
    refine ⟨⟨before, behind⟩, preamble, ⟨word, hword⟩, gap, ?_⟩
    rw [hbefore, hpreamble, hfound]
    simp [Pad.around]
  · obtain ⟨whole, preamble, word, gap, rfl⟩ := h
    let opened := gap ++ '(' :: (inner ++ ')' :: whole.behind)
    have htext : whole.around (preamble.text ++ word ++ gap ++ '(' :: inner ++ [')']) =
        whole.before ++ (preamble.text ++ (word ++ opened)) := by
      simp [Pad.around, opened]
    have hword : afterWord? "within".toList (word ++ opened) = some opened :=
      (afterWord?_eq_some_iff ..).2 ⟨word, word.2, rfl⟩
    have hopen : afterMark? '(' opened = some (inner ++ ')' :: whole.behind) :=
      (afterMark?_eq_some_iff '(' (by decide) ..).2 ⟨gap, rfl⟩
    have hclose : beforeClosing? (inner ++ ')' :: whole.behind) = some inner :=
      (beforeClosing?_eq_some_iff ..).2 ⟨whole.behind, rfl⟩
    rw [arguments?, htext, dropBlanks_append, dropBlanks_preamble]
    simp only [afterPreamble?_text, hword, hopen, hclose, Option.bind_eq_bind, Option.bind_some]

end Frame

/-! ### The arguments -/

theorem bare_of_isName (f : String) (h : IsName f) : Arguments.Bare f.toList := by
  obtain ⟨c, rest, hf, hfirst, hrest, -⟩ := h
  refine ⟨by rw [hf]; exact List.cons_ne_nil c rest, ?_⟩
  intro d hd
  rw [hf] at hd
  rcases List.mem_cons.1 hd with rfl | hd
  · exact Or.inl (isWord_of_isAlpha d hfirst)
  · exact hrest d hd

theorem bare_of_isDistance (digits : List Char) (h : IsDistance digits) :
    Arguments.Bare digits :=
  ⟨h.1, fun c hc => Or.inl (isWord_of_isDigit c (h.2.1 c hc))⟩

theorem bare_mapWord : Arguments.Bare Query.mapWord := by
  have hword : Query.mapWord.all isWord = true := by decide
  refine ⟨by decide, fun c hc => Or.inl ?_⟩
  exact List.all_eq_true.1 hword c hc

/-- The arguments that a sentence may have: a field or none, a distance, the map word or not, and
at least one literal. -/
structure Clause where
  field : Option String
  digits : List Char
  marked : Bool
  literals : List (List Char)
  terms : List String
  named : ∀ f ∈ field, IsName f
  counted : IsDistance digits
  written : List.Forall₂ Literal.Writes literals (terms.map String.toList)
  terms_ne_nil : terms ≠ []

namespace Clause

def items (c : Clause) : List (List Char) := argumentList c.field c.digits c.marked c.literals

def query (c : Clause) : Query := ⟨.whole (digitsValue c.digits), c.terms, c.field.toList⟩

theorem mapM_unquote (literals texts : List (List Char))
    (h : List.Forall₂ Literal.Writes literals texts) :
    literals.mapM Literal.unquote = .ok texts := by
  induction h with
  | nil => rfl
  | cons hfirst _ ih =>
    rw [List.mapM_cons, ((Literal.writes_iff ..).1 hfirst).2, ih]
    rfl

theorem isLiteral_of_writes {literals texts : List (List Char)}
    (h : List.Forall₂ Literal.Writes literals texts) (literal : List Char)
    (hmem : literal ∈ literals) : Literal.isLiteral literal = true := by
  induction h with
  | nil => cases hmem
  | cons hfirst _ ih =>
    rcases List.mem_cons.1 hmem with rfl | hmem
    · exact ((Literal.writes_iff ..).1 hfirst).1
    · exact ih hmem

theorem argument_of_mem_items (c : Clause) (item : List Char) (h : item ∈ c.items) :
    Arguments.Argument item := by
  rw [items, argumentList, List.mem_append, List.mem_cons, List.mem_append] at h
  rcases h with hfield | rfl | hword | hterm
  · obtain ⟨f, hf, rfl⟩ := List.mem_map.1 hfield
    exact Or.inr (bare_of_isName f (c.named f (Option.mem_toList.1 hf)))
  · exact Or.inr (bare_of_isDistance _ c.counted)
  · obtain rfl : item = mapWord := by
      cases hmarked : c.marked with
      | false => simp [hmarked] at hword
      | true => simpa [hmarked] using hword
    exact Or.inr bare_mapWord
  · exact Or.inl (isLiteral_of_writes c.written item hterm)

theorem items_ne_nil (c : Clause) : c.items ≠ [] := by
  simp [items, argumentList]

theorem ofArguments_items (c : Clause) (text : String) :
    ofArguments text c.items = .ok c.query := by
  refine (ofArguments_eq_ok_iff ..).2 ⟨c.field, c.digits, c.marked, c.literals,
    c.terms.map String.toList, rfl, c.named, c.counted, mapM_unquote _ _ c.written, ?_, ?_⟩
  · simpa using c.terms_ne_nil
  · rw [List.map_map]
    simp [query, Function.comp_def]

end Clause

theorem any_isQuote_of_unquote {literal text : List Char}
    (h : Literal.unquote literal = .ok text) : literal.any isQuote = true := by
  cases literal with
  | nil => cases h
  | cons mark rest =>
    rw [Literal.unquote] at h
    split at h
    · rename_i hmarks
      rw [List.any_cons, (Bool.and_eq_true_iff.1 hmarks).1]
      rfl
    · cases h

theorem forall₂_writes_of_mapM {literals texts : List (List Char)}
    (h : literals.mapM Literal.unquote = .ok texts)
    (hquotes : ∀ literal ∈ literals, literal.any isQuote = true →
      Literal.isLiteral literal = true) : List.Forall₂ Literal.Writes literals texts := by
  induction literals generalizing texts with
  | nil =>
    obtain rfl := Except.ok.inj h
    exact .nil
  | cons literal literals ih =>
    rw [List.mapM_cons] at h
    obtain ⟨text, hfirst, h⟩ := exists_of_bind_eq_ok h
    obtain ⟨others, hrest, h⟩ := exists_of_bind_eq_ok h
    obtain rfl := Except.ok.inj h
    have hliteral := hquotes literal (List.mem_cons_self ..) (any_isQuote_of_unquote hfirst)
    exact .cons ((Literal.writes_iff ..).2 ⟨hliteral, hfirst⟩)
      (ih hrest fun other hother => hquotes other (List.mem_cons_of_mem _ hother))

/-- Arguments that make up a query, with quote marks around whole arguments only, are a clause. -/
theorem exists_clause {text : String} {items : List (List Char)} {q : Query}
    (h : ofArguments text items = .ok q)
    (hquotes : ∀ item ∈ items, item.any isQuote = true → Literal.isLiteral item = true) :
    ∃ c : Clause, c.items = items ∧ c.query = q := by
  obtain ⟨field, digits, marked, literals, texts, rfl, hnamed, hdigits, htexts, hne, rfl⟩ :=
    (ofArguments_eq_ok_iff ..).1 h
  have hwritten : List.Forall₂ Literal.Writes literals texts := by
    refine forall₂_writes_of_mapM htexts fun literal hmem => hquotes literal ?_
    simp [argumentList, hmem]
  refine ⟨⟨field, digits, marked, literals, texts.map String.ofList, hnamed, hdigits, ?_, ?_⟩,
    rfl, rfl⟩
  · rw [List.map_map]
    simpa [Function.comp_def] using hwritten
  · simpa using hne

/-! ### Sentences -/

/-- A text of the grammar in its parts. -/
structure Sentence where
  whole : Pad
  preamble : Frame.Preamble
  word : Spelling "within"
  gap : Blanks
  clause : Clause
  arguments : List (Pad × List Char)
  comma : Bool
  arguments_eq : arguments.map (·.2) = clause.items

namespace Sentence

def inner (s : Sentence) : List Char := Arguments.laid s.arguments ++ Arguments.closing s.comma

def text (s : Sentence) : String :=
  String.ofList (s.whole.around (s.preamble.text ++ s.word ++ s.gap ++ '(' :: s.inner ++ [')']))

def query (s : Sentence) : Query := s.clause.query

theorem arguments_ne_nil (s : Sentence) : s.arguments ≠ [] := by
  intro hnil
  have hitems := s.arguments_eq
  rw [hnil] at hitems
  exact s.clause.items_ne_nil hitems.symm

theorem argument_of_mem (s : Sentence) (part : Pad × List Char) (hpart : part ∈ s.arguments) :
    Arguments.Argument part.2 := by
  apply s.clause.argument_of_mem_items
  rw [← s.arguments_eq]
  exact List.mem_map_of_mem hpart

theorem split_inner (s : Sentence) : Arguments.split s.inner = .ok s.clause.items := by
  rw [← s.arguments_eq]
  exact Arguments.splitRest_laid _ _ _ s.arguments_ne_nil
    fun part hpart => (s.argument_of_mem part hpart).segment part.1

theorem ofText_text (s : Sentence) : ofText s.text = .ok s.query := by
  have hframe : Frame.arguments? s.text.toList = some s.inner := by
    rw [Frame.arguments?_eq_some_iff, text, String.toList_ofList]
    exact ⟨s.whole, s.preamble, s.word, s.gap, rfl⟩
  rw [ofText, hframe]
  show (Arguments.split s.inner).bind (ofArguments s.text) = _
  rw [s.split_inner]
  exact s.clause.ofArguments_items s.text

end Sentence

theorem exists_sentence {text : String} {q : Query} (h : ofText text = .ok q) :
    ∃ s : Sentence, s.text = text ∧ s.query = q := by
  rw [ofText] at h
  split at h
  · cases h
  · rename_i inner hinner
    obtain ⟨whole, preamble, word, gap, htext⟩ := (Frame.arguments?_eq_some_iff ..).1 hinner
    obtain ⟨items, hsplit, h⟩ := exists_of_bind_eq_ok h
    obtain ⟨c, rfl, rfl⟩ := exists_clause h (Arguments.isLiteral_of_mem_splitRest hsplit)
    obtain ⟨parts, comma, rfl, hparts, -⟩ :=
      Arguments.exists_parts_of_splitRest hsplit c.items_ne_nil
    refine ⟨⟨whole, preamble, word, gap, c, parts, comma, hparts⟩, ?_, rfl⟩
    exact String.toList_inj.1 (by rw [Sentence.text, String.toList_ofList, htext]; rfl)

theorem ofText_eq_ok_iff (text : String) (q : Query) :
    ofText text = .ok q ↔ ∃ s : Sentence, s.text = text ∧ s.query = q := by
  refine ⟨exists_sentence, fun h => ?_⟩
  obtain ⟨s, rfl, rfl⟩ := h
  exact s.ofText_text

/-! ### Refusals -/

/-- The faults with which a text can be refused. -/
inductive Refusal (text : String) : Fault → Prop where
  | frame : Refusal text (.notQuery text)
  | commas (inner : String) : Refusal text (.unreadableArguments inner)
  | quotes (argument : String) : Refusal text (.malformedArgument argument)
  | distance : Refusal text (.distanceExpected text)
  | digits (count : Nat) (h : maxDigits < count) : Refusal text (.tooManyDigits maxDigits count)
  | term (argument : String) : Refusal text (.quotedExpected argument)
  | terms : Refusal text (.termsExpected text)

theorem Refusal.kind_eq {text : String} {fault : Fault} (h : Refusal text fault) :
    fault.kind = .wrongValue := by
  cases h <;> rfl

theorem refusal_of_splitRest (text : String) {whole rest : List Char} {fault : Fault}
    (h : Arguments.splitRest whole rest = .error fault) : Refusal text fault := by
  rcases Arguments.fault_of_splitRest h with rfl | ⟨item, -, rfl⟩
  · exact .commas _
  · exact .quotes _

theorem refusal_of_takeDistance {text : String} {items : List (List Char)} {fault : Fault}
    (h : takeDistance text items = .error fault) : Refusal text fault := by
  cases items with
  | nil =>
    obtain rfl := Except.error.inj h
    exact .distance
  | cons item rest =>
    rw [takeDistance] at h
    split at h
    · obtain rfl := Except.error.inj h
      exact .distance
    · split at h
      · rename_i hlong
        obtain rfl := Except.error.inj h
        exact .digits _ hlong
      · cases h

theorem refusal_of_mapM_unquote (text : String) {literals : List (List Char)} {fault : Fault}
    (h : literals.mapM Literal.unquote = .error fault) : Refusal text fault := by
  induction literals with
  | nil => cases h
  | cons literal literals ih =>
    rw [List.mapM_cons] at h
    rcases exists_of_bind_eq_error h with hfirst | ⟨first, -, h⟩
    · rw [Literal.unquote.eq_def] at hfirst
      split at hfirst
      · obtain rfl := Except.error.inj hfirst
        exact .term _
      · split at hfirst
        · cases hfirst
        · obtain rfl := Except.error.inj hfirst
          exact .term _
    · rcases exists_of_bind_eq_error h with hrest | ⟨others, -, h⟩
      · exact ih hrest
      · cases h

theorem refusal_of_ofArguments {text : String} {items : List (List Char)} {fault : Fault}
    (h : ofArguments text items = .error fault) : Refusal text fault := by
  obtain ⟨field, rest, -, htake, -⟩ := exists_field items
  rw [ofArguments_eq_bind text items rest _ htake] at h
  rcases exists_of_bind_eq_error h with hdistance | ⟨found, -, h⟩
  · exact refusal_of_takeDistance hdistance
  · rcases exists_of_bind_eq_error h with hterms | ⟨terms, -, h⟩
    · exact refusal_of_mapM_unquote text hterms
    · split at h
      · obtain rfl := Except.error.inj h
        exact .terms
      · cases h

theorem refusal_of_ofText {text : String} {fault : Fault} (h : ofText text = .error fault) :
    Refusal text fault := by
  rw [ofText] at h
  split at h
  · obtain rfl := Except.error.inj h
    exact .frame
  · rcases exists_of_bind_eq_error h with hsplit | ⟨items, -, h⟩
    · exact refusal_of_splitRest text hsplit
    · exact refusal_of_ofArguments h

/-- Just the sentences are read, each as the query that it states, and every other text is refused
for what it says. -/
theorem ofText_sentence_or_refusal (text : String) :
    (∀ q, ofText text = .ok q ↔ ∃ s : Sentence, s.text = text ∧ s.query = q) ∧
    ((∀ s : Sentence, s.text ≠ text) ↔
      ∃ fault, ofText text = .error fault ∧ fault.kind = .wrongValue ∧ Refusal text fault) := by
  refine ⟨ofText_eq_ok_iff text, fun h => ?_, fun h s hs => ?_⟩
  · cases hread : ofText text with
    | error fault =>
      have hrefusal := refusal_of_ofText hread
      exact ⟨fault, rfl, hrefusal.kind_eq, hrefusal⟩
    | ok q =>
      obtain ⟨s, hs, -⟩ := exists_sentence hread
      exact absurd hs (h s)
  · obtain ⟨fault, hrefused, -⟩ := h
    rw [← hs, s.ofText_text] at hrefused
    cases hrefused

end TermWindow.Query
