import TermWindow.Proofs.Grammar

/-!
# Writing queries

A query can be written in many styles: with or without the words in front and the map word, each
term between either quote mark, and blanks around every part. All of them are read as the query,
and every query that is read can be written so.
-/

namespace TermWindow.Query

open Text

/-! ### Styles -/

/-- What a query says: the distance, at least one term, and at most one field. -/
structure Phrase where
  distance : Nat
  terms : List String
  field : Option String
  distance_lt : distance < 10 ^ maxDigits
  terms_ne_nil : terms ≠ []
  named : ∀ f ∈ field, IsName f

def Phrase.query (p : Phrase) : Query := ⟨.whole p.distance, p.terms, p.field.toList⟩

theorem Phrase.query_injective : Function.Injective Phrase.query := by
  rintro ⟨d, terms, field, _, _, _⟩ ⟨e, others, name, _, _, _⟩ h
  obtain ⟨hdistance, rfl, hfields⟩ := Query.mk.inj h
  obtain rfl : d = e := Int.ofNat.inj (Value.whole.inj hdistance)
  obtain rfl : field = name := by simpa using congrArg List.head? hfields
  rfl

/-- A way to write queries. The preamble and the map word are left out where they are `none`; the
terms are told apart by their places. -/
structure Style where
  whole : Pad
  preamble : Option Pad
  gap : Blanks
  field : Pad
  distance : Pad
  mapWord : Option Pad
  term : Nat → Pad × {c : Char // isQuote c = true}

namespace Style

def parts (s : Style) (p : Phrase) : List (Pad × List Char) :=
  p.field.toList.map (fun f => (s.field, f.toList)) ++
    (s.distance, Nat.toDigits 10 p.distance) ::
      (s.mapWord.toList.map (fun pad => (pad, Query.mapWord)) ++
        p.terms.mapIdx fun i t => ((s.term i).1, Literal.written (s.term i).2 t.toList))

/-- The word `content` and the colon, with the blanks behind them. -/
def start (s : Style) : List Char :=
  match s.preamble with
  | none => []
  | some pad => "content".toList ++ pad.around [':']

def frame (s : Style) (inner : List Char) : List Char :=
  s.whole.around (s.start ++ "within".toList ++ s.gap ++ '(' :: inner ++ [')'])

def render (s : Style) (p : Phrase) : String :=
  String.ofList (s.frame (Arguments.laid (s.parts p)))

/-! ### Reading what was written -/

theorem map_snd_parts (s : Style) (p : Phrase) :
    (s.parts p).map (·.2) = argumentList p.field (Nat.toDigits 10 p.distance) s.mapWord.isSome
      (p.terms.mapIdx fun i t => Literal.written (s.term i).2 t.toList) := by
  have hword : (s.mapWord.toList.map fun pad => (pad, Query.mapWord)).map Prod.snd =
      if s.mapWord.isSome then [Query.mapWord] else [] := by
    cases s.mapWord <;> rfl
  have hterms : (p.terms.mapIdx fun i t =>
      ((s.term i).1, Literal.written (s.term i).2 t.toList)).map Prod.snd =
        p.terms.mapIdx fun i t => Literal.written (s.term i).2 t.toList := by
    rw [List.mapIdx_eq_zipIdx_map, List.mapIdx_eq_zipIdx_map, List.map_map]
    rfl
  rw [parts, argumentList, List.map_append, List.map_cons, List.map_append, hword, hterms,
    List.map_map]
  rfl

theorem forall₂_writes_mapIdx (mark : Nat → {c : Char // isQuote c = true})
    (terms : List String) :
    List.Forall₂ Literal.Writes (terms.mapIdx fun i t => Literal.written (mark i) t.toList)
      (terms.map String.toList) := by
  induction terms generalizing mark with
  | nil => exact .nil
  | cons t terms ih =>
    rw [List.mapIdx_cons]
    refine .cons ⟨mark 0, _, (mark 0).2, rfl, Literal.units_escape _ (mark 0).2 _⟩ ?_
    exact ih fun i => mark (i + 1)

def clause (s : Style) (p : Phrase) : Clause where
  field := p.field
  digits := Nat.toDigits 10 p.distance
  marked := s.mapWord.isSome
  literals := p.terms.mapIdx fun i t => Literal.written (s.term i).2 t.toList
  terms := p.terms
  named := p.named
  counted := isDistance_toDigits p.distance p.distance_lt
  written := forall₂_writes_mapIdx _ p.terms
  terms_ne_nil := p.terms_ne_nil

/-- What is written in a style, as a sentence of the grammar. -/
def sentence (s : Style) (p : Phrase) : Sentence where
  whole := s.whole
  preamble := s.preamble.map fun pad => (⟨"content".toList, by decide⟩, pad)
  word := ⟨"within".toList, by decide⟩
  gap := s.gap
  clause := s.clause p
  arguments := s.parts p
  comma := false
  arguments_eq := s.map_snd_parts p

theorem text_sentence (s : Style) (p : Phrase) : (s.sentence p).text = s.render p := by
  have hstart : (s.sentence p).preamble.text = s.start := by
    rw [start, sentence]
    cases s.preamble <;> rfl
  have hinner : (s.sentence p).inner = Arguments.laid (s.parts p) := List.append_nil _
  rw [Sentence.text, hstart, hinner, render, frame]
  rfl

theorem ofText_render (s : Style) (p : Phrase) : ofText (s.render p) = .ok p.query := by
  have hquery : (s.sentence p).query = p.query := by
    show (⟨.whole (digitsValue (Nat.toDigits 10 p.distance)), _, _⟩ : Query) = _
    rw [digitsValue_toDigits]
    rfl
  rw [← text_sentence, Sentence.ofText_text, hquery]

end Style

theorem exists_phrase (text : String) (q : Query) (h : ofText text = .ok q) :
    ∃ p : Phrase, q = p.query := by
  obtain ⟨s, -, rfl⟩ := exists_sentence h
  exact ⟨⟨digitsValue s.clause.digits, s.clause.terms, s.clause.field,
    s.clause.counted.digitsValue_lt, s.clause.terms_ne_nil, s.clause.named⟩, rfl⟩

/-- Whatever a query says, its text in any style is read as the query. Any query that is read says
something of this kind, so that it can be written again in every style. -/
theorem ofText_render_roundtrip :
    (∀ (s : Style) (p : Phrase), ofText (s.render p) = .ok p.query) ∧
    ∀ (text : String) (q : Query), ofText text = .ok q →
      ∃ p : Phrase, q = p.query ∧ ∀ s : Style, ofText (s.render p) = .ok q := by
  refine ⟨Style.ofText_render, fun text q h => ?_⟩
  obtain ⟨p, rfl⟩ := exists_phrase text q h
  exact ⟨p, rfl, fun s => s.ofText_render p⟩

/-- All words are written, a blank stands in each gap, and the quote marks take turns. -/
def Style.spaced : Style where
  whole := ⟨.space, .space⟩
  preamble := some ⟨.space, .space⟩
  gap := .space
  field := ⟨.space, .space⟩
  distance := ⟨.space, .space⟩
  mapWord := some ⟨.space, .space⟩
  term i := (⟨.space, .space⟩,
    if i % 2 = 0 then ⟨singleQuote, by decide⟩ else ⟨doubleQuote, by decide⟩)

/-- A query of two terms, one with a quote mark in it and one with a comma. -/
def Phrase.quotes : Phrase where
  distance := 2
  terms := ["it's", "a,b"]
  field := some "body"
  distance_lt :=
    Nat.lt_of_lt_of_le (by decide : 2 < 10 ^ 1) (Nat.pow_le_pow_right (by decide) (by decide))
  terms_ne_nil := by decide
  named := by
    intro f hf
    obtain rfl := Option.some.inj hf
    exact (isFieldName_toList_iff _).1 (by decide)

theorem ofText_render_roundtrip_body :
    ofText "within(body, 2, 'it\\'s', 'a,b')" = .ok ⟨.whole 2, ["it's", "a,b"], ["body"]⟩ ∧
      ∃ p : Phrase, ⟨.whole 2, ["it's", "a,b"], ["body"]⟩ = p.query ∧
        (∀ s : Style, ofText (s.render p) = .ok ⟨.whole 2, ["it's", "a,b"], ["body"]⟩) ∧
        Style.spaced.render p =
          " content : within ( body , 2 , termOffsetMap , 'it\\'s' , \"a,b\" ) " := by
  have hinner : Frame.arguments? "within(body, 2, 'it\\'s', 'a,b')".toList =
      some "body, 2, 'it\\'s', 'a,b'".toList := by decide
  have hsplit : Arguments.split "body, 2, 'it\\'s', 'a,b'".toList =
      .ok ["body".toList, "2".toList, "'it\\'s'".toList, "'a,b'".toList] := by cbv
  have hterms : ["'it\\'s'".toList, "'a,b'".toList].mapM Literal.unquote =
      .ok ["it's".toList, "a,b".toList] := by cbv
  have hdistance : IsDistance "2".toList := isDistance_toDigits 2 Phrase.quotes.distance_lt
  have hquery : ofArguments "within(body, 2, 'it\\'s', 'a,b')"
      ["body".toList, "2".toList, "'it\\'s'".toList, "'a,b'".toList] =
        .ok Phrase.quotes.query :=
    (ofArguments_eq_ok_iff ..).2 ⟨some "body", "2".toList, false,
      ["'it\\'s'".toList, "'a,b'".toList], ["it's".toList, "a,b".toList], rfl,
      Phrase.quotes.named, hdistance, hterms, List.cons_ne_nil _ _, rfl⟩
  have hread : ofText "within(body, 2, 'it\\'s', 'a,b')" = .ok Phrase.quotes.query := by
    rw [ofText, hinner]
    show (Arguments.split _).bind _ = _
    rw [hsplit]
    exact hquery
  obtain ⟨p, hp, hstyles⟩ := ofText_render_roundtrip.2 _ _ hread
  obtain rfl : Phrase.quotes = p := Phrase.query_injective hp
  exact ⟨hread, Phrase.quotes, rfl, hstyles, by rfl⟩

end TermWindow.Query
