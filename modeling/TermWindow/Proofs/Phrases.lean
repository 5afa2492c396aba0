import TermWindow.Proofs.Characters

/-!
# What arguments make up

A list of arguments makes up a query just when it consists of the name of a field, if there is one,
the digits of the distance, the map word, if it is wanted, and at least one quoted term.
-/

namespace TermWindow.Query

open Text

/-! ### The name of a field -/

/-- Whether a text can name a field: a letter of ASCII or an underscore stands first, then any word
characters and dots, and it is not the map word. -/
def IsName (f : String) : Prop :=
  ∃ c rest, f.toList = c :: rest ∧ (c.isAlpha = true ∨ c = '_') ∧
    (∀ d ∈ rest, isWord d = true ∨ d = '.') ∧ f ≠ "termOffsetMap"

theorem isFieldName_toList_iff (f : String) : isFieldName f.toList = true ↔ IsName f := by
  have hword : f.toList = mapWord ↔ f = "termOffsetMap" := String.toList_inj
  cases hf : f.toList with
  | nil => simp [isFieldName, IsName, hf]
  | cons c rest =>
    rw [hf] at hword
    simp [isFieldName, IsName, hf, isNameStart, hword, and_assoc]

theorem isFieldName_of_isDigit (item : List Char) (h : ∀ c ∈ item, isDigit c = true) :
    isFieldName item = false := by
  cases item with
  | nil => rfl
  | cons c rest =>
    rw [isFieldName, isNameStart_of_isDigit c (h c (List.mem_cons_self ..))]
    rfl

theorem takeField_append (field : Option String) (hfield : ∀ f ∈ field, IsName f)
    (item : List Char) (rest : List (List Char)) (hitem : isFieldName item = false) :
    takeField (field.toList.map String.toList ++ item :: rest) = (field.toList, item :: rest) := by
  cases field with
  | none =>
    show takeField (item :: rest) = _
    rw [takeField, hitem]
    rfl
  | some f =>
    show takeField (f.toList :: item :: rest) = _
    rw [takeField, (isFieldName_toList_iff f).2 (hfield f rfl), String.ofList_toList]
    rfl

theorem exists_field (items : List (List Char)) :
    ∃ (field : Option String) (rest : List (List Char)), (∀ f ∈ field, IsName f) ∧
      takeField items = (field.toList, rest) ∧
      items = field.toList.map String.toList ++ rest := by
  cases items with
  | nil => exact ⟨none, [], nofun, rfl, rfl⟩
  | cons item rest =>
    by_cases hitem : isFieldName item = true
    · refine ⟨some (String.ofList item), rest, ?_, ?_, ?_⟩
      · intro f hf
        obtain rfl := Option.some.inj hf
        rw [← isFieldName_toList_iff, String.toList_ofList]
        exact hitem
      · rw [takeField, if_pos hitem]
        rfl
      · simp
    · refine ⟨none, item :: rest, nofun, ?_, rfl⟩
      rw [takeField, if_neg hitem]
      rfl

/-! ### The distance -/

/-- Whether an argument writes a distance: digits of any scripts, not too many of them. -/
def IsDistance (item : List Char) : Prop :=
  item ≠ [] ∧ (∀ c ∈ item, isDigit c = true) ∧ item.length ≤ maxDigits

theorem noDigits_eq_false_iff (item : List Char) :
    (item.isEmpty || !item.all isDigit) = false ↔ item ≠ [] ∧ ∀ c ∈ item, isDigit c = true := by
  rw [Bool.or_eq_false_iff, Bool.not_eq_false', List.all_eq_true, List.isEmpty_eq_false_iff]

theorem takeDistance_eq_ok_iff (text : String) (items rest : List (List Char)) (distance : Nat) :
    takeDistance text items = .ok (distance, rest) ↔
      ∃ digits, items = digits :: rest ∧ IsDistance digits ∧ distance = digitsValue digits := by
  refine ⟨fun h => ?_, fun h => ?_⟩
  · cases items with
    | nil => cases h
    | cons item others =>
      rw [takeDistance] at h
      cases hguard : (item.isEmpty || !item.all isDigit) with
      | true =>
        rw [hguard, if_pos rfl] at h
        cases h
      | false =>
        rw [hguard, if_neg Bool.false_ne_true] at h
        by_cases hlong : maxDigits < item.length
        · rw [if_pos hlong] at h
          cases h
        · rw [if_neg hlong] at h
          obtain ⟨rfl, rfl⟩ := Prod.mk.inj (Except.ok.inj h)
          obtain ⟨hne, hdigits⟩ := (noDigits_eq_false_iff item).1 hguard
          exact ⟨item, rfl, ⟨hne, hdigits, Nat.not_lt.1 hlong⟩, rfl⟩
  · obtain ⟨digits, rfl, ⟨hne, hdigits, hlength⟩, rfl⟩ := h
    rw [takeDistance, (noDigits_eq_false_iff digits).2 ⟨hne, hdigits⟩,
      if_neg Bool.false_ne_true, if_neg (Nat.not_lt.2 hlength)]

theorem isDistance_toDigits (n : Nat) (h : n < 10 ^ maxDigits) :
    IsDistance (Nat.toDigits 10 n) := by
  refine ⟨Nat.toDigits_ne_nil, isDigit_of_mem_toDigits n, ?_⟩
  exact (Nat.length_toDigits_le_iff (by decide) (by decide)).2 h

theorem IsDistance.digitsValue_lt {item : List Char} (h : IsDistance item) :
    digitsValue item < 10 ^ maxDigits :=
  Nat.lt_of_lt_of_le (Text.digitsValue_lt item) (Nat.pow_le_pow_right (by decide) h.2.2)

/-! ### The map word and the terms -/

theorem mapM_unquote_mapWord (rest : List (List Char)) (terms : List (List Char)) :
    (mapWord :: rest).mapM Literal.unquote ≠ .ok terms := by
  have hword : Literal.unquote mapWord = .error (.quotedExpected "termOffsetMap") := rfl
  rw [List.mapM_cons, hword]
  intro h
  cases h

theorem dropMapWord_of_unquoted (marked : Bool) (quoted terms : List (List Char))
    (h : quoted.mapM Literal.unquote = .ok terms) :
    dropMapWord ((if marked then [mapWord] else []) ++ quoted) = quoted := by
  cases marked with
  | true => rfl
  | false =>
    cases quoted with
    | nil => rfl
    | cons item rest =>
      -- the map word is no quoted term
      have hitem : item ≠ mapWord := by
        intro he
        subst he
        exact mapM_unquote_mapWord rest terms h
      show dropMapWord (item :: rest) = _
      rw [dropMapWord, if_neg hitem]

theorem exists_marked (items : List (List Char)) :
    ∃ marked : Bool, items = (if marked then [mapWord] else []) ++ dropMapWord items := by
  cases items with
  | nil => exact ⟨false, rfl⟩
  | cons item rest =>
    by_cases hitem : item = mapWord
    · refine ⟨true, ?_⟩
      rw [dropMapWord, if_pos hitem, hitem]
      rfl
    · refine ⟨false, ?_⟩
      rw [dropMapWord, if_neg hitem]
      rfl

/-! ### All arguments -/

theorem make_single (distance : Value) (terms : List String) (field : Option String) :
    make distance terms field.toList = ⟨distance, terms, field.toList⟩ := by
  cases field <;> simp [make, Matcher.fieldSet, Demand.distinct]

def argumentList (field : Option String) (digits : List Char) (marked : Bool)
    (quoted : List (List Char)) : List (List Char) :=
  field.toList.map String.toList ++ digits :: ((if marked then [mapWord] else []) ++ quoted)

theorem ofArguments_eq_bind (text : String) (items rest : List (List Char))
    (fields : List String) (htake : takeField items = (fields, rest)) :
    ofArguments text items = (takeDistance text rest).bind fun found =>
      ((dropMapWord found.2).mapM Literal.unquote).bind fun terms =>
        if terms.isEmpty then .error (.termsExpected text)
        else .ok (make (.whole found.1) (terms.map String.ofList) fields) := by
  rw [ofArguments, htake]
  refine bind_congr fun found => bind_congr fun terms => ?_
  cases terms <;> rfl

/-- The arguments that make up a query, and the query they make up. -/
theorem ofArguments_eq_ok_iff (text : String) (items : List (List Char)) (q : Query) :
    ofArguments text items = .ok q ↔
      ∃ field digits marked quoted terms, items = argumentList field digits marked quoted ∧
        (∀ f ∈ field, IsName f) ∧ IsDistance digits ∧
        quoted.mapM Literal.unquote = .ok terms ∧ terms ≠ [] ∧
        q = ⟨.whole (digitsValue digits), terms.map String.ofList, field.toList⟩ := by
  refine ⟨?_, ?_⟩
  · intro h
    obtain ⟨field, behind, hnamed, htake, hitems⟩ := exists_field items
    rw [ofArguments_eq_bind text items behind _ htake] at h
    obtain ⟨⟨distance, rest⟩, hdistance, h⟩ := exists_of_bind_eq_ok h
    obtain ⟨terms, hterms, h⟩ := exists_of_bind_eq_ok h
    obtain ⟨digits, hbehind, hdigits, rfl⟩ := (takeDistance_eq_ok_iff ..).1 hdistance
    obtain ⟨marked, hmarked⟩ := exists_marked rest
    cases terms with
    | nil => cases h
    | cons term others =>
      refine ⟨field, digits, marked, dropMapWord rest, term :: others, ?_, hnamed, hdigits, hterms,
        List.cons_ne_nil term others, ?_⟩
      · rw [argumentList, ← hmarked, ← hbehind]
        exact hitems
      · rw [← make_single]
        exact (Except.ok.inj h).symm
  · intro h
    obtain ⟨field, digits, marked, quoted, terms, rfl, hnamed, hdigits, hterms, hne, rfl⟩ := h
    let behind := (if marked then [mapWord] else []) ++ quoted
    have htake : takeField (argumentList field digits marked quoted) =
        (field.toList, digits :: behind) :=
      takeField_append field hnamed digits behind (isFieldName_of_isDigit digits hdigits.2.1)
    have hdistance : takeDistance text (digits :: behind) = .ok (digitsValue digits, behind) :=
      (takeDistance_eq_ok_iff ..).2 ⟨digits, rfl, hdigits, rfl⟩
    have hdrop : dropMapWord behind = quoted := dropMapWord_of_unquoted marked quoted terms hterms
    rw [ofArguments_eq_bind text _ _ _ htake, hdistance]
    show ((dropMapWord behind).mapM Literal.unquote).bind _ = _
    rw [hdrop, hterms, ← make_single]
    exact if_neg (by simpa using hne)

end TermWindow.Query
