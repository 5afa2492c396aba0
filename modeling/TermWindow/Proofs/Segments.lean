import TermWindow.Proofs.Splitting

/-!
# Segments of the arguments

Whatever text is split, each of its arguments stands in it with blanks around, and a comma or the
end follows. So a text that is split at all is laid out of its arguments, save for one comma that
may stand at the very end. These texts are all that can be split.
-/

namespace TermWindow.Query

open Text

/-! ### Blanks at either side -/

theorem exists_blanks (cs : List Char) : ∃ b : Blanks, cs = b ++ dropBlanks cs :=
  ⟨⟨cs.takeWhile isBlank, fun _ hc => List.all_eq_true.1 List.all_takeWhile _ hc⟩,
    List.takeWhile_append_dropWhile.symm⟩

theorem exists_blanks_behind (cs : List Char) :
    ∃ b : Blanks, cs = (cs.reverse.dropWhile isBlank).reverse ++ b := by
  obtain ⟨b, hb⟩ := exists_blanks cs.reverse
  refine ⟨⟨b.1.reverse, fun c hc => b.2 c (List.mem_reverse.1 hc)⟩, ?_⟩
  show cs = (dropBlanks cs.reverse).reverse ++ b.1.reverse
  rw [← List.reverse_append, ← hb, List.reverse_reverse]

namespace Arguments

/-! ### One segment -/

theorem exists_continues_of_afterComma? {cs after : List Char} (h : afterComma? cs = some after) :
    ∃ (b : Blanks) (tail : List Char), cs = b ++ tail ∧ Continues tail after := by
  obtain ⟨b, hb⟩ := exists_blanks cs
  refine ⟨b, dropBlanks cs, hb, ?_⟩
  rw [afterComma?] at h
  split at h
  · rename_i hnil
    obtain rfl := Option.some.inj h
    rw [hnil]
    exact .ends
  · rename_i rest hcomma
    obtain rfl := Option.some.inj h
    rw [hcomma]
    exact .more rest
  · cases h

theorem exists_continues_afterSegment (cs : List Char) :
    ∃ tail, dropBlanks cs = segment cs ++ tail ∧ Continues tail (afterSegment cs) := by
  refine ⟨(dropBlanks cs).dropWhile (· ≠ ','), List.takeWhile_append_dropWhile.symm, ?_⟩
  rw [afterSegment]
  cases hrest : (dropBlanks cs).dropWhile (· ≠ ',') with
  | nil => exact .ends
  | cons c rest =>
    have hc := List.head?_dropWhile_not (· ≠ ',') (dropBlanks cs)
    rw [hrest] at hc
    have hcomma : c = ',' := by simpa using hc
    rw [hcomma]
    exact .more rest

theorem exists_segment_of_literal? {cs item after : List Char}
    (h : literal? (dropBlanks cs) = some (item, after)) :
    ∃ (p : Pad) (tail : List Char), cs = p.around item ++ tail ∧ Segment (p, item) ∧
      Continues tail after := by
  simp only [literal?, Option.bind_eq_bind, Option.bind_eq_some_iff] at h
  obtain ⟨⟨literal, rest⟩, hsplit, found, hcomma, h⟩ := h
  obtain ⟨rfl, rfl⟩ := Prod.mk.inj (Option.some.inj h)
  obtain ⟨before, hbefore⟩ := exists_blanks cs
  obtain ⟨behind, tail, hbehind, htail⟩ := exists_continues_of_afterComma? hcomma
  obtain ⟨text, hwrites⟩ := Literal.exists_writes_of_split? hsplit
  refine ⟨⟨before, behind⟩, tail, ?_, .literal _ hwrites, htail⟩
  simp only at hbehind
  rw [hbefore, Literal.split?_append hsplit, hbehind]
  simp [Pad.around]

/-- The text up to a comma, without the blanks at either side. -/
theorem trimmed_segment {cs : List Char} (hne : segment cs ≠ [])
    (hquotes : ∀ c ∈ trimEnd (segment cs), isQuote c = false) :
    Trimmed (trimEnd (segment cs)) := by
  have hfirst : ∀ c ∈ (segment cs).head?, isBlank c = false := by
    intro c hc
    have hhead : (dropBlanks cs).head? = some c := by
      obtain ⟨tail, htail, -⟩ := exists_continues_afterSegment cs
      rw [htail, List.head?_append, Option.mem_def.1 hc]
      rfl
    have hdrop := List.head?_dropWhile_not isBlank cs
    rw [← dropBlanks, hhead] at hdrop
    exact hdrop
  obtain ⟨b, hb⟩ := exists_blanks_behind (segment cs)
  rw [← trimEnd] at hb
  have hkept : trimEnd (segment cs) ≠ [] := by
    intro hnil
    rw [hnil, List.nil_append] at hb
    obtain ⟨c, rest, hcons⟩ := List.exists_cons_of_ne_nil hne
    have hblank := b.2 c (by rw [← hb, hcons]; exact List.mem_cons_self ..)
    rw [hfirst c (by rw [hcons]; rfl)] at hblank
    cases hblank
  constructor
  case ne_nil => exact hkept
  case free =>
    intro c hc
    refine ⟨?_, hquotes c hc⟩
    have hmem : c ∈ segment cs := by
      rw [hb]
      exact List.mem_append_left _ hc
    simpa using List.all_eq_true.1 List.all_takeWhile c hmem
  case first =>
    intro c hc
    apply hfirst c
    rw [hb, List.head?_append, Option.mem_def.1 hc]
    rfl
  case last =>
    intro c hc
    have hdrop := List.head?_dropWhile_not isBlank (segment cs).reverse
    rw [trimEnd, List.getLast?_reverse, Option.mem_def] at hc
    rw [hc] at hdrop
    exact hdrop

theorem exists_segment_of_plain? {cs item after : List Char} (h : plain? cs = some (item, after))
    (hformed : isMalformed item = false) :
    ∃ (p : Pad) (tail : List Char), cs = p.around item ++ tail ∧ Segment (p, item) ∧
      Continues tail after := by
  obtain ⟨tail, hstart, htail⟩ := exists_continues_afterSegment cs
  obtain ⟨before, hbefore⟩ := exists_blanks cs
  rw [plain?] at h
  split at h
  · -- the item is the last of the blanks in front of the comma
    rename_i hempty
    obtain ⟨c, hlast, h⟩ := Option.map_eq_some_iff.1 h
    obtain ⟨rfl, rfl⟩ := Prod.mk.inj h
    obtain ⟨first, hfirst⟩ := List.getLast?_eq_some_iff.1 hlast
    have hblank : ∀ d ∈ first ++ [c], isBlank d = true := by
      rw [← hfirst]
      exact fun d hd => List.all_eq_true.1 List.all_takeWhile d hd
    let b : Blanks := ⟨first, fun d hd => hblank d (List.mem_append_left [c] hd)⟩
    refine ⟨_, tail, ?_, .blank b (hblank c (by simp)), htail⟩
    have htext : cs = cs.takeWhile isBlank ++ dropBlanks cs :=
      List.takeWhile_append_dropWhile.symm
    rw [htext, hfirst, hstart, List.isEmpty_iff.1 hempty]
    simp [Pad.around, b]
  · rename_i hsome
    obtain ⟨rfl, rfl⟩ := Prod.mk.inj (Option.some.inj h)
    obtain ⟨behind, hbehind⟩ := exists_blanks_behind (segment cs)
    refine ⟨⟨before, behind⟩, tail, ?_, ?_, htail⟩
    · rw [Pad.around, List.append_assoc, List.append_assoc, trimEnd, ← List.append_assoc _ _ tail,
        ← hbehind, ← hstart]
      exact hbefore
    · cases hquotes : (trimEnd (segment cs)).any isQuote with
      | true =>
        rw [isMalformed, hquotes, Bool.true_and] at hformed
        obtain ⟨text, hwrites⟩ :=
          Literal.exists_writes_of_isLiteral _ (by simpa using hformed)
        exact .literal _ hwrites
      | false =>
        refine .plain _ (trimmed_segment (fun hnil => hsome (by rw [hnil]; rfl)) ?_)
        simpa using hquotes

theorem exists_segment_of_next? {cs item after : List Char} (h : next? cs = some (item, after))
    (hformed : isMalformed item = false) :
    ∃ (p : Pad) (tail : List Char), cs = p.around item ++ tail ∧ Segment (p, item) ∧
      Continues tail after := by
  rcases Option.or_eq_some_iff.1 h with hliteral | ⟨-, hplain⟩
  · exact exists_segment_of_literal? hliteral
  · exact exists_segment_of_plain? hplain hformed

/-! ### All segments -/

theorem splitRest_eq_ok_nil {whole rest : List Char} (h : splitRest whole rest = .ok []) :
    rest = [] := by
  rw [splitRest] at h
  split at h
  · exact List.isEmpty_iff.1 ‹_›
  · split at h
    · cases h
    · split at h
      · cases h
      · rename_i after _ _
        cases hafter : splitRest whole after with
        | error fault =>
          rw [hafter] at h
          cases h
        | ok items =>
          rw [hafter] at h
          cases h

theorem splitRest_eq_ok_cons {whole rest item : List Char} {items : List (List Char)}
    (h : splitRest whole rest = .ok (item :: items)) :
    ∃ after, next? rest = some (item, after) ∧ isMalformed item = false ∧
      splitRest whole after = .ok items := by
  rw [splitRest] at h
  split at h
  · cases h
  · split at h
    · cases h
    · rename_i first after hnext
      split at h
      · cases h
      · rename_i hformed
        cases hafter : splitRest whole after with
        | error fault =>
          rw [hafter] at h
          cases h
        | ok others =>
          rw [hafter] at h
          obtain ⟨rfl, rfl⟩ := List.cons.inj (Except.ok.inj h)
          exact ⟨after, hnext, Bool.eq_false_iff.2 hformed, hafter⟩

/-- A text that is split is laid out of segments, up to one comma at the end. -/
theorem exists_parts_of_splitRest {whole rest : List Char} {items : List (List Char)}
    (h : splitRest whole rest = .ok items) (hne : items ≠ []) :
    ∃ (parts : List (Pad × List Char)) (comma : Bool), rest = laid parts ++ closing comma ∧
      parts.map (·.2) = items ∧ ∀ part ∈ parts, Segment part := by
  induction items generalizing rest with
  | nil => exact absurd rfl hne
  | cons item items ih =>
    obtain ⟨after, hnext, hformed, hafter⟩ := splitRest_eq_ok_cons h
    obtain ⟨p, tail, rfl, hsegment, htail⟩ := exists_segment_of_next? hnext hformed
    have hlast : ∀ part ∈ [(p, item)], Segment part := fun part hpart =>
      List.mem_singleton.1 hpart ▸ hsegment
    cases htail with
    | ends =>
      have hnil : splitRest whole [] = .ok [] := by simp [splitRest]
      obtain rfl : [] = items := Except.ok.inj (hnil.symm.trans hafter)
      exact ⟨[(p, item)], false, by simp [laid, closing], rfl, hlast⟩
    | more after =>
      cases items with
      | nil =>
        obtain rfl := splitRest_eq_ok_nil hafter
        exact ⟨[(p, item)], true, by simp [laid, closing], rfl, hlast⟩
      | cons next items =>
        obtain ⟨parts, comma, rfl, hparts, hall⟩ := ih hafter (List.cons_ne_nil next items)
        refine ⟨(p, item) :: parts, comma, ?_, by rw [List.map_cons, hparts],
          List.forall_mem_cons.2 ⟨hsegment, hall⟩⟩
        cases parts with
        | nil => cases hparts
        | cons part parts => simp [laid]

theorem isLiteral_of_mem_splitRest {whole rest : List Char} {items : List (List Char)}
    (h : splitRest whole rest = .ok items) (item : List Char) (hmem : item ∈ items)
    (hquote : item.any isQuote = true) : Literal.isLiteral item = true := by
  induction items generalizing rest with
  | nil => cases hmem
  | cons first items ih =>
    obtain ⟨after, -, hformed, hafter⟩ := splitRest_eq_ok_cons h
    rcases List.mem_cons.1 hmem with rfl | hmem
    · rw [isMalformed, hquote, Bool.true_and] at hformed
      simpa using hformed
    · exact ih hafter hmem

/-- A text is refused for a comma with nothing in front of it, or for quote marks that do not stand
around a whole argument. -/
theorem fault_of_splitRest {whole rest : List Char} {fault : Fault}
    (h : splitRest whole rest = .error fault) :
    fault = .unreadableArguments (String.ofList whole) ∨
      ∃ item, isMalformed item = true ∧ fault = .malformedArgument (String.ofList item) := by
  fun_induction splitRest whole rest with
  | case1 => cases h
  | case2 => exact Or.inl (Except.error.inj h).symm
  | case3 rest _ item after _ hmalformed =>
    exact Or.inr ⟨item, hmalformed, (Except.error.inj h).symm⟩
  | case4 rest _ item after _ _ ih =>
    rcases exists_of_bind_eq_error h with h | ⟨items, -, h⟩
    · exact ih h
    · cases h

/-! ### The texts that can be split -/

/-- The arguments of a text: of nothing none, and of segments with commas between them, and perhaps
one more comma as the last character, one for each segment. -/
inductive Divides : List Char → List (List Char) → Prop where
  | empty : Divides [] []
  | segments (parts : List (Pad × List Char)) (comma : Bool) (hne : parts ≠ [])
      (h : ∀ part ∈ parts, Segment part) : Divides (laid parts ++ closing comma) (parts.map (·.2))

theorem split_eq_ok_iff (cs : List Char) (items : List (List Char)) :
    split cs = .ok items ↔ Divides cs items := by
  constructor
  · intro h
    cases items with
    | nil =>
      obtain rfl := splitRest_eq_ok_nil h
      exact .empty
    | cons item items =>
      obtain ⟨parts, comma, rfl, hitems, hparts⟩ := exists_parts_of_splitRest h (by simp)
      rw [← hitems]
      refine .segments parts comma (fun hnil => ?_) hparts
      rw [hnil] at hitems
      cases hitems
  · intro h
    cases h with
    | empty => simp [split, splitRest]
    | segments parts comma hne hparts => exact splitRest_laid _ parts comma hne hparts

/-- An argument that begins with a quote mark is a literal, so its text can be read. -/
theorem exists_unquote_of_split {cs : List Char} {items : List (List Char)}
    (h : split cs = .ok items) (item : List Char) (hmem : item ∈ items)
    (hquote : item.head?.any isQuote = true) : ∃ text, Literal.unquote item = .ok text := by
  have hany : item.any isQuote = true := by
    cases item with
    | nil => cases hquote
    | cons c cs => exact List.any_eq_true.2 ⟨c, List.mem_cons_self .., hquote⟩
  have hliteral := isLiteral_of_mem_splitRest h item hmem hany
  obtain ⟨text, hwrites⟩ := Literal.exists_writes_of_isLiteral item hliteral
  exact ⟨text, hwrites.unquote_eq⟩

end Arguments

theorem argumentsOf_eq_ok_iff (text : String) (items : List String) :
    argumentsOf text = .ok items ↔
      Arguments.split text.toList = .ok (items.map String.toList) := by
  rw [argumentsOf]
  cases Arguments.split text.toList with
  | error fault =>
    constructor
    · intro h
      cases h
    · intro h
      cases h
  | ok found =>
    show Except.ok (found.map String.ofList) = .ok items ↔ _
    rw [Except.ok.injEq, Except.ok.injEq]
    constructor
    · rintro rfl
      simp [Function.comp_def]
    · rintro rfl
      simp [Function.comp_def]

/-- Splitting a text is exact. It gives the arguments of the texts that are made of segments, and
refuses every other text for what it says. The arguments that begin with a quote mark can be read as
terms. -/
theorem argumentsOf_exact (text : String) :
    (∀ items, argumentsOf text = .ok items ↔
      Arguments.Divides text.toList (items.map String.toList)) ∧
    ((¬ ∃ items, Arguments.Divides text.toList items) ↔
      ∃ fault, argumentsOf text = .error fault ∧ fault.kind = .wrongValue ∧
        (fault = .unreadableArguments text ∨
          ∃ item, Arguments.isMalformed item = true ∧
            fault = .malformedArgument (String.ofList item))) ∧
    ∀ items, argumentsOf text = .ok items → ∀ item ∈ items,
      item.toList.head?.any isQuote = true → ∃ term, termOf item = .ok term := by
  have hexact : ∀ items, argumentsOf text = .ok items ↔
      Arguments.Divides text.toList (items.map String.toList) := fun items =>
    (argumentsOf_eq_ok_iff text items).trans (Arguments.split_eq_ok_iff ..)
  refine ⟨hexact, ⟨fun hnone => ?_, ?_⟩, ?_⟩
  · cases hsplit : Arguments.split text.toList with
    | ok items => exact absurd ⟨items, (Arguments.split_eq_ok_iff ..).1 hsplit⟩ hnone
    | error fault =>
      have hfault := Arguments.fault_of_splitRest hsplit
      rw [String.ofList_toList] at hfault
      refine ⟨fault, by rw [argumentsOf, hsplit]; rfl, ?_, hfault⟩
      rcases hfault with rfl | ⟨_, -, rfl⟩ <;> rfl
  · rintro ⟨fault, hfault, -⟩ ⟨items, hitems⟩
    have hsplit := (Arguments.split_eq_ok_iff ..).2 hitems
    rw [argumentsOf, hsplit] at hfault
    cases hfault
  · intro items hitems item hmem hquote
    have hsplit := (argumentsOf_eq_ok_iff text items).1 hitems
    obtain ⟨term, hterm⟩ :=
      Arguments.exists_unquote_of_split hsplit item.toList (List.mem_map_of_mem hmem) hquote
    exact ⟨String.ofList term, by rw [termOf, hterm]; rfl⟩

theorem argumentsOf_exact_mixed :
    argumentsOf " 'a, \\'b' ,c d,\t \n," = .ok ["'a, \\'b'", "c d", "\n"] ∧
      (∃ term, termOf "'a, \\'b'" = .ok term) ∧
      ¬ ∃ items, Arguments.Divides "'a' b".toList items := by
  have hitems : argumentsOf " 'a, \\'b' ,c d,\t \n," = .ok ["'a, \\'b'", "c d", "\n"] := by cbv
  have hrefused : argumentsOf "'a' b" = .error (.malformedArgument "'a' b") := by cbv
  have hexact := argumentsOf_exact " 'a, \\'b' ,c d,\t \n,"
  have hdivides := (hexact.1 _).1 hitems
  refine ⟨(hexact.1 _).2 hdivides, hexact.2.2 _ hitems _ (List.mem_cons_self ..) rfl, ?_⟩
  exact (argumentsOf_exact "'a' b").2.1.2
    ⟨_, hrefused, rfl, Or.inr ⟨"'a' b".toList, by decide, by rw [String.ofList_toList]⟩⟩

end TermWindow.Query
