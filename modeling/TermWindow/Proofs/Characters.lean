import Mathlib.Algebra.Group.Nat.Defs
import Mathlib.Data.List.Induction
import TermWindow.Query

/-!
# Characters of a query

Word characters, among them the digits of every script, are neither blanks nor quote marks nor
commas, and a digit begins no name.
-/

namespace TermWindow.Text

/-! ### Marks -/

theorem isBlank_of_isQuote (c : Char) (h : isQuote c = true) : isBlank c = false := by
  simp only [isQuote, Bool.or_eq_true, decide_eq_true_eq] at h
  rcases h with rfl | rfl <;> decide

theorem isQuote_of_isBlank (c : Char) (h : isBlank c = true) : isQuote c = false := by
  rw [← Bool.not_eq_true]
  intro hq
  rw [isBlank_of_isQuote c hq] at h
  cases h

theorem ne_comma_of_isBlank (c : Char) (h : isBlank c = true) : c ≠ ',' := by
  intro hc
  subst hc
  exact absurd h (by decide)

theorem ne_backslash_of_isQuote (c : Char) (h : isQuote c = true) : c ≠ backslash := by
  simp only [isQuote, Bool.or_eq_true, decide_eq_true_eq] at h
  rcases h with rfl | rfl <;> decide

/-! ### Word characters -/

theorem isAlpha_iff (c : Char) : c.isAlpha = true ↔
    (65 ≤ c.toNat ∧ c.toNat ≤ 90) ∨ (97 ≤ c.toNat ∧ c.toNat ≤ 122) := by
  have hletters : c.isAlpha = (decide (c.val ≥ 'A'.val ∧ c.val ≤ 'Z'.val) ||
      (c.val ≥ 'a'.val && c.val ≤ 'z'.val)) := rfl
  simp only [hletters, Bool.or_eq_true, Bool.and_eq_true, decide_eq_true_eq, ge_iff_le,
    UInt32.le_iff_toNat_le]
  exact Iff.rfl

theorem isDigit_ascii_iff (c : Char) : c.isDigit = true ↔ 48 ≤ c.toNat ∧ c.toNat ≤ 57 := by
  simp only [Char.isDigit, Bool.and_eq_true, decide_eq_true_eq, ge_iff_le, UInt32.le_iff_toNat_le]
  exact Iff.rfl

theorem isWord_ascii_iff (c : Char) (h : c.toNat < 0x80) : isWord c = true ↔
    (65 ≤ c.toNat ∧ c.toNat ≤ 90) ∨ (97 ≤ c.toNat ∧ c.toNat ≤ 122) ∨
      (48 ≤ c.toNat ∧ c.toNat ≤ 57) ∨ c = '_' := by
  simp only [isWord, if_pos h, Char.isAlphanum, Bool.or_eq_true, decide_eq_true_eq, isAlpha_iff,
    isDigit_ascii_iff, or_assoc]

theorem isWord_of_isAlpha (c : Char) (h : c.isAlpha = true ∨ c = '_') : isWord c = true := by
  rcases h with h | rfl
  · have hcode := (isAlpha_iff c).1 h
    apply (isWord_ascii_iff c (by omega)).2
    omega
  · decide

/-- No span of the word characters meets one of the blanks. -/
theorem wordSpans_apart :
    ∀ s ∈ wordSpans, ∀ b ∈ blankSpans, s.last < b.first ∨ b.last < s.first := by
  have h : (wordSpans.all fun s => blankSpans.all fun b =>
      s.last.blt b.first || b.last.blt s.first) = true := by decide +kernel
  simpa only [List.all_eq_true, Bool.or_eq_true, Nat.blt_eq] using h

theorem isBlank_of_isWord (c : Char) (h : isWord c = true) : isBlank c = false := by
  by_cases hascii : c.toNat < 0x80
  · have hcode := (isWord_ascii_iff c hascii).1 h
    rw [← Bool.not_eq_true, isBlank, inSpans_iff]
    intro hblank
    obtain ⟨b, hb, hfirst, hlast⟩ := hblank
    have hspan : ∀ b ∈ blankSpans, b.last ≤ 0x20 ∨ 0x80 ≤ b.first := by decide
    have hunder : '_'.toNat = 95 := rfl
    have := hspan b hb
    rcases hcode with hcode | hcode | hcode | rfl
    · omega
    · omega
    · omega
    · omega
  · rw [isWord, if_neg hascii, inSpans_iff] at h
    obtain ⟨s, hs, hsfirst, hslast⟩ := h
    rw [← Bool.not_eq_true, isBlank, inSpans_iff]
    intro hblank
    obtain ⟨b, hb, hfirst, hlast⟩ := hblank
    have := wordSpans_apart s hs b hb
    omega

theorem ne_comma_of_isWord (c : Char) (h : isWord c = true) : c ≠ ',' := by
  intro hc
  subst hc
  exact absurd h (by decide)

theorem isQuote_of_isWord (c : Char) (h : isWord c = true) : isQuote c = false := by
  rw [← Bool.not_eq_true]
  intro hq
  simp only [isQuote, Bool.or_eq_true, decide_eq_true_eq] at hq
  revert h
  rcases hq with rfl | rfl <;> decide

/-! ### Digits -/

theorem exists_zeroDigit (c : Char) (h : isDigit c = true) :
    ∃ start ∈ zeroDigits, start ≤ c.toNat ∧ c.toNat ≤ start + 9 := by
  rw [isDigit, digitValue?, Option.isSome_map, Option.isSome_iff_exists] at h
  obtain ⟨start, hstart⟩ := h
  have hspan := List.find?_some hstart
  simp only [Bool.and_eq_true, decide_eq_true_eq] at hspan
  exact ⟨start, List.mem_of_find?_eq_some hstart, hspan⟩

/-- The ten digits of a script lie in one span of the word characters, but for those of ASCII. -/
theorem zeroDigits_within : ∀ start ∈ zeroDigits, start = 48 ∨
    0x80 ≤ start ∧ ∃ s ∈ wordSpans, s.first ≤ start ∧ start + 9 ≤ s.last := by
  have h : (zeroDigits.all fun start => start == 48 || Nat.ble 0x80 start &&
      wordSpans.any fun s => s.first.ble start && (start + 9).ble s.last) = true := by
    decide +kernel
  simpa only [List.all_eq_true, List.any_eq_true, Bool.or_eq_true, Bool.and_eq_true, beq_iff_eq,
    Nat.ble_eq] using h

theorem isWord_of_isDigit (c : Char) (h : isDigit c = true) : isWord c = true := by
  obtain ⟨start, hstart, hfirst, hlast⟩ := exists_zeroDigit c h
  rcases zeroDigits_within start hstart with rfl | ⟨hbeyond, s, hs, hsfirst, hslast⟩
  · apply (isWord_ascii_iff c (by omega)).2
    omega
  · have hascii : ¬c.toNat < 0x80 := by omega
    rw [isWord, if_neg hascii, inSpans_iff]
    exact ⟨s, hs, by omega, by omega⟩

theorem isNameStart_of_isDigit (c : Char) (h : isDigit c = true) :
    Query.isNameStart c = false := by
  obtain ⟨start, hstart, hfirst, hlast⟩ := exists_zeroDigit c h
  have hzero : start = 48 ∨ 0x80 ≤ start := (zeroDigits_within start hstart).imp_right And.left
  rw [← Bool.not_eq_true, Query.isNameStart, Bool.or_eq_true, isAlpha_iff, decide_eq_true_eq]
  have hunder : '_'.toNat = 95 := rfl
  intro hfirst
  rcases hfirst with hcode | rfl
  · omega
  · omega

theorem digitValue?_ascii (c : Char) (h : c.isDigit = true) :
    digitValue? c = some (c.toNat - 48) := by
  have hcode := (isDigit_ascii_iff c).1 h
  have hfind : zeroDigits.find? (fun start => start ≤ c.toNat && c.toNat ≤ start + 9) =
      some 48 := by
    apply List.find?_cons_of_pos
    simp only [Bool.and_eq_true, decide_eq_true_eq]
    omega
  rw [digitValue?, hfind]
  rfl

/-! ### The decimal digits of a number -/

theorem isDigit_of_mem_toDigits (n : Nat) (c : Char) (h : c ∈ Nat.toDigits 10 n) :
    isDigit c = true := by
  have hascii := Nat.isDigit_of_mem_toDigits (by decide) (by decide) h
  rw [isDigit, digitValue?_ascii c hascii]
  rfl

theorem digitsValue_toDigits (n : Nat) : digitsValue (Nat.toDigits 10 n) = n := by
  -- both folds agree from any value on, as long as only digits of ASCII follow
  have hfold : ∀ (cs : List Char) (value : Nat), (∀ c ∈ cs, c.isDigit = true) →
      cs.foldl (fun value c => 10 * value + (digitValue? c).getD 0) value =
        Nat.ofDigitChars 10 cs value := by
    intro cs
    induction cs with
    | nil =>
      intro value _
      rfl
    | cons c cs ih =>
      intro value h
      rw [List.foldl_cons, Nat.ofDigitChars_cons, digitValue?_ascii c (h c (List.mem_cons_self ..)),
        ih _ fun d hd => h d (List.mem_cons_of_mem _ hd)]
      rfl
  rw [digitsValue, hfold _ 0 fun c hc => Nat.isDigit_of_mem_toDigits (by decide) (by decide) hc]
  exact Nat.ofDigitChars_ten_toDigits

theorem digitsValue_concat (cs : List Char) (c : Char) :
    digitsValue (cs ++ [c]) = 10 * digitsValue cs + (digitValue? c).getD 0 := by
  rw [digitsValue, List.foldl_append]
  rfl

theorem digitsValue_lt (cs : List Char) : digitsValue cs < 10 ^ cs.length := by
  induction cs using List.reverseRecOn with
  | nil => decide
  | append_singleton cs c ih =>
    have hdigit : (digitValue? c).getD 0 ≤ 9 := by
      cases hv : digitValue? c with
      | none => exact Nat.zero_le 9
      | some v => exact digitValue?_le hv
    rw [digitsValue_concat, List.length_append, List.length_singleton, Nat.pow_succ]
    omega

end TermWindow.Text
