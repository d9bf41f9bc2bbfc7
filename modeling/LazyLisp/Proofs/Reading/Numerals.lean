import LazyLisp.Proofs.Reading.Grammar
import LazyLisp.Proofs.Reading.Lexing

/-!
# Numerals and names

Numerals, identifiers and reserved tokens exclude each other as far as the
reader needs it: a numeral is neither a name nor reserved, so it is read as an
integer whatever the functions are called.

* `readNumeral_decimal`: the numeral of an integer is read as this integer, if
  the digit limit lets it be written;
* `fitsDigitLimit_of_readNumeral`: what can be read can be written again.
-/

namespace LazyLisp

variable {t : Token} {n : Int}

/-! ## Decimal numerals -/

theorem dropSign_of_isDigit {cs : List Char} (h : ∀ c ∈ cs, c.isDigit = true) :
    dropSign cs = cs := by
  unfold dropSign
  split
  · exact absurd (h '-' List.mem_cons_self) (by decide)
  · rfl

theorem isDigit_of_mem_toDigits {n : Nat} {c : Char} (h : c ∈ Nat.toDigits 10 n) :
    c.isDigit = true :=
  Nat.isDigit_of_mem_toDigits (by decide) (by decide) h

theorem toList_decimal_negSucc (n : Nat) :
    (decimal (.negSucc n)).toList = '-' :: Nat.toDigits 10 (n + 1) := by
  simp [decimal, naturalText]

theorem dropSign_decimal (n : Int) : dropSign (decimal n).toList = Nat.toDigits 10 n.natAbs := by
  cases n with
  | ofNat n =>
    rw [decimal, naturalText, String.toList_ofList,
      dropSign_of_isDigit fun _ => isDigit_of_mem_toDigits]
    rfl
  | negSucc n =>
    rw [toList_decimal_negSucc]
    rfl

theorem isNumeral_decimal (n : Int) : isNumeral (decimal n) = true := by
  rw [isNumeral, dropSign_decimal]
  simpa [Nat.toDigits_ne_nil] using fun _ => isDigit_of_mem_toDigits

theorem numeralValue_decimal (n : Int) : numeralValue (decimal n) = n := by
  rw [numeralValue, dropSign_decimal, Nat.ofDigitChars_ten_toDigits]
  cases n with
  | ofNat n =>
    have hhead : (decimal (.ofNat n)).toList.head? ≠ some '-' := by
      intro h
      rw [decimal, naturalText, String.toList_ofList] at h
      exact absurd (isDigit_of_mem_toDigits (List.mem_of_head? h)) (by decide)
    rw [if_neg hhead]
    rfl
  | negSucc n =>
    rw [toList_decimal_negSucc, List.head?_cons, if_pos rfl]
    rfl

/-- The numeral of an integer is read as this integer. -/
theorem readNumeral_decimal (h : fitsDigitLimit n = true) : readNumeral (decimal n) = .ok n := by
  rw [fitsDigitLimit, decide_eq_true_iff] at h
  rw [readNumeral, dropSign_decimal, if_pos h, numeralValue_decimal]

/-! ## Numerals that are read -/

/-- The digit limit is a bound on the size of the integer. -/
theorem fitsDigitLimit_iff {n : Int} : fitsDigitLimit n = true ↔ n.natAbs < 10 ^ digitLimit := by
  rw [fitsDigitLimit, decide_eq_true_iff]
  exact Nat.length_toDigits_le_iff (by decide) (by decide)

theorem ofDigitChars_lt {cs : List Char} (h : ∀ c ∈ cs, c.isDigit = true) (m : Nat) :
    Nat.ofDigitChars 10 cs m < (m + 1) * 10 ^ cs.length := by
  induction cs generalizing m with
  | nil => simp
  | cons c cs ih =>
    rw [List.forall_mem_cons] at h
    have hc : c.toNat - '0'.toNat ≤ 9 := by
      simp only [Char.isDigit, Bool.and_eq_true, decide_eq_true_iff, UInt32.le_iff_toNat_le] at h
      have hnine : c.toNat ≤ 57 := h.1.2
      have hzero : '0'.toNat = 48 := rfl
      omega
    calc Nat.ofDigitChars 10 (c :: cs) m
        = Nat.ofDigitChars 10 cs (10 * m + (c.toNat - '0'.toNat)) := rfl
      _ < (10 * m + (c.toNat - '0'.toNat) + 1) * 10 ^ cs.length := ih h.2 _
      _ ≤ ((m + 1) * 10) * 10 ^ cs.length := Nat.mul_le_mul_right _ (by omega)
      _ = (m + 1) * 10 ^ (c :: cs).length := by
        rw [List.length_cons, Nat.pow_succ, Nat.mul_assoc, Nat.mul_comm 10]

/-- What can be read can be written again. -/
theorem fitsDigitLimit_of_readNumeral (hnumeral : isNumeral t = true)
    (h : readNumeral t = .ok n) : fitsDigitLimit n = true := by
  rw [readNumeral] at h
  split at h
  · next hlimit =>
    cases h
    rw [isNumeral, Bool.and_eq_true, List.all_eq_true] at hnumeral
    have hvalue := ofDigitChars_lt hnumeral.2 0
    have habs : (numeralValue t).natAbs = Nat.ofDigitChars 10 (dropSign t.toList) 0 := by
      rw [numeralValue]
      split <;> simp
    rw [fitsDigitLimit_iff, habs]
    calc Nat.ofDigitChars 10 (dropSign t.toList) 0
        < (0 + 1) * 10 ^ (dropSign t.toList).length := hvalue
      _ = 10 ^ (dropSign t.toList).length := by rw [Nat.zero_add, Nat.one_mul]
      _ ≤ 10 ^ digitLimit := Nat.pow_le_pow_right (by decide) hlimit
  · cases h

/-! ## Kinds of tokens -/

theorem mem_dropSign {c : Char} {cs : List Char} (h : c ∈ cs) : c = '-' ∨ c ∈ dropSign cs := by
  unfold dropSign
  split
  · exact List.mem_cons.1 h
  · exact .inr h

theorem mem_of_mem_dropSign {c : Char} {cs : List Char} (h : c ∈ dropSign cs) : c ∈ cs := by
  revert h
  unfold dropSign
  split
  · exact List.mem_cons_of_mem _
  · exact id

/-- A numeral has a digit in it, and but for the sign nothing else. -/
theorem exists_isDigit_of_isNumeral (h : isNumeral t = true) :
    (∃ c ∈ t.toList, c.isDigit = true) ∧ ∀ c ∈ t.toList, c = '-' ∨ c.isDigit = true := by
  rw [isNumeral, Bool.and_eq_true, List.all_eq_true, Bool.not_eq_true',
    List.isEmpty_eq_false_iff] at h
  obtain ⟨c, hc⟩ := List.exists_mem_of_ne_nil _ h.1
  exact ⟨⟨c, mem_of_mem_dropSign hc, h.2 c hc⟩, fun d hd => (mem_dropSign hd).imp_right (h.2 d)⟩

theorem isAtom_of_isNumeral (h : isNumeral t = true) : isAtom t = true := by
  obtain ⟨⟨c, hc, -⟩, hall⟩ := exists_isDigit_of_isNumeral h
  rw [isAtom, Bool.and_eq_true, List.all_eq_true, Bool.not_eq_true', List.isEmpty_eq_false_iff]
  refine ⟨List.ne_nil_of_mem hc, fun d hd => ?_⟩
  rcases hall d hd with rfl | hdigit
  · decide
  · exact isAtomChar_of_isNameChar (.inr hdigit)

/-- No numeral is a name. -/
theorem not_isIdentifier_of_isNumeral (h : isNumeral t = true) : isIdentifier t = false := by
  obtain ⟨⟨c, hc, hdigit⟩, -⟩ := exists_isDigit_of_isNumeral h
  rw [← Bool.not_eq_true, isIdentifier, Bool.and_eq_true, List.all_eq_true]
  rintro ⟨-, hname⟩
  have hc := hname c hc
  simp only [isNameChar, Char.isAlpha, Char.isUpper, Char.isLower, Char.isDigit, Bool.or_eq_true,
    Bool.and_eq_true, decide_eq_true_iff, beq_iff_eq, UInt32.le_iff_toNat_le, or_assoc] at hc hdigit
  -- The digits come before the letters.
  have hnine : c.val.toNat ≤ 57 := hdigit.2
  rcases hc with ⟨hletter, -⟩ | ⟨hletter, -⟩ | rfl | rfl
  · exact absurd (Nat.le_trans hletter hnine) (by decide)
  · exact absurd (Nat.le_trans hletter hnine) (by decide)
  · exact absurd hdigit (by decide)
  · exact absurd hdigit (by decide)

theorem isReserved_iff : isReserved t = true ↔
    t ∈ "(" :: "\"" :: "true" :: "false" :: keywords.map Prod.fst := by
  simp only [isReserved, Bool.or_eq_true, decide_eq_true_iff, List.lookup_isSome_iff, beq_iff_eq,
    List.mem_cons, List.mem_map]
  grind

/-- No numeral is reserved. -/
theorem not_isReserved_of_isNumeral (h : isNumeral t = true) : isReserved t = false := by
  have hnone : ∀ r ∈ "(" :: "\"" :: "true" :: "false" :: keywords.map Prod.fst,
      ¬isNumeral r = true := by decide
  rw [← Bool.not_eq_true, isReserved_iff]
  exact fun hmem => hnone t hmem h

end LazyLisp
