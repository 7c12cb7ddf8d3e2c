-- Decimal numerals are read back as the numbers they were written for, with and without zeros in
-- front.
import Mathlib.Algebra.Group.Nat.Defs
import NetBoot.Text.Decimal

namespace NetBoot.Text

/-! ## Digits -/

theorem isDigit_iff (c : Char) : c.isDigit = true ↔ '0' ≤ c ∧ c ≤ '9' := by
  rw [Char.isDigit, Bool.and_eq_true, decide_eq_true_eq, decide_eq_true_eq]
  exact Iff.rfl

theorem digit?_eq {c : Char} (h : c.isDigit = true) : digit? c = some (c.toNat - '0'.toNat) := by
  unfold digit?
  rw [if_pos ((isDigit_iff c).mp h)]

theorem digit?_isSome_iff (c : Char) : (digit? c).isSome = c.isDigit := by
  by_cases h : c.isDigit = true
  · rw [digit?_eq h, h]
    rfl
  · rw [digit?, if_neg fun hc => h ((isDigit_iff c).mpr hc)]
    simpa using h

/-- Reading on is what the library calls the number of the digits. -/
theorem continueNat?_eq {s : List Char} (h : ∀ c ∈ s, c.isDigit = true) (n : Nat) :
    continueNat? n s = some (Nat.ofDigitChars 10 s n) := by
  induction s generalizing n with
  | nil => rfl
  | cons c s ih =>
    have htail : ∀ d ∈ s, d.isDigit = true := fun d hd => h d (List.mem_cons_of_mem c hd)
    rw [continueNat?, digit?_eq (h c List.mem_cons_self), Option.bind_some, ih htail,
      Nat.ofDigitChars_cons, Nat.mul_comm]

theorem readNat?_eq {s : List Char} (hne : s ≠ []) (h : ∀ c ∈ s, c.isDigit = true) :
    readNat? s = some (Nat.ofDigitChars 10 s 0) := by
  cases s with
  | nil => exact absurd rfl hne
  | cons c s => exact continueNat?_eq h 0

/-! ## Numerals -/

theorem isDigit_of_mem_showNat {n : Nat} {c : Char} (h : c ∈ showNat n) : c.isDigit = true :=
  Nat.isDigit_of_mem_toDigits (by decide) (by decide) h

theorem isDigit_of_mem_zeros {zeros n : Nat} {c : Char}
    (h : c ∈ List.replicate zeros '0' ++ showNat n) : c.isDigit = true := by
  rcases List.mem_append.mp h with h | h
  · rw [List.eq_of_mem_replicate h]
    rfl
  · exact isDigit_of_mem_showNat h

theorem isDigit_of_mem_showNatPadded {width n : Nat} {c : Char} (h : c ∈ showNatPadded width n) :
    c.isDigit = true :=
  isDigit_of_mem_zeros h

theorem length_showNatPadded {width n : Nat} (hwidth : 0 < width) (h : n < 10 ^ width) :
    (showNatPadded width n).length = width := by
  have hle : (showNat n).length ≤ width := (Nat.length_toDigits_le_iff (by decide) hwidth).mpr h
  rw [showNatPadded, List.length_append, List.length_replicate]
  omega

theorem ofDigitChars_replicate_zero (k : Nat) (s : List Char) :
    Nat.ofDigitChars 10 (List.replicate k '0' ++ s) 0 = Nat.ofDigitChars 10 s 0 := by
  induction k with
  | zero => rfl
  | succ k ih =>
    rw [List.replicate_succ, List.cons_append, Nat.ofDigitChars_cons]
    exact ih

/-- Zeros in front do not change the number. -/
theorem readNat?_zeros (zeros n : Nat) :
    readNat? (List.replicate zeros '0' ++ showNat n) = some n := by
  have hne : List.replicate zeros '0' ++ showNat n ≠ [] := by
    unfold showNat
    simp [Nat.toDigits_ne_nil]
  rw [readNat?_eq hne fun c => isDigit_of_mem_zeros, ofDigitChars_replicate_zero, showNat,
    Nat.ofDigitChars_ten_toDigits]

theorem readNat?_showNatPadded (width n : Nat) : readNat? (showNatPadded width n) = some n :=
  readNat?_zeros _ n

/-! ## The text of a number that was read -/

theorem isDigit_of_continueNat? {s : List Char} {n m : Nat} (h : continueNat? n s = some m) :
    ∀ c ∈ s, c.isDigit = true := by
  induction s generalizing n with
  | nil => simp
  | cons c s ih =>
    rw [continueNat?, Option.bind_eq_some_iff] at h
    obtain ⟨d, hd, hrest⟩ := h
    refine List.forall_mem_cons.mpr ⟨?_, ih hrest⟩
    rw [← digit?_isSome_iff, hd]
    rfl

theorem digitChar_facts : ∀ n < 10, Nat.digitChar n = Char.ofNat (48 + n) := by decide

theorem digitChar_toNat {c : Char} (h : c.isDigit = true) :
    c.toNat - '0'.toNat < 10 ∧ Nat.digitChar (c.toNat - '0'.toNat) = c := by
  obtain ⟨hlow, hhigh⟩ := (isDigit_iff c).mp h
  have hlow : '0'.toNat ≤ c.toNat := hlow
  have hhigh : c.toNat ≤ '9'.toNat := hhigh
  have hzero : '0'.toNat = 48 := rfl
  have hnine : '9'.toNat = 57 := rfl
  have hlt : c.toNat - '0'.toNat < 10 := by omega
  refine ⟨hlt, ?_⟩
  rw [digitChar_facts _ hlt, show 48 + (c.toNat - '0'.toNat) = c.toNat by omega, Char.ofNat_toNat]

/-- More digits after a number that is not zero make its text longer. -/
theorem showNat_append {s : List Char} (h : ∀ c ∈ s, c.isDigit = true) {n : Nat} (hn : 0 < n) :
    showNat n ++ s = showNat (Nat.ofDigitChars 10 s n) := by
  induction s generalizing n with
  | nil => exact List.append_nil _
  | cons c s ih =>
    obtain ⟨hc, htail⟩ := List.forall_mem_cons.mp h
    obtain ⟨hlt, hchar⟩ := digitChar_toNat hc
    have hstep : showNat n ++ [c] = showNat (10 * n + (c.toNat - '0'.toNat)) := by
      unfold showNat
      rw [← Nat.toDigits_append_toDigits (by decide) hn hlt, Nat.toDigits_of_lt_base hlt, hchar]
    rw [Nat.ofDigitChars_cons, ← ih htail (by omega), ← hstep, List.append_assoc]
    rfl

/-- A numeral without a zero in front of another digit is the text of its number. -/
theorem showNat_of_readNat? {s : List Char} {n : Nat} (h : readNat? s = some n)
    (hzero : s.length ≤ 1 ∨ s.head? ≠ some '0') : showNat n = s := by
  cases s with
  | nil => cases h
  | cons c s =>
    have hall := isDigit_of_continueNat? h
    obtain ⟨hc, htail⟩ := List.forall_mem_cons.mp hall
    obtain ⟨hlt, hchar⟩ := digitChar_toNat hc
    have hfront : showNat (c.toNat - '0'.toNat) = [c] := by
      rw [showNat, Nat.toDigits_of_lt_base hlt, hchar]
    have hn : Nat.ofDigitChars 10 s (c.toNat - '0'.toNat) = n := by
      rw [readNat?_eq (List.cons_ne_nil c s) hall, Nat.ofDigitChars_cons, Nat.mul_zero,
        Nat.zero_add, Option.some.injEq] at h
      exact h
    cases s with
    | nil =>
      rw [← hn, ← hfront]
      rfl
    | cons d s =>
      have hpos : 0 < c.toNat - '0'.toNat := by
        rcases hzero with hlen | hhead
        · simp at hlen
        · apply Nat.pos_of_ne_zero
          intro hd
          rw [hd] at hchar
          exact hhead (congrArg some hchar.symm)
      rw [← hn, ← showNat_append htail hpos, hfront]
      rfl

/-! ## Numerals that are read -/

theorem readNat?_eq_some {s : List Char} {n : Nat} :
    readNat? s = some n ↔
      s ≠ [] ∧ (∀ c ∈ s, c.isDigit = true) ∧ Nat.ofDigitChars 10 s 0 = n := by
  refine ⟨?_, ?_⟩
  · intro h
    cases s with
    | nil => cases h
    | cons c s =>
      have hall := isDigit_of_continueNat? h
      rw [readNat?_eq (List.cons_ne_nil c s) hall, Option.some.injEq] at h
      exact ⟨List.cons_ne_nil c s, hall, h⟩
  · rintro ⟨hne, hall, rfl⟩
    exact readNat?_eq hne hall

/-- One or more digits that write the number, with or without a plus sign in front. -/
def IsNumeral (s : List Char) (n : Nat) : Prop :=
  ∃ digits, (s = digits ∨ s = '+' :: digits) ∧ digits ≠ [] ∧ (∀ c ∈ digits, c.isDigit = true) ∧
    Nat.ofDigitChars 10 digits 0 = n

theorem isNumeral_zeros (zeros n : Nat) : IsNumeral (List.replicate zeros '0' ++ showNat n) n :=
  ⟨_, Or.inl rfl, readNat?_eq_some.mp (readNat?_zeros zeros n)⟩

theorem readNat?_withoutPlus {s : List Char} {n : Nat} :
    readNat? (withoutPlus s) = some n ↔ IsNumeral s n := by
  rw [readNat?_eq_some]
  refine ⟨?_, ?_⟩
  · intro h
    refine ⟨withoutPlus s, ?_, h⟩
    cases s with
    | nil => exact Or.inl rfl
    | cons c s =>
      rw [withoutPlus]
      by_cases hc : c = '+'
      · rw [if_pos hc, hc]
        exact Or.inr rfl
      · rw [if_neg hc]
        exact Or.inl rfl
  · rintro ⟨digits, hs, h⟩
    obtain ⟨c, rest, rfl⟩ := List.exists_cons_of_ne_nil h.1
    have hc : c ≠ '+' := by
      rintro rfl
      exact absurd (h.2.1 '+' List.mem_cons_self) (by decide)
    rcases hs with rfl | rfl
    · rwa [withoutPlus, if_neg hc]
    · rwa [withoutPlus, if_pos rfl]

theorem readUpTo?_eq_some {largest n : Nat} {s : List Char} :
    readUpTo? largest s = some n ↔ IsNumeral s n ∧ n ≤ largest := by
  rw [readUpTo?, Option.filter_eq_some_iff, readNat?_withoutPlus, decide_eq_true_eq]

/-! ## The size of a number that was read -/

theorem continueNat?_lt {s : List Char} {n m : Nat} (h : continueNat? n s = some m) :
    m < (n + 1) * 10 ^ s.length := by
  induction s generalizing n with
  | nil =>
    cases h
    simp
  | cons c s ih =>
    rw [continueNat?, Option.bind_eq_some_iff] at h
    obtain ⟨d, hd, hrest⟩ := h
    have hd10 : d ≤ 9 := by
      unfold digit? at hd
      split at hd
      · next hc =>
        have hle : c.toNat ≤ '9'.toNat := hc.2
        cases hd
        exact Nat.sub_le_sub_right hle _
      · cases hd
    calc m < (n * 10 + d + 1) * 10 ^ s.length := ih hrest
      _ ≤ ((n + 1) * 10) * 10 ^ s.length := Nat.mul_le_mul_right _ (by omega)
      _ = (n + 1) * 10 ^ (c :: s).length := by
        rw [List.length_cons, Nat.pow_succ, Nat.mul_assoc, Nat.mul_comm 10]

/-- A numeral of some digits is a number below that power of ten. -/
theorem readNat?_lt {s : List Char} {n : Nat} (h : readNat? s = some n) : n < 10 ^ s.length := by
  cases s with
  | nil => cases h
  | cons c s =>
    have := continueNat?_lt h
    rwa [Nat.zero_add, Nat.one_mul] at this

end NetBoot.Text
