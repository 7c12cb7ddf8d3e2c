-- Byte strings as hexadecimal pairs with colons between them are read back as they were.
import NetBoot.Text.Hex
import NetBoot.Proofs.Text.Pieces

namespace NetBoot.Text

/-! ## Digits -/

theorem toNat_lt_of_hexValue? {c : Char} {n : Nat} (h : hexValue? c = some n) : c.toNat < 0x80 := by
  have hbound : ∀ d : Char, d ≤ 'f' → c ≤ d → c.toNat < 0x80 := by
    intro d hd hc
    have hle : c.toNat ≤ 'f'.toNat := Nat.le_trans hc hd
    have hf : 'f'.toNat < 0x80 := by decide
    omega
  unfold hexValue? at h
  split at h
  · next hc => exact hbound '9' (by decide) hc.2
  split at h
  · next hc => exact hbound 'f' (by decide) hc.2
  split at h
  · next hc => exact hbound 'F' (by decide) hc.2
  · cases h

theorem hexValue?_facts : ∀ k < 0x80, (hexValue? (Char.ofNat k)).all (fun n =>
    n < 16 ∧ (Char.ofNat k).toLower = hexDigit n ∧ isBlank (Char.ofNat k) = false) = true := by
  decide +kernel

/-- A digit has a value below sixteen, of which it is the digit but for its case. -/
theorem of_hexValue? {c : Char} {n : Nat} (h : hexValue? c = some n) :
    n < 16 ∧ c.toLower = hexDigit n ∧ isBlank c = false := by
  have hfacts := hexValue?_facts c.toNat (toNat_lt_of_hexValue? h)
  rw [Char.ofNat_toNat, h, Option.all_some, decide_eq_true_eq] at hfacts
  exact hfacts

theorem hexDigit_facts : ∀ n < 16, hexValue? (hexDigit n) = some n ∧ hexDigit n ≠ ':' := by
  decide +kernel

/-- A digit has the same value in lower case. -/
theorem hexValue?_toLower {c : Char} {n : Nat} (h : hexValue? c = some n) :
    hexValue? c.toLower = some n := by
  obtain ⟨hlt, hlower, _⟩ := of_hexValue? h
  rw [hlower]
  exact (hexDigit_facts n hlt).1

/-! ## Pairs -/

theorem hexPair_ofNat {m n : Nat} (hm : m < 16) (hn : n < 16) :
    hexPair (UInt8.ofNat (m * 16 + n)) = [hexDigit m, hexDigit n] := by
  have hvalue : (UInt8.ofNat (m * 16 + n)).toNat = m * 16 + n :=
    UInt8.toNat_ofNat_of_lt' (show _ < 256 by omega)
  rw [hexPair, hvalue]
  congr 2
  · omega
  · congr 1
    omega

theorem hexPair_ofNat_of_lt {n : Nat} (hn : n < 16) :
    hexPair (UInt8.ofNat n) = ['0', hexDigit n] := by
  have hpair := hexPair_ofNat (m := 0) (by decide) hn
  rwa [Nat.zero_mul, Nat.zero_add] at hpair

theorem digit_of_mem_hexPair {b : UInt8} {c : Char} (h : c ∈ hexPair b) :
    ∃ n < 16, c = hexDigit n := by
  have hb := b.toNat_lt
  simp only [hexPair, List.mem_cons, List.not_mem_nil, or_false] at h
  rcases h with rfl | rfl
  · exact ⟨_, by omega, rfl⟩
  · exact ⟨_, by omega, rfl⟩

theorem hexPair_facts :
    ∀ n < 256, readHexByte? (hexPair (UInt8.ofNat n)) = some (UInt8.ofNat n) ∧
      ':' ∉ hexPair (UInt8.ofNat n) := by
  decide +kernel

theorem readHexByte?_hexPair (b : UInt8) : readHexByte? (hexPair b) = some b := by
  have h := (hexPair_facts b.toNat b.toNat_lt).1
  rwa [UInt8.ofNat_toNat] at h

theorem colon_not_mem_hexPair (b : UInt8) : ':' ∉ hexPair b := by
  have h := (hexPair_facts b.toNat b.toNat_lt).2
  rwa [UInt8.ofNat_toNat] at h

theorem mapM_readHexByte? (bs : Bytes) : (bs.map hexPair).mapM readHexByte? = some bs := by
  induction bs with
  | nil => rfl
  | cons b bs ih => simp [readHexByte?_hexPair, ih]

theorem colonHex_eq_nil {bs : Bytes} : colonHex bs = [] ↔ bs = [] := by
  refine ⟨?_, ?_⟩
  · intro h
    cases bs with
    | nil => rfl
    | cons b bs =>
      cases bs with
      | nil => simp [colonHex, hexPair] at h
      | cons c bs => simp [colonHex, hexPair] at h
  · rintro rfl
    rfl

theorem length_colonHex (bs : Bytes) : (colonHex bs).length = 3 * bs.length - 1 := by
  induction bs with
  | nil => rfl
  | cons b bs ih =>
    cases bs with
    | nil => rfl
    | cons c bs =>
      have hcut : colonHex (b :: c :: bs) = hexPair b ++ [':'] ++ colonHex (c :: bs) :=
        List.intercalate_cons_cons
      have hpair : (hexPair b).length = 2 := rfl
      rw [hcut, List.length_append, List.length_append, ih, hpair, List.length_singleton]
      simp only [List.length_cons]
      omega

/-- Bytes are written with digits and colons only. -/
theorem colon_or_digit_of_mem_colonHex {bs : Bytes} {c : Char} (h : c ∈ colonHex bs) :
    c = ':' ∨ ∃ n < 16, c = hexDigit n := by
  rcases mem_of_mem_intercalate h with h | ⟨piece, hpiece, h⟩
  · exact Or.inl (List.mem_singleton.mp h)
  · obtain ⟨b, _, rfl⟩ := List.mem_map.mp hpiece
    exact Or.inr (digit_of_mem_hexPair h)

theorem ascii_of_mem_colonHex {bs : Bytes} {c : Char} (h : c ∈ colonHex bs) : c.toNat < 0x80 := by
  have hdigit : ∀ n < 16, (hexDigit n).toNat < 0x80 := by decide
  rcases colon_or_digit_of_mem_colonHex h with rfl | ⟨n, hn, rfl⟩
  · decide
  · exact hdigit n hn

/-- The groups between the colons are the pairs of digits. -/
theorem fields_colonHex {bs : Bytes} (h : bs ≠ []) : fields ':' (colonHex bs) = bs.map hexPair := by
  apply fields_intercalate ':' (by simpa using h)
  intro piece hpiece
  obtain ⟨b, _, rfl⟩ := List.mem_map.mp hpiece
  exact colon_not_mem_hexPair b

/-- Bytes as pairs of digits are read back. -/
theorem readColonHex?_colonHex (bs : Bytes) : readColonHex? (colonHex bs) = some bs := by
  unfold readColonHex?
  by_cases h : bs = []
  · subst h
    rfl
  · rw [if_neg (fun he => h (colonHex_eq_nil.mp he)), fields_colonHex h, mapM_readHexByte?]

/-- No two byte strings are printed alike. -/
theorem colonHex_inj {bs cs : Bytes} : colonHex bs = colonHex cs ↔ bs = cs := by
  refine ⟨?_, congrArg colonHex⟩
  intro h
  have hread := congrArg readColonHex? h
  rw [readColonHex?_colonHex, readColonHex?_colonHex] at hread
  exact Option.some.inj hread

end NetBoot.Text
