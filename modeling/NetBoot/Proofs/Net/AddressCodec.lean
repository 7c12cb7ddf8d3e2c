-- Hardware addresses as text: what the groups between the colons may be, which byte each of them
-- stands for, and which of these texts are the ones that are printed.
import Mathlib.Data.List.Basic
import NetBoot.Proofs.Net.AddressText
import NetBoot.Proofs.Text.Utf8RoundTrip

namespace NetBoot

namespace Text

/-! ## Groups -/

/-- The digits that are printed. -/
def lowerHexDigits : List Char := "0123456789abcdef".toList

/-- The digits that are understood. -/
def hexDigits : List Char := "0123456789abcdefABCDEF".toList

/-- One or two digits of either case, or a plus sign and one digit. -/
def IsHexGroup (group : List Char) : Prop :=
  ((group.length = 1 ∨ group.length = 2) ∧ ∀ c ∈ group, c ∈ hexDigits) ∨
    ∃ c ∈ hexDigits, group = ['+', c]

/-- Two digits as they are printed. -/
def IsPrintedGroup (group : List Char) : Prop :=
  group.length = 2 ∧ ∀ c ∈ group, c ∈ lowerHexDigits

-- The instances for the characters of a list are named: a search may come upon those that run
-- through all characters.
instance (group : List Char) : Decidable (IsHexGroup group) :=
  letI := List.decidableBAll (· ∈ hexDigits) group
  letI := List.decidableBEx (fun c => group = ['+', c]) hexDigits
  inferInstanceAs (Decidable (((group.length = 1 ∨ group.length = 2) ∧ ∀ c ∈ group, c ∈ hexDigits) ∨
    ∃ c ∈ hexDigits, group = ['+', c]))

instance (group : List Char) : Decidable (IsPrintedGroup group) :=
  letI := List.decidableBAll (· ∈ lowerHexDigits) group
  inferInstanceAs (Decidable (group.length = 2 ∧ ∀ c ∈ group, c ∈ lowerHexDigits))

theorem hexDigits_facts : ∀ k < 0x80,
    (hexValue? (Char.ofNat k)).isSome = decide (Char.ofNat k ∈ hexDigits) := by
  decide +kernel

theorem ascii_of_mem_hexDigits {c : Char} (h : c ∈ hexDigits) : c.toNat < 0x80 := by
  have hall : hexDigits.all (fun c => c.toNat < 0x80) := by decide
  exact of_decide_eq_true (List.all_eq_true.mp hall c h)

/-- The characters that have a value are the digits. -/
theorem isSome_hexValue? {c : Char} : (hexValue? c).isSome ↔ c ∈ hexDigits := by
  by_cases hc : c.toNat < 0x80
  · have hfacts := hexDigits_facts c.toNat hc
    rw [Char.ofNat_toNat] at hfacts
    rw [hfacts, decide_eq_true_eq]
  · refine ⟨fun h => ?_, fun h => absurd (ascii_of_mem_hexDigits h) hc⟩
    obtain ⟨n, hn⟩ := Option.isSome_iff_exists.mp h
    exact absurd (toNat_lt_of_hexValue? hn) hc

theorem plus_not_mem_hexDigits : '+' ∉ hexDigits := by decide

theorem isSome_readHexByte?_pair {c d : Char} (hc : c ≠ '+') :
    (readHexByte? [c, d]).isSome ↔ c ∈ hexDigits ∧ d ∈ hexDigits := by
  rw [readHexByte?, if_neg hc, ← isSome_hexValue?, ← isSome_hexValue?]
  cases hexValue? c with
  | none => simp
  | some m =>
    cases hexValue? d with
    | none => simp
    | some n => simp

/-- A group stands for a byte exactly if it is written as one. -/
theorem isSome_readHexByte? {group : List Char} :
    (readHexByte? group).isSome ↔ IsHexGroup group := by
  unfold IsHexGroup
  match group with
  | [] => simp [readHexByte?]
  | [c] => simp [readHexByte?, isSome_hexValue?]
  | [c, d] =>
    by_cases hc : c = '+'
    · subst hc
      simp [readHexByte?, isSome_hexValue?, plus_not_mem_hexDigits]
    · rw [isSome_readHexByte?_pair hc]
      simp [hc]
  | c :: d :: e :: rest => simp [readHexByte?]

theorem mem_lowerHexDigits {c : Char} : c ∈ lowerHexDigits ↔ ∃ n < 16, c = hexDigit n := by
  have hall : lowerHexDigits = (List.range 16).map hexDigit := by decide
  rw [hall, List.mem_map]
  simp only [List.mem_range, eq_comm]

/-- The printed groups are those of the bytes. -/
theorem isPrintedGroup_iff {group : List Char} : IsPrintedGroup group ↔ ∃ b, group = hexPair b := by
  refine ⟨?_, ?_⟩
  · rintro ⟨hlength, hdigits⟩
    obtain ⟨c, d, rfl⟩ := List.length_eq_two.mp hlength
    obtain ⟨m, hm, rfl⟩ := mem_lowerHexDigits.mp (hdigits c (by simp))
    obtain ⟨n, hn, rfl⟩ := mem_lowerHexDigits.mp (hdigits d (by simp))
    exact ⟨_, (hexPair_ofNat hm hn).symm⟩
  · rintro ⟨b, rfl⟩
    exact ⟨rfl, fun c hc => mem_lowerHexDigits.mpr (digit_of_mem_hexPair hc)⟩

theorem isPrintedGroups_iff {groups : List (List Char)} :
    (∀ group ∈ groups, IsPrintedGroup group) ↔ ∃ bs : Bytes, groups = bs.map hexPair := by
  induction groups with
  | nil => exact ⟨fun _ => ⟨[], rfl⟩, fun _ => by simp⟩
  | cons group rest ih =>
    rw [List.forall_mem_cons, isPrintedGroup_iff, ih]
    refine ⟨?_, ?_⟩
    · rintro ⟨⟨b, rfl⟩, bs, rfl⟩
      exact ⟨b :: bs, rfl⟩
    · rintro ⟨bs, h⟩
      cases bs with
      | nil => cases h
      | cons b bs =>
        rw [List.map_cons, List.cons.injEq] at h
        exact ⟨⟨b, h.1⟩, bs, h.2⟩

/-! ## Groups as numbers -/

/-- The number that digits to base sixteen continue from `n`. -/
def continueHex? (n : Nat) : List Char → Option Nat
  | [] => some n
  | c :: rest => (hexValue? c).bind fun d => continueHex? (n * 16 + d) rest

/-- A number written as one or more digits to base sixteen. -/
def readHex? : List Char → Option Nat
  | [] => none
  | c :: rest => continueHex? 0 (c :: rest)

/-- A number of at most `largest` to base sixteen, with or without a plus sign in front. -/
def readHexUpTo? (largest : Nat) (s : List Char) : Option Nat :=
  (readHex? (withoutPlus s)).filter (· ≤ largest)

/-- The number that a group of one or two bytes writes to base sixteen, as a byte. -/
def readShortHex? (group : List Char) : Option UInt8 :=
  let width := (Utf8.encode group).length
  if width = 0 ∨ 2 < width then none else (readHexUpTo? 255 group).map UInt8.ofNat

theorem ascii_of_continueHex? {s : List Char} {n m : Nat} (h : continueHex? n s = some m) :
    ∀ c ∈ s, c.toNat < 0x80 := by
  induction s generalizing n with
  | nil => simp
  | cons c s ih =>
    rw [continueHex?, Option.bind_eq_some_iff] at h
    obtain ⟨d, hd, hrest⟩ := h
    exact List.forall_mem_cons.mpr ⟨toNat_lt_of_hexValue? hd, ih hrest⟩

/-- A number has no other characters than ASCII. -/
theorem ascii_of_readHexUpTo? {s : List Char} {largest n : Nat}
    (h : readHexUpTo? largest s = some n) : ∀ c ∈ s, c.toNat < 0x80 := by
  rw [readHexUpTo?, Option.filter_eq_some_iff] at h
  cases s with
  | nil => simp
  | cons c s =>
    by_cases hc : c = '+'
    · rw [withoutPlus, if_pos hc] at h
      refine List.forall_mem_cons.mpr ⟨by rw [hc]; decide, ?_⟩
      cases s with
      | nil => simp
      | cons d s => exact ascii_of_continueHex? h.1
    · rw [withoutPlus, if_neg hc] at h
      exact ascii_of_continueHex? h.1

theorem readHex?_digit (c : Char) : (readHex? [c]).filter (· ≤ 255) = hexValue? c := by
  rw [readHex?, continueHex?]
  cases hv : hexValue? c with
  | none => rfl
  | some n =>
    have hlt := (of_hexValue? hv).1
    simp [continueHex?, show n ≤ 255 by omega]

theorem readHexUpTo?_one (c : Char) : readHexUpTo? 255 [c] = hexValue? c := by
  by_cases hc : c = '+'
  · rw [hc]
    rfl
  · rw [readHexUpTo?, withoutPlus, if_neg hc, readHex?_digit]

theorem readHexUpTo?_plus (c : Char) : readHexUpTo? 255 ['+', c] = hexValue? c := by
  rw [readHexUpTo?, withoutPlus, if_pos rfl, readHex?_digit]

theorem readHexUpTo?_two {c : Char} (hc : c ≠ '+') (d : Char) :
    readHexUpTo? 255 [c, d] =
      (hexValue? c).bind fun m => (hexValue? d).map fun n => m * 16 + n := by
  rw [readHexUpTo?, withoutPlus, if_neg hc, readHex?, continueHex?]
  cases hm : hexValue? c with
  | none => rfl
  | some m =>
    cases hn : hexValue? d with
    | none => simp [continueHex?, hn]
    | some n =>
      have hmlt := (of_hexValue? hm).1
      have hnlt := (of_hexValue? hn).1
      simp [continueHex?, hn, show m * 16 + n ≤ 255 by omega]

/-- A group of one or two characters stands for the number that it writes. -/
theorem readHexByte?_eq_map {group : List Char} (h : group.length ≤ 2) :
    readHexByte? group = (readHexUpTo? 255 group).map UInt8.ofNat := by
  match group with
  | [] => rfl
  | [c] => rw [readHexByte?, readHexUpTo?_one]
  | [c, d] =>
    by_cases hc : c = '+'
    · rw [hc, readHexByte?, if_pos rfl, readHexUpTo?_plus]
    · rw [readHexByte?, if_neg hc, readHexUpTo?_two hc]
      cases hexValue? c with
      | none => rfl
      | some m => cases hexValue? d <;> rfl
  | c :: d :: e :: rest => simp at h

theorem readHexByte?_of_long {group : List Char} (h : 2 < group.length) :
    readHexByte? group = none := by
  match group with
  | [] => rfl
  | [c] => simp at h
  | [c, d] => simp at h
  | c :: d :: e :: rest => rfl

/-- It does not matter whether the length of a group is counted in characters or in bytes. -/
theorem readHexByte?_eq (group : List Char) : readHexByte? group = readShortHex? group := by
  unfold readShortHex?
  cases hn : readHexUpTo? 255 group with
  | none =>
    have hnone : readHexByte? group = none := by
      by_cases hlength : group.length ≤ 2
      · rw [readHexByte?_eq_map hlength, hn, Option.map_none]
      · exact readHexByte?_of_long (Nat.lt_of_not_le hlength)
    rw [hnone, Option.map_none, ite_self]
  | some n =>
    -- The characters of a number have one byte each.
    have hwidth : (Utf8.encode group).length = group.length :=
      Utf8.length_encode_of_ascii (ascii_of_readHexUpTo? hn)
    rw [hwidth]
    by_cases hlength : group.length ≤ 2
    · have hpos : group.length ≠ 0 := by
        intro h0
        rw [List.length_eq_zero_iff.mp h0] at hn
        cases hn
      rw [if_neg (by omega), readHexByte?_eq_map hlength, hn]
    · rw [if_pos (Or.inr (Nat.lt_of_not_le hlength))]
      exact readHexByte?_of_long (Nat.lt_of_not_le hlength)

end Text

/-! ## Texts -/

namespace HardwareAddress

open Text

variable {kind : Option HardwareType} {s : String} {bs : Bytes}

/-- The bytes of the text, where each group has one or two bytes and writes a number. -/
def bytesOfNumbers? (a : HardwareAddress) : Option Bytes :=
  if a.text = "" then some [] else (fields ':' a.text.toList).mapM readShortHex?

theorem bytes?_empty : (HardwareAddress.mk kind "").bytes? = some [] := rfl

theorem bytes?_of_ne_empty (h : s ≠ "") :
    (HardwareAddress.mk kind s).bytes? = (fields ':' s.toList).mapM readHexByte? := by
  rw [bytes?, readColonHex?, if_neg (mt String.toList_eq_nil_iff.mp h)]

theorem bytes?_eq_bytesOfNumbers? (a : HardwareAddress) : a.bytes? = a.bytesOfNumbers? := by
  unfold bytesOfNumbers?
  by_cases h : a.text = ""
  · rw [if_pos h, bytes?, h]
    rfl
  · rw [if_neg h, ← funext readHexByte?_eq]
    exact bytes?_of_ne_empty h

/-- A text stands for bytes exactly if it is empty or written in groups. -/
theorem isSome_bytes? : (HardwareAddress.mk kind s).bytes?.isSome ↔
    s = "" ∨ ∀ group ∈ fields ':' s.toList, IsHexGroup group := by
  by_cases h : s = ""
  · rw [h, bytes?_empty]
    simp
  · rw [bytes?_of_ne_empty h, isSome_mapM, or_iff_right h]
    simp only [isSome_readHexByte?]

/-- The bytes of a text are printed as the text exactly if it is empty or all its groups are
printed ones. -/
theorem text_ofBytes_eq_iff (h : (HardwareAddress.mk kind s).bytes? = some bs) :
    (ofBytes kind bs).text = s ↔
      s = "" ∨ ∀ group ∈ fields ':' s.toList, IsPrintedGroup group := by
  refine ⟨?_, ?_⟩
  · rintro rfl
    by_cases hbs : bs = []
    · rw [hbs]
      exact Or.inl rfl
    · right
      rw [ofBytes, String.toList_ofList, fields_colonHex hbs]
      exact isPrintedGroups_iff.mpr ⟨bs, rfl⟩
  · rintro (rfl | hprinted)
    · rw [bytes?_empty, Option.some.injEq] at h
      rw [← h]
      rfl
    · obtain ⟨cs, hcs⟩ := isPrintedGroups_iff.mp hprinted
      have htext : s = (ofBytes kind cs).text := by
        rw [ofBytes, colonHex, ← hcs, intercalate_fields, String.ofList_toList]
      have hread : (HardwareAddress.mk kind s).bytes? = some cs := by
        rw [htext]
        exact bytes?_ofBytes kind cs
      rw [h, Option.some.injEq] at hread
      rw [hread, htext]

end HardwareAddress

/-- Bytes are read back from the text that is printed for them, so no two byte strings are printed
alike. A text stands for bytes exactly if it is empty or each of its groups is one or two digits or
a plus sign and a digit, and then it is the text printed for them exactly if it is empty or each of
its groups is two digits in lower case. A group is read as the number that it writes, and only if it
has one or two bytes. -/
theorem hardware_text_stands_for_its_bytes (kind : Option HardwareType) :
    (∀ bs, (HardwareAddress.ofBytes kind bs).bytes? = some bs) ∧
    (Function.Injective fun bs => (HardwareAddress.ofBytes kind bs).text) ∧
    (∀ s, (HardwareAddress.mk kind s).bytes?.isSome ↔
      s = "" ∨ ∀ group ∈ Text.fields ':' s.toList, Text.IsHexGroup group) ∧
    (∀ s bs, (HardwareAddress.mk kind s).bytes? = some bs →
      ((HardwareAddress.ofBytes kind bs).text = s ↔
        s = "" ∨ ∀ group ∈ Text.fields ':' s.toList, Text.IsPrintedGroup group)) ∧
    ∀ a : HardwareAddress, a.bytes? = a.bytesOfNumbers? := by
  refine ⟨HardwareAddress.bytes?_ofBytes kind, ?_, fun s => HardwareAddress.isSome_bytes?,
    fun s bs => HardwareAddress.text_ofBytes_eq_iff, HardwareAddress.bytes?_eq_bytesOfNumbers?⟩
  intro bs cs hsame
  exact Text.colonHex_inj.mp (String.ofList_injective hsame)

/-- A digit alone, a sign and capitals are understood and printed otherwise. -/
theorem unusual_groups_are_printed_otherwise :
    (HardwareAddress.mk none "7:+a:Fe").bytes? = some [0x07, 0x0A, 0xFE] ∧
      (HardwareAddress.ofBytes none [0x07, 0x0A, 0xFE]).text ≠ "7:+a:Fe" ∧
      (HardwareAddress.mk none "07:0a:fe").bytes? = some [0x07, 0x0A, 0xFE] ∧
      (HardwareAddress.ofBytes none [0x07, 0x0A, 0xFE]).text = "07:0a:fe" := by
  have hunusual : (HardwareAddress.mk none "7:+a:Fe").bytes? = some [0x07, 0x0A, 0xFE] := by
    decide +kernel
  have husual : (HardwareAddress.mk none "07:0a:fe").bytes? = some [0x07, 0x0A, 0xFE] := by
    decide +kernel
  obtain ⟨_, _, _, hprinted, _⟩ := hardware_text_stands_for_its_bytes none
  refine ⟨hunusual, ?_, husual, ?_⟩
  · rw [ne_eq, hprinted _ _ hunusual]
    decide +kernel
  · rw [hprinted _ _ husual]
    decide +kernel

end NetBoot
