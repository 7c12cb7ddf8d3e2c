-- Text as UTF-8 is read back as it was, and ASCII is read byte by byte.
import Mathlib.Data.List.TakeWhile
import NetBoot.Text.Utf8
import NetBoot.Proofs.Text.Pieces

namespace NetBoot.Utf8

/-! ## One character -/

theorem toNat_byte {n : Nat} (h : n < 256) : (UInt8.ofNat n).toNat = n := by
  rw [UInt8.toNat_ofNat']
  exact Nat.mod_eq_of_lt h

/-- A continuation byte within its bounds adds its six bits. -/
theorem continueWith_cons {bits low high more six : Nat} {rest : Bytes} (hsix : six < 64)
    (hlow : low ≤ 0x80 + six) (hhigh : 0x80 + six ≤ high) :
    continueWith bits low high (more + 1) (UInt8.ofNat (0x80 + six) :: rest) =
      ((continueWith (bits + six * Nat.pow 64 more) 0x80 0xBF more rest).1,
        (continueWith (bits + six * Nat.pow 64 more) 0x80 0xBF more rest).2 + 1) := by
  have hb : (UInt8.ofNat (0x80 + six)).toNat = 0x80 + six := toNat_byte (by omega)
  have hc : continuation? low high (UInt8.ofNat (0x80 + six)) = some six := by
    unfold continuation?
    rw [hb, if_pos ⟨hlow, hhigh⟩, Nat.add_sub_cancel_left]
  rw [continueWith, hc]

/-- A number as the sum of its digits to base 64. -/
theorem digits_two (n : Nat) : n / 64 * 64 + n % 64 = n := by omega

theorem digits_three (n : Nat) : n / 4096 * 4096 + n / 64 % 64 * 64 + n % 64 = n := by omega

theorem digits_four (n : Nat) :
    n / 262144 * 262144 + n / 4096 % 64 * 4096 + n / 64 % 64 * 64 + n % 64 = n := by omega

/-- What the first byte of two, of three and of four announces. The bits in it and the bounds of
the second byte fit the number that the character has. -/
theorem lead?_two {n : Nat} (h0 : 0x80 ≤ n) (h1 : n < 0x800) :
    ∃ low high, lead? (UInt8.ofNat (0xC0 + n / 64)) =
        some { bits := n / 64 * 64, low, high, more := 1 } ∧
      low ≤ 0x80 + n % 64 ∧ 0x80 + n % 64 ≤ high := by
  have hb : (UInt8.ofNat (0xC0 + n / 64)).toNat = 0xC0 + n / 64 := toNat_byte (by omega)
  unfold lead?
  rw [hb]
  simp only []
  refine ⟨0x80, 0xBF, ?_, by omega, by omega⟩
  rw [if_pos (by omega), Nat.add_sub_cancel_left]

theorem lead?_three {n : Nat} (h0 : 0x800 ≤ n) (h1 : n < 0x10000)
    (hscalar : n < 0xD800 ∨ 0xDFFF < n) :
    ∃ low high, lead? (UInt8.ofNat (0xE0 + n / 4096)) =
        some { bits := n / 4096 * 4096, low, high, more := 2 } ∧
      low ≤ 0x80 + n / 64 % 64 ∧ 0x80 + n / 64 % 64 ≤ high := by
  have hb : (UInt8.ofNat (0xE0 + n / 4096)).toNat = 0xE0 + n / 4096 := toNat_byte (by omega)
  unfold lead?
  rw [hb]
  simp only []
  rw [if_neg (by omega)]
  by_cases he0 : n / 4096 = 0
  · exact ⟨0xA0, 0xBF, by simp [he0], by omega, by omega⟩
  by_cases hed : n / 4096 = 13
  · exact ⟨0x80, 0x9F, by simp [hed], by omega, by omega⟩
  refine ⟨0x80, 0xBF, ?_, by omega, by omega⟩
  rw [if_neg (by omega), if_neg (by omega), if_pos (by omega), Nat.add_sub_cancel_left]

theorem lead?_four {n : Nat} (h0 : 0x10000 ≤ n) (h1 : n < 0x110000) :
    ∃ low high, lead? (UInt8.ofNat (0xF0 + n / 262144)) =
        some { bits := n / 262144 * 262144, low, high, more := 3 } ∧
      low ≤ 0x80 + n / 4096 % 64 ∧ 0x80 + n / 4096 % 64 ≤ high := by
  have hb : (UInt8.ofNat (0xF0 + n / 262144)).toNat = 0xF0 + n / 262144 := toNat_byte (by omega)
  unfold lead?
  rw [hb]
  simp only []
  rw [if_neg (by omega), if_neg (by omega), if_neg (by omega), if_neg (by omega)]
  by_cases hf0 : n / 262144 = 0
  · exact ⟨0x90, 0xBF, by simp [hf0], by omega, by omega⟩
  by_cases hf4 : n / 262144 = 4
  · exact ⟨0x80, 0x8F, by simp [hf4], by omega, by omega⟩
  refine ⟨0x80, 0xBF, ?_, by omega, by omega⟩
  rw [if_neg (by omega), if_pos (by omega), Nat.add_sub_cancel_left]

theorem readChar_of_lead {b : UInt8} {lead : Lead} (hb : 0x80 ≤ b.toNat)
    (h : lead? b = some lead) (rest : Bytes) :
    readChar b rest =
      ((continueWith lead.bits lead.low lead.high lead.more rest).1.map Char.ofNat,
        (continueWith lead.bits lead.low lead.high lead.more rest).2) := by
  unfold readChar
  rw [if_neg (by omega), h]

/-- No character is a surrogate. -/
theorem scalar_bounds (c : Char) :
    c.toNat < 0xD800 ∨ (0xDFFF < c.toNat ∧ c.toNat < 0x110000) := by
  have h := c.valid
  simp only [UInt32.isValidChar, Nat.isValidChar] at h
  exact h

/-- The bytes of a character are read back as it, with none of the bytes after them. -/
theorem readChar_encodeChar (c : Char) :
    ∃ b more, encodeChar c = b :: more ∧
      ∀ rest, readChar b (more ++ rest) = (some c, more.length) := by
  have hc := scalar_bounds c
  have hchar : Char.ofNat c.toNat = c := Char.ofNat_toNat c
  unfold encodeChar
  simp only []
  generalize c.toNat = n at hc hchar
  by_cases h1 : n < 0x80
  · rw [if_pos h1]
    refine ⟨_, [], rfl, fun rest => ?_⟩
    have hb : (UInt8.ofNat n).toNat = n := toNat_byte (by omega)
    unfold readChar
    rw [hb, if_pos h1, hchar]
    rfl
  rw [if_neg h1]
  by_cases h2 : n < 0x800
  · rw [if_pos h2]
    refine ⟨_, [_], rfl, fun rest => ?_⟩
    obtain ⟨low, high, hlead, hlow, hhigh⟩ := lead?_two (by omega) h2
    have hb : 0x80 ≤ (UInt8.ofNat (0xC0 + n / 64)).toNat := by
      rw [toNat_byte (by omega)]
      omega
    rw [readChar_of_lead hb hlead, List.singleton_append, continueWith_cons (by omega) hlow hhigh]
    simp [continueWith, digits_two, hchar]
  rw [if_neg h2]
  by_cases h3 : n < 0x10000
  · rw [if_pos h3]
    refine ⟨_, [_, _], rfl, fun rest => ?_⟩
    obtain ⟨low, high, hlead, hlow, hhigh⟩ := lead?_three (by omega) h3 (by omega)
    have hb : 0x80 ≤ (UInt8.ofNat (0xE0 + n / 4096)).toNat := by
      rw [toNat_byte (by omega)]
      omega
    rw [readChar_of_lead hb hlead, List.cons_append, List.singleton_append,
      continueWith_cons (by omega) hlow hhigh,
      continueWith_cons (by omega) (by omega) (by omega)]
    simp [continueWith, digits_three, hchar]
  rw [if_neg h3]
  refine ⟨_, [_, _, _], rfl, fun rest => ?_⟩
  obtain ⟨low, high, hlead, hlow, hhigh⟩ := lead?_four (n := n) (by omega) (by omega)
  have hb : 0x80 ≤ (UInt8.ofNat (0xF0 + n / 262144)).toNat := by
    rw [toNat_byte (by omega)]
    omega
  rw [readChar_of_lead hb hlead, List.cons_append, List.cons_append, List.singleton_append,
    continueWith_cons (by omega) hlow hhigh, continueWith_cons (by omega) (by omega) (by omega),
    continueWith_cons (by omega) (by omega) (by omega)]
  simp [continueWith, digits_four, hchar]

/-! ## A text -/

theorem encode_cons (c : Char) (s : List Char) : encode (c :: s) = encodeChar c ++ encode s := rfl

theorem encode_append (s t : List Char) : encode (s ++ t) = encode s ++ encode t :=
  List.flatMap_append

theorem read_encodeChar (c : Char) (rest : Bytes) :
    read (encodeChar c ++ rest) = some c :: read rest := by
  obtain ⟨b, more, hc, hread⟩ := readChar_encodeChar c
  rw [hc, List.cons_append, read_cons, hread rest]
  simp

theorem read_encode (s : List Char) (rest : Bytes) :
    read (encode s ++ rest) = s.map some ++ read rest := by
  induction s with
  | nil => rfl
  | cons c s ih =>
    rw [encode_cons, List.append_assoc, read_encodeChar, ih]
    rfl

/-- The bytes of a text are read back, whatever comes after them. -/
theorem decodeLossy_encode_append (s : List Char) (rest : Bytes) :
    decodeLossy (encode s ++ rest) = s ++ decodeLossy rest := by
  unfold decodeLossy
  rw [read_encode, List.map_append, List.map_map]
  have hid : (fun c : Option Char => c.getD '\uFFFD') ∘ some = id := rfl
  rw [hid, List.map_id]

theorem decodeLossy_encode (s : List Char) : decodeLossy (encode s) = s := by
  have h := decodeLossy_encode_append s []
  rwa [List.append_nil, show decodeLossy [] = [] from rfl, List.append_nil] at h

theorem mapM_id_eq_some {α : Type} {l : List (Option α)} {s : List α} :
    l.mapM id = some s ↔ l = s.map some := by
  induction l generalizing s with
  | nil => cases s <;> simp
  | cons x l ih =>
    rw [List.mapM_cons]
    cases x with
    | none => cases s <;> simp
    | some c =>
      rw [id, Option.bind_eq_bind, Option.bind_some, Option.bind_eq_bind, Option.bind_eq_some_iff]
      refine ⟨?_, ?_⟩
      · rintro ⟨t, ht, hs⟩
        cases hs
        rw [ih.mp ht, List.map_cons]
      · intro hs
        cases s with
        | nil => cases hs
        | cons d t =>
          obtain ⟨hd, ht⟩ := List.cons_eq_cons.mp hs
          cases hd
          exact ⟨t, ih.mpr ht, rfl⟩

/-- A text is what its bytes are, if they are any text. -/
theorem decode?_eq_some {bs : Bytes} {s : List Char} : decode? bs = some s ↔ read bs = s.map some :=
  mapM_id_eq_some

theorem mapM_id_eq_none {α : Type} {l : List (Option α)} : l.mapM id = none ↔ none ∈ l := by
  rw [← Option.not_isSome_iff_eq_none, Text.isSome_mapM]
  simp

/-- Bytes are no text exactly if a piece of them is no character. -/
theorem decode?_eq_none {bs : Bytes} : decode? bs = none ↔ none ∈ read bs :=
  mapM_id_eq_none

theorem decode?_encode (s : List Char) : decode? (encode s) = some s := by
  have h := read_encode s []
  rw [List.append_nil, read_nil, List.append_nil] at h
  exact decode?_eq_some.mpr h

/-! ## How many bytes -/

theorem length_encodeChar_of_ascii {c : Char} (h : c.toNat < 0x80) : (encodeChar c).length = 1 := by
  rw [encodeChar, if_pos h, List.length_singleton]

theorem length_encodeChar_pos (c : Char) : 0 < (encodeChar c).length := by
  obtain ⟨b, more, hc, _⟩ := readChar_encodeChar c
  rw [hc, List.length_cons]
  exact Nat.succ_pos _

/-- A text has at least as many bytes as characters. -/
theorem length_le_length_encode (s : List Char) : s.length ≤ (encode s).length := by
  induction s with
  | nil => exact Nat.le_refl 0
  | cons c s ih =>
    have hc := length_encodeChar_pos c
    rw [encode_cons, List.length_append, List.length_cons]
    omega

/-- ASCII text has a byte for each character. -/
theorem length_encode_of_ascii {s : List Char} (h : ∀ c ∈ s, c.toNat < 0x80) :
    (encode s).length = s.length := by
  have hone : ∀ c ∈ s, (encodeChar c).length = 1 := fun c hc => length_encodeChar_of_ascii (h c hc)
  rw [encode, List.length_flatMap, List.map_congr_left hone, List.map_const',
    List.sum_replicate_nat, Nat.mul_one]

/-! ## Bytes below 128 -/

/-- A byte below 128 stands only in the bytes of its own character. -/
theorem not_mem_encodeChar {b : UInt8} (hb : b.toNat < 0x80) {c : Char}
    (h : c ≠ Char.ofNat b.toNat) : b ∉ encodeChar c := by
  have hc := scalar_bounds c
  have hne : c.toNat ≠ b.toNat := by
    intro heq
    apply h
    rw [← heq, Char.ofNat_toNat]
  have hother : ∀ n, n ≠ b.toNat → n < 256 → b ≠ UInt8.ofNat n := by
    rintro n hn hlt rfl
    rw [toNat_byte hlt] at hn
    exact hn rfl
  unfold encodeChar
  simp only []
  generalize c.toNat = n at hc hne
  split
  · simpa using hother n hne (by omega)
  split
  · simp only [List.mem_cons, List.not_mem_nil, or_false, not_or]
    exact ⟨hother _ (by omega) (by omega), hother _ (by omega) (by omega)⟩
  split
  · simp only [List.mem_cons, List.not_mem_nil, or_false, not_or]
    exact ⟨hother _ (by omega) (by omega), hother _ (by omega) (by omega),
      hother _ (by omega) (by omega)⟩
  · simp only [List.mem_cons, List.not_mem_nil, or_false, not_or]
    exact ⟨hother _ (by omega) (by omega), hother _ (by omega) (by omega),
      hother _ (by omega) (by omega), hother _ (by omega) (by omega)⟩

theorem not_mem_encode {b : UInt8} (hb : b.toNat < 0x80) {s : List Char}
    (h : Char.ofNat b.toNat ∉ s) : b ∉ encode s := by
  intro hmem
  obtain ⟨c, hc, hbc⟩ := List.mem_flatMap.mp hmem
  refine not_mem_encodeChar hb ?_ hbc
  rintro rfl
  exact h hc

theorem continuation?_bounds {low high six : Nat} {b : UInt8}
    (h : continuation? low high b = some six) : low - 0x80 ≤ six ∧ six ≤ high - 0x80 := by
  unfold continuation? at h
  split at h
  · next hb =>
    rw [← Option.some.inj h]
    exact ⟨Nat.sub_le_sub_right hb.1 0x80, Nat.sub_le_sub_right hb.2 0x80⟩
  · cases h

/-- Continuation bytes add to the bits before them, and less than one to the last of these. -/
theorem continueWith_bounds {bits more n : Nat} {rest : Bytes}
    (h : (continueWith bits 0x80 0xBF more rest).1 = some n) :
    bits ≤ n ∧ n < bits + Nat.pow 64 more := by
  induction more generalizing bits rest with
  | zero =>
    cases h
    exact ⟨Nat.le_refl n, Nat.lt_succ_self n⟩
  | succ more ih =>
    cases rest with
    | nil => cases h
    | cons b rest =>
      rw [continueWith] at h
      split at h
      · cases h
      · next six hsix =>
        obtain ⟨_, hle⟩ := continuation?_bounds hsix
        obtain ⟨hlow, hhigh⟩ := ih h
        refine ⟨Nat.le_trans (Nat.le_add_right _ _) hlow, ?_⟩
        calc n < bits + six * Nat.pow 64 more + Nat.pow 64 more := hhigh
          _ = bits + (six + 1) * Nat.pow 64 more := by rw [Nat.add_assoc, Nat.succ_mul]
          _ ≤ bits + 64 * Nat.pow 64 more :=
            Nat.add_le_add_left (Nat.mul_le_mul_right _ (Nat.succ_le_succ hle)) bits
          _ = bits + Nat.pow 64 (more + 1) := by rw [Nat.mul_comm]; rfl

/-- What continuation bytes complete lies between what the first of them allows. -/
theorem continueWith_succ_bounds {bits low high more n : Nat} {rest : Bytes}
    (h : (continueWith bits low high (more + 1) rest).1 = some n) :
    bits + (low - 0x80) * Nat.pow 64 more ≤ n ∧
      n < bits + (high - 0x80 + 1) * Nat.pow 64 more := by
  cases rest with
  | nil => cases h
  | cons b rest =>
    rw [continueWith] at h
    split at h
    · cases h
    · next six hsix =>
      obtain ⟨hfrom, hto⟩ := continuation?_bounds hsix
      obtain ⟨hlow, hhigh⟩ := continueWith_bounds h
      refine ⟨Nat.le_trans (Nat.add_le_add_left (Nat.mul_le_mul_right _ hfrom) bits) hlow, ?_⟩
      calc n < bits + six * Nat.pow 64 more + Nat.pow 64 more := hhigh
        _ = bits + (six + 1) * Nat.pow 64 more := by rw [Nat.add_assoc, Nat.succ_mul]
        _ ≤ bits + (high - 0x80 + 1) * Nat.pow 64 more :=
          Nat.add_le_add_left (Nat.mul_le_mul_right _ (Nat.succ_le_succ hto)) bits

/-- The numbers that a first byte allows are past the first 128, and no surrogate is among them. -/
theorem lead?_facts : ∀ n < 256, ∀ lead ∈ lead? (UInt8.ofNat n),
    1 ≤ lead.more ∧ 0x80 ≤ lead.bits + (lead.low - 0x80) * Nat.pow 64 (lead.more - 1) ∧
      (lead.bits + (lead.high - 0x80 + 1) * Nat.pow 64 (lead.more - 1) ≤ 0xD800 ∨
        (0xE000 ≤ lead.bits + (lead.low - 0x80) * Nat.pow 64 (lead.more - 1) ∧
          lead.bits + (lead.high - 0x80 + 1) * Nat.pow 64 (lead.more - 1) ≤ 0x110000)) := by
  decide +kernel

/-- What several bytes complete is the number of a character past the first 128. -/
theorem isValidChar_of_lead {b : UInt8} {lead : Lead} (hlead : lead? b = some lead) {rest : Bytes}
    {n : Nat} (h : (continueWith lead.bits lead.low lead.high lead.more rest).1 = some n) :
    n.isValidChar ∧ 0x80 ≤ n := by
  obtain ⟨hmore, hlow, hscalar⟩ :=
    lead?_facts b.toNat b.toNat_lt lead (by rwa [UInt8.ofNat_toNat])
  obtain ⟨more, hsucc⟩ := Nat.exists_eq_succ_of_ne_zero (Nat.ne_of_gt hmore)
  rw [hsucc] at h hlow hscalar
  rw [Nat.succ_eq_add_one, Nat.add_sub_cancel] at hlow hscalar
  obtain ⟨hfrom, hto⟩ := continueWith_succ_bounds h
  unfold Nat.isValidChar
  omega

/-- A character below 128 is read only from its own byte. -/
theorem readChar_ascii {b : UInt8} {rest : Bytes} {c : Char} (h : (readChar b rest).1 = some c)
    (hc : c.toNat < 0x80) : b.toNat = c.toNat := by
  unfold readChar at h
  split at h
  · next hb =>
    cases h
    rw [Text.toNat_ofNat_of_lt hb]
  split at h
  · cases h
  · next lead hlead =>
    obtain ⟨n, hn, rfl⟩ := Option.map_eq_some_iff.mp h
    obtain ⟨hvalid, hn80⟩ := isValidChar_of_lead hlead hn
    rw [Text.toNat_ofNat hvalid] at hc
    omega

theorem mem_of_mem_readAfter {c : Char} (hc : c.toNat < 0x80) {skip : Nat} {bs : Bytes}
    (h : some c ∈ readAfter skip bs) : UInt8.ofNat c.toNat ∈ bs := by
  induction bs generalizing skip with
  | nil => cases skip <;> cases h
  | cons b bs ih =>
    cases skip with
    | succ skip => exact List.mem_cons_of_mem b (ih h)
    | zero =>
      rcases List.mem_cons.mp h with hhead | htail
      · rw [← readChar_ascii hhead.symm hc, UInt8.ofNat_toNat]
        exact List.mem_cons_self
      · exact List.mem_cons_of_mem b (ih htail)

/-- A character below 128 stands in the text of bytes only if its own byte is among them. -/
theorem mem_of_mem_decodeLossy {c : Char} (hc : c.toNat < 0x80) {bs : Bytes}
    (h : c ∈ decodeLossy bs) : UInt8.ofNat c.toNat ∈ bs := by
  obtain ⟨x, hx, hread⟩ := List.mem_map.mp h
  cases x with
  | none =>
    rw [← hread] at hc
    exact absurd hc (by decide)
  | some d =>
    rw [Option.getD_some] at hread
    subst hread
    exact mem_of_mem_readAfter hc hx

/-- Only a line feed byte is read as a line feed. -/
theorem lineFeed_not_mem_of_decode? {bs : Bytes} {s : List Char} (h : decode? bs = some s)
    (hbs : (0x0A : UInt8) ∉ bs) : '\n' ∉ s := by
  intro hmem
  apply hbs
  have hread : some '\n' ∈ read bs := by
    rw [decode?_eq_some.mp h]
    exact List.mem_map_of_mem hmem
  exact mem_of_mem_readAfter (by decide) hread

/-! ## Zero bytes -/

/-- Of a text with zeros after it, the bytes before the first zero are those of the text before
its first zero character. -/
theorem untilZero_encode_append (s : List Char) (n : Nat) :
    Bytes.untilZero (encode s ++ List.replicate n 0) = encode (s.takeWhile (· ≠ '\x00')) := by
  unfold Bytes.untilZero
  induction s with
  | nil => cases n <;> simp [encode, List.replicate_succ]
  | cons c s ih =>
    rw [encode_cons, List.append_assoc]
    by_cases h : c = '\x00'
    · subst h
      rfl
    · have hnone : (0 : UInt8) ∉ encodeChar c := not_mem_encodeChar (by decide) h
      rw [List.takeWhile_append_of_pos, ih, List.takeWhile_cons_of_pos (by simpa using h)]
      · rfl
      · intro b hb
        simpa using fun h0 : b = 0 => hnone (h0 ▸ hb)

/-! ## ASCII -/

def IsAscii (bs : Bytes) : Prop := ∀ b ∈ bs, b.toNat < 0x80

instance : DecidablePred IsAscii := fun bs =>
  inferInstanceAs (Decidable (∀ b ∈ bs, b.toNat < 0x80))

theorem isAscii_append {bs cs : Bytes} : IsAscii (bs ++ cs) ↔ IsAscii bs ∧ IsAscii cs := by
  unfold IsAscii
  simp only [List.mem_append, or_imp, forall_and]

theorem read_ascii_cons {b : UInt8} (h : b.toNat < 0x80) (rest : Bytes) :
    read (b :: rest) = some (Char.ofNat b.toNat) :: read rest := by
  rw [read_cons]
  unfold readChar
  rw [if_pos h]
  rfl

/-- No byte below 128 goes on with a character, so what is read of one ends before such a byte. -/
theorem continueWith_append {bits low high more : Nat} (hlow : 0x80 ≤ low) (bs : Bytes) {b : UInt8}
    (hb : b.toNat < 0x80) (rest : Bytes) :
    continueWith bits low high more (bs ++ b :: rest) = continueWith bits low high more bs ∧
      (continueWith bits low high more bs).2 ≤ bs.length := by
  induction more generalizing bits low high bs with
  | zero => exact ⟨rfl, Nat.zero_le _⟩
  | succ more ih =>
    cases bs with
    | nil =>
      have hnone : continuation? low high b = none := if_neg fun h => by omega
      refine ⟨?_, Nat.le_refl _⟩
      rw [List.nil_append]
      simp only [continueWith, hnone]
    | cons c bs =>
      rw [List.cons_append, continueWith, continueWith]
      cases continuation? low high c with
      | none => exact ⟨rfl, Nat.zero_le _⟩
      | some six =>
        obtain ⟨hsame, hlength⟩ := ih (Nat.le_refl 0x80) bs
        dsimp only
        rw [hsame]
        exact ⟨rfl, Nat.succ_le_succ hlength⟩

theorem low_of_lead? : ∀ n < 256, ∀ lead ∈ lead? (UInt8.ofNat n), 0x80 ≤ lead.low := by
  decide +kernel

theorem readChar_append (c : UInt8) (bs : Bytes) {b : UInt8} (hb : b.toNat < 0x80) (rest : Bytes) :
    readChar c (bs ++ b :: rest) = readChar c bs ∧ (readChar c bs).2 ≤ bs.length := by
  unfold readChar
  split
  · exact ⟨rfl, Nat.zero_le _⟩
  · split
    · exact ⟨rfl, Nat.zero_le _⟩
    · next lead hlead =>
      have hlow : 0x80 ≤ lead.low :=
        low_of_lead? c.toNat c.toNat_lt lead (by rwa [UInt8.ofNat_toNat])
      obtain ⟨hsame, hlength⟩ := continueWith_append hlow bs hb rest
      rw [hsame]
      exact ⟨rfl, hlength⟩

theorem readAfter_append {skip : Nat} {bs : Bytes} (hskip : skip ≤ bs.length) {b : UInt8}
    (hb : b.toNat < 0x80) (rest : Bytes) :
    readAfter skip (bs ++ b :: rest) = readAfter skip bs ++ read (b :: rest) := by
  induction bs generalizing skip with
  | nil =>
    obtain rfl := Nat.le_zero.mp hskip
    rfl
  | cons c bs ih =>
    cases skip with
    | succ skip => exact ih (Nat.le_of_succ_le_succ hskip)
    | zero =>
      obtain ⟨hsame, hlength⟩ := readChar_append c bs hb rest
      show (readChar c (bs ++ b :: rest)).1 ::
          readAfter (readChar c (bs ++ b :: rest)).2 (bs ++ b :: rest) =
        (readChar c bs).1 :: readAfter (readChar c bs).2 bs ++ read (b :: rest)
      rw [hsame, ih hlength, List.cons_append]

/-- Before a byte below 128 any bytes can be cut, also such as are no text. -/
theorem read_append (bs : Bytes) {b : UInt8} (hb : b.toNat < 0x80) (rest : Bytes) :
    read (bs ++ b :: rest) = read bs ++ read (b :: rest) :=
  readAfter_append (Nat.zero_le _) hb rest

/-- ASCII bytes are characters each by itself, so they can be read piece by piece. -/
theorem decodeLossy_append {bs : Bytes} (h : IsAscii bs) (rest : Bytes) :
    decodeLossy (bs ++ rest) = decodeLossy bs ++ decodeLossy rest := by
  unfold decodeLossy
  induction bs with
  | nil => rfl
  | cons b bs ih =>
    have hb : b.toNat < 0x80 := h b List.mem_cons_self
    have htail := ih (fun x hx => h x (List.mem_cons_of_mem b hx))
    rw [List.cons_append, read_ascii_cons hb, read_ascii_cons hb, List.map_cons, List.map_cons,
      htail, List.cons_append]

end NetBoot.Utf8

namespace NetBoot

theorem utf8_append (s t : String) : utf8 (s ++ t) = utf8 s ++ utf8 t := by
  unfold utf8
  rw [String.toList_append, Utf8.encode_append]

theorem length_utf8_of_ascii {s : List Char} (h : ∀ c ∈ s, c.toNat < 0x80) :
    (utf8 (String.ofList s)).length = s.length := by
  rw [utf8, String.toList_ofList, Utf8.length_encode_of_ascii h]

theorem lossy_utf8 (s : String) : lossy (utf8 s) = s := by
  unfold lossy utf8
  rw [Utf8.decodeLossy_encode, String.ofList_toList]

/-- The text up to its first zero character, as a fixed field of a packet keeps it. -/
def cutAtNul (s : String) : String := String.ofList (s.toList.takeWhile (· ≠ '\x00'))

theorem cutAtNul_eq_self {s : String} : cutAtNul s = s ↔ '\x00' ∉ s.toList := by
  unfold cutAtNul
  refine ⟨?_, ?_⟩
  · intro h hm
    rw [← h, String.toList_ofList] at hm
    simpa using List.mem_takeWhile_imp hm
  · intro h
    rw [List.takeWhile_eq_self_iff.mpr, String.ofList_toList]
    intro c hc
    simpa using fun h0 : c = '\x00' => h (h0 ▸ hc)

/-- A text in a fixed field is read back up to its first zero character. -/
theorem lossy_untilZero_padTo (width : Nat) (s : String) :
    lossy (Bytes.untilZero (Bytes.padTo width (utf8 s))) = cutAtNul s := by
  unfold lossy Bytes.padTo utf8 cutAtNul
  rw [Utf8.untilZero_encode_append, Utf8.decodeLossy_encode]

/-- A field that ends at its first zero byte holds no zero character. -/
theorem nul_not_mem_lossy_untilZero (bs : Bytes) : '\x00' ∉ (lossy bs.untilZero).toList := by
  intro h
  rw [lossy, String.toList_ofList] at h
  have hzero : (0 : UInt8) ∈ bs.untilZero := Utf8.mem_of_mem_decodeLossy (by decide) h
  simpa using List.mem_takeWhile_imp hzero

end NetBoot
