-- The hardware addresses of leases: six groups of digits spell one, and it is written in lower case
-- digits and colons.
import Mathlib.Data.List.Forall2
import NetBoot.Lease.Poller
import NetBoot.Proofs.Lease.Blocks
import NetBoot.Proofs.Net.AddressText

namespace NetBoot

namespace LeaseLine

open Text

/-! ## The text of a line -/

/-- A group of one or two hexadecimal digits of either case, and the byte of this value. -/
inductive SpellsByte : List Char → UInt8 → Prop
  | one {c : Char} {n : Nat} (hc : hexValue? c = some n) : SpellsByte [c] (UInt8.ofNat n)
  | two {c d : Char} {m n : Nat} (hc : hexValue? c = some m) (hd : hexValue? d = some n) :
    SpellsByte [c, d] (UInt8.ofNat (m * 16 + n))

/-- Six groups of digits with colons between them, and the six bytes that they spell. -/
structure SpellsMac (text : List Char) (bs : Bytes) : Prop where
  six : bs.length = 6
  spelled : List.Forall₂ SpellsByte (fields ':' text) bs

theorem pair?_eq_some {group pair : List Char} :
    pair? group = some pair ↔ ∃ b, SpellsByte group b ∧ pair = hexPair b := by
  refine ⟨?_, ?_⟩
  · intro h
    unfold pair? at h
    split at h
    · next c =>
      rw [Option.ite_none_right_eq_some, Option.isSome_iff_exists] at h
      obtain ⟨⟨n, hn⟩, h⟩ := h
      obtain ⟨hlt, hlower, _⟩ := of_hexValue? hn
      cases h
      exact ⟨_, .one hn, by rw [hexPair_ofNat_of_lt hlt, hlower]⟩
    · next c d =>
      rw [Option.ite_none_right_eq_some, Option.isSome_iff_exists, Option.isSome_iff_exists] at h
      obtain ⟨⟨⟨m, hm⟩, n, hn⟩, h⟩ := h
      cases h
      refine ⟨_, .two hm hn, ?_⟩
      rw [hexPair_ofNat (of_hexValue? hm).1 (of_hexValue? hn).1, (of_hexValue? hm).2.1,
        (of_hexValue? hn).2.1]
    · cases h
  · rintro ⟨b, hb, rfl⟩
    cases hb with
    | @one c n hc =>
      rw [hexPair_ofNat_of_lt (of_hexValue? hc).1, pair?, hc, (of_hexValue? hc).2.1]
      rfl
    | @two c d m n hc hd =>
      rw [hexPair_ofNat (of_hexValue? hc).1 (of_hexValue? hd).1, pair?, hc, hd,
        (of_hexValue? hc).2.1, (of_hexValue? hd).2.1]
      rfl

theorem mapM_pair?_eq_some {groups pairs : List (List Char)} :
    groups.mapM pair? = some pairs ↔
      ∃ bs : Bytes, List.Forall₂ SpellsByte groups bs ∧ pairs = bs.map hexPair := by
  induction groups generalizing pairs with
  | nil =>
    rw [List.mapM_nil]
    refine ⟨?_, ?_⟩
    · intro h
      cases h
      exact ⟨[], .nil, rfl⟩
    · rintro ⟨bs, hbs, rfl⟩
      cases hbs
      rfl
  | cons group rest ih =>
    rw [List.mapM_cons]
    simp only [Option.bind_eq_bind, Option.bind_eq_some_iff, pair?_eq_some, ih]
    refine ⟨?_, ?_⟩
    · rintro ⟨_, ⟨b, hb, rfl⟩, _, ⟨bs, hbs, rfl⟩, h⟩
      cases h
      exact ⟨b :: bs, .cons hb hbs, rfl⟩
    · rintro ⟨_, hbs, rfl⟩
      cases hbs with
      | cons hb hbs => exact ⟨_, ⟨_, hb, rfl⟩, _, ⟨_, hbs, rfl⟩, rfl⟩

/-- The text of a hardware address is understood exactly if it spells six bytes, and it becomes
their pairs of digits in lower case. -/
theorem macText?_eq_some {text mac : List Char} :
    macText? text = some mac ↔ ∃ bs, SpellsMac text bs ∧ mac = colonHex bs := by
  unfold macText?
  simp only [Option.bind_eq_bind, Option.bind_eq_some_iff, mapM_pair?_eq_some,
    Option.ite_none_right_eq_some, Option.some.injEq]
  refine ⟨?_, ?_⟩
  · rintro ⟨_, ⟨bs, hbs, rfl⟩, hsix, rfl⟩
    rw [List.length_map] at hsix
    exact ⟨bs, ⟨hsix, hbs⟩, rfl⟩
  · rintro ⟨bs, ⟨hsix, hbs⟩, rfl⟩
    exact ⟨_, ⟨bs, hbs, rfl⟩, by rwa [List.length_map], rfl⟩

/-! ## One machine, many spellings -/

variable {text : List Char} {bs : Bytes}

theorem SpellsByte.readHexByte? {group : List Char} {b : UInt8} (h : SpellsByte group b) :
    readHexByte? group = some b := by
  cases h with
  | one hc => rw [Text.readHexByte?, hc, Option.map_some]
  | @two c d m n hc hd =>
    have hplus : c ≠ '+' := by
      rintro rfl
      cases hc
    simp only [Text.readHexByte?, if_neg hplus, hc, hd]

theorem SpellsByte.map_toLower {group : List Char} {b : UInt8} (h : SpellsByte group b) :
    SpellsByte (group.map Char.toLower) b := by
  cases h with
  | one hc => exact .one (hexValue?_toLower hc)
  | two hc hd => exact .two (hexValue?_toLower hc) (hexValue?_toLower hd)

theorem mapM_readHexByte?_of_spelled {groups : List (List Char)}
    (h : List.Forall₂ SpellsByte groups bs) : groups.mapM readHexByte? = some bs := by
  induction h with
  | nil => rfl
  | cons hb _ ih => simp [hb.readHexByte?, ih]

/-- The address of six groups of digits stands for the bytes that they spell. -/
theorem SpellsMac.readColonHex? (h : SpellsMac text bs) : readColonHex? text = some bs := by
  have hne : text ≠ [] := by
    rintro rfl
    have hlen := h.spelled.length_eq
    rw [h.six] at hlen
    cases hlen
  rw [Text.readColonHex?, if_neg hne]
  exact mapM_readHexByte?_of_spelled h.spelled

theorem isSome_of_spelled {groups : List (List Char)} (h : List.Forall₂ SpellsByte groups bs) :
    ∀ group ∈ groups, ∀ c ∈ group, (hexValue? c).isSome := by
  induction h with
  | nil => simp
  | cons hb _ ih =>
    rw [List.forall_mem_cons]
    refine ⟨?_, ih⟩
    cases hb with
    | one hc => simp [hc]
    | two hc hd => simp [hc, hd]

/-- What is spelled is written in digits and colons. -/
theorem SpellsMac.digit_or_colon (h : SpellsMac text bs) :
    ∀ c ∈ text, c = ':' ∨ ∃ n, hexValue? c = some n := by
  intro c hc
  rw [← intercalate_fields ':' text] at hc
  rcases mem_of_mem_intercalate hc with hc | ⟨group, hgroup, hc⟩
  · exact Or.inl (List.mem_singleton.mp hc)
  · exact Or.inr (Option.isSome_iff_exists.mp (isSome_of_spelled h.spelled group hgroup c hc))

/-- A text in lower case spells the same bytes. -/
theorem SpellsMac.lower (h : SpellsMac text bs) : SpellsMac (lower text) bs := by
  have hascii : ∀ c ∈ text, c.toNat < 0x80 := by
    intro c hc
    rcases h.digit_or_colon c hc with rfl | ⟨n, hn⟩
    · decide
    · exact toNat_lt_of_hexValue? hn
  have hcolon : ∀ c ∈ text, c.toLower = ':' ↔ c = ':' := by
    intro c hc
    rcases h.digit_or_colon c hc with rfl | ⟨n, hn⟩
    · decide
    · obtain ⟨hlt, hlower, _⟩ := of_hexValue? hn
      rw [hlower]
      have hdigit := (hexDigit_facts n hlt).2
      have hother : c ≠ ':' := by
        rintro rfl
        cases hn
      simp [hdigit, hother]
  refine ⟨h.six, ?_⟩
  rw [lower_of_ascii hascii, fields_map hcolon, List.forall₂_map_left_iff]
  exact h.spelled.imp fun _ _ => SpellsByte.map_toLower

/-- Every spelling of a hardware address stands for the bytes that it spells, in lower case too. -/
theorem SpellsMac.bytes? (h : SpellsMac text bs) (kind : Option HardwareType) :
    HardwareAddress.bytes? ⟨kind, String.ofList text⟩ = some bs ∧
      (HardwareAddress.ofText kind (String.ofList text)).bytes? = some bs := by
  simp only [HardwareAddress.bytes?, HardwareAddress.ofText, String.toList_ofList]
  exact ⟨h.readColonHex?, h.lower.readColonHex?⟩

/-- A text is understood as these bytes exactly if it spells them. -/
theorem macText?_eq_colonHex : macText? text = some (colonHex bs) ↔ SpellsMac text bs := by
  rw [macText?_eq_some]
  refine ⟨?_, ?_⟩
  · rintro ⟨cs, hcs, hsame⟩
    rwa [colonHex_inj.mp hsame]
  · intro h
    exact ⟨bs, h, rfl⟩

/-! ## What lines and blocks name -/

/-- A hardware address that a line names is in lower case. -/
theorem isMacText_of_ofChars {line : List Char} {mac : String}
    (h : ofChars line = .hardware (some mac)) : IsMacText mac := by
  unfold ofChars at h
  dsimp only at h
  split at h
  · cases h
  split at h
  · cases h
  split at h
  · rw [LeaseLine.hardware.injEq, Option.map_eq_some_iff] at h
    obtain ⟨text, htext, rfl⟩ := h
    obtain ⟨bs, _, rfl⟩ := macText?_eq_some.mp htext
    exact isMacText_colonHex bs
  · split at h <;> cases h

end LeaseLine

theorem LeaseBlock.mac_of_lease? {now : Instant} {b : LeaseBlock} {lease : Lease}
    (h : b.lease? now = some lease) : b.mac = some lease.mac := by
  unfold lease? at h
  split at h
  · cases h
  split at h
  · next hmac =>
    cases h
    exact hmac
  · cases h

namespace Lease

variable {now : Instant}

/-- The block that a line leaves open names a hardware address of the line or of the block
before. -/
theorem step_mac {open? : Option LeaseBlock} {line : LeaseLine}
    (hopen : ∀ b ∈ open?, ∀ mac ∈ b.mac, IsMacText mac)
    (hline : ∀ mac, line = .hardware (some mac) → IsMacText mac) :
    ∀ b ∈ (LeaseBlock.step now open? line).1, ∀ mac ∈ b.mac, IsMacText mac := by
  cases line with
  | header address =>
    rintro b hb mac hmac
    cases hb
    cases hmac
  | ends e =>
    rintro b hb mac hmac
    obtain ⟨old, hold, rfl⟩ := Option.map_eq_some_iff.mp hb
    exact hopen old hold mac hmac
  | hardware text =>
    rintro b hb mac hmac
    obtain ⟨old, _, rfl⟩ := Option.map_eq_some_iff.mp hb
    exact hline mac (congrArg LeaseLine.hardware hmac)
  | close =>
    rintro b hb
    cases hb
  | other => exact hopen

/-- Every lease of lines has a hardware address in lower case, if every line that names one has. -/
theorem isMacText_of_mem_ofLines {open? : Option LeaseBlock} {lines : List LeaseLine}
    (hopen : ∀ b ∈ open?, ∀ mac ∈ b.mac, IsMacText mac)
    (hlines : ∀ line ∈ lines, ∀ mac, line = .hardware (some mac) → IsMacText mac) :
    ∀ lease ∈ ofLines now open? lines, IsMacText lease.mac := by
  induction lines generalizing open? with
  | nil =>
    intro lease hlease
    cases hlease
  | cons line rest ih =>
    obtain ⟨hline, hrest⟩ := List.forall_mem_cons.mp hlines
    intro lease hlease
    rw [ofLines_cons, List.mem_append, LeaseBlock.step_lease] at hlease
    rcases hlease with hlease | hlease
    · split at hlease
      · rw [Option.mem_toList, Option.bind_eq_some_iff] at hlease
        obtain ⟨b, hb, hlease⟩ := hlease
        exact hopen b hb _ (LeaseBlock.mac_of_lease? hlease)
      · cases hlease
    · exact ih (step_mac hopen hline) hrest lease hlease

theorem isMacText_of_mem_ofChars {text : List Char} :
    ∀ lease ∈ ofChars text now, IsMacText lease.mac := by
  apply isMacText_of_mem_ofLines
  · intro b hb
    cases hb
  · intro line hline mac hmac
    obtain ⟨chars, _, rfl⟩ := List.mem_map.mp hline
    exact LeaseLine.isMacText_of_ofChars hmac

end Lease

/-- Every lease that a look finds has a hardware address in lower case. -/
theorem LeaseTail.isMacText_of_poll {t : LeaseTail} {source : LeaseSource} {now : Instant}
    {leases : List Lease} (h : (t.poll source now).2 = .ok leases) :
    ∀ lease ∈ leases, IsMacText lease.mac := by
  have htake : ∀ (u : LeaseTail) (appended : Bytes),
      ∀ lease ∈ (u.take appended now).2, IsMacText lease.mac := by
    intro u appended
    unfold take
    dsimp only
    split
    · simp
    split
    · exact Lease.isMacText_of_mem_ofChars
    · simp
  unfold poll at h
  split at h
  · cases h
    simp
  · cases h
  · cases h
  · cases h
    exact htake _ _

end NetBoot
