-- Addresses are read back from their text, and the text of a hardware address is in lower case.
import NetBoot.Net.HardwareAddress
import NetBoot.Net.Ipv4
import NetBoot.Proofs.Text.HexRoundTrip
import NetBoot.Proofs.Text.Lowering
import NetBoot.Proofs.Text.Numerals

namespace NetBoot

/-! ## IPv4 addresses -/

namespace Ipv4

theorem octet_facts : ∀ n < 256, readOctet? (Text.showNat n) = some (UInt8.ofNat n) := by
  decide +kernel

theorem readOctet?_showNat (b : UInt8) : readOctet? (Text.showNat b.toNat) = some b := by
  have h := octet_facts b.toNat b.toNat_lt
  rwa [UInt8.ofNat_toNat] at h

/-- The dotted text of an address is read back. -/
theorem ofChars?_chars (ip : Ipv4) : ofChars? ip.chars = some ip := by
  have hdots : ∀ piece ∈ ip.octets.map fun b => Text.showNat b.toNat, '.' ∉ piece := by
    intro piece hpiece hdot
    obtain ⟨b, _, rfl⟩ := List.mem_map.mp hpiece
    exact absurd (Text.isDigit_of_mem_showNat hdot) (by decide)
  unfold ofChars? chars
  rw [Text.fields_intercalate '.' (by simp [octets]) hdots]
  simp [octets, readOctet?_showNat, ofOctets?]

theorem showNat_of_readOctet? {piece : List Char} {b : UInt8} (h : readOctet? piece = some b) :
    Text.showNat b.toNat = piece := by
  rw [readOctet?, Option.ite_none_right_eq_some, Option.map_eq_some_iff] at h
  obtain ⟨⟨_, hzero⟩, n, hn, rfl⟩ := h
  rw [Option.filter_eq_some_iff, decide_eq_true_eq] at hn
  rw [UInt8.toNat_ofNat_of_lt' (Nat.lt_succ_of_le hn.2)]
  exact Text.showNat_of_readNat? hn.1 hzero

theorem map_showNat_of_mapM {pieces : List (List Char)} {bs : Bytes}
    (h : pieces.mapM readOctet? = some bs) : bs.map (fun b => Text.showNat b.toNat) = pieces := by
  induction pieces generalizing bs with
  | nil =>
    cases h
    rfl
  | cons piece rest ih =>
    rw [List.mapM_cons] at h
    simp only [Option.bind_eq_bind, Option.bind_eq_some_iff] at h
    obtain ⟨b, hb, others, hothers, h⟩ := h
    cases h
    rw [List.map_cons, showNat_of_readOctet? hb, ih hothers]

/-- A text is read as an address exactly if it is the text of this address. -/
theorem ofChars?_eq_some {text : List Char} {ip : Ipv4} :
    ofChars? text = some ip ↔ text = ip.chars := by
  refine ⟨?_, ?_⟩
  · intro h
    rw [ofChars?, Option.bind_eq_some_iff] at h
    obtain ⟨bs, hbs, hip⟩ := h
    have hoctets : bs = ip.octets := by
      unfold ofOctets? at hip
      split at hip
      · cases hip
        rfl
      · cases hip
    rw [chars, ← hoctets, map_showNat_of_mapM hbs, Text.intercalate_fields]
  · rintro rfl
    exact ofChars?_chars ip

theorem chars_ne_nil (ip : Ipv4) : ip.chars ≠ [] := by
  intro h
  have := ofChars?_chars ip
  rw [h] at this
  cases this

end Ipv4

/-! ## Hardware addresses -/

namespace Text

/-- A character that hardware addresses are written with: in lower case, no blank and no comma. -/
structure IsAddressChar (c : Char) : Prop where
  lowered : IsLowered c
  not_blank : isBlank c = false
  not_comma : c ≠ ','

theorem isAddressChar_facts : ("0123456789abcdef:".toList.all fun c =>
    decide ((c ≠ 'Σ' ∧ c ≠ 'İ' ∧ lowerChar c = c) ∧ isBlank c = false ∧ c ≠ ',')) = true := by
  decide +kernel

theorem isAddressChar_of_mem {c : Char} (h : c ∈ "0123456789abcdef:".toList) : IsAddressChar c := by
  obtain ⟨⟨hsigma, hdotted, hlower⟩, hblank, hcomma⟩ :=
    of_decide_eq_true (List.all_eq_true.mp isAddressChar_facts c h)
  exact ⟨⟨hsigma, hdotted, hlower⟩, hblank, hcomma⟩

theorem hexDigit_mem : ∀ n < 16, hexDigit n ∈ "0123456789abcdef:".toList := by
  decide +kernel

end Text

/-- A text that is written with the characters of hardware addresses only. -/
def IsMacText (mac : String) : Prop := ∀ c ∈ mac.toList, Text.IsAddressChar c

/-- Pairs of digits with colons between them are written with these characters. -/
theorem isMacText_colonHex (bs : Bytes) : IsMacText (String.ofList (Text.colonHex bs)) := by
  intro c hc
  rw [String.toList_ofList] at hc
  rcases Text.colon_or_digit_of_mem_colonHex hc with rfl | ⟨n, hn, rfl⟩
  · exact Text.isAddressChar_of_mem (by decide)
  · exact Text.isAddressChar_of_mem (Text.hexDigit_mem n hn)

theorem isMacText_of_colonHex {mac : String} (h : ∃ bs, mac = String.ofList (Text.colonHex bs)) :
    IsMacText mac := by
  obtain ⟨bs, rfl⟩ := h
  exact isMacText_colonHex bs

/-- The bytes of an address are read back from its text. -/
theorem HardwareAddress.bytes?_ofBytes (kind : Option HardwareType) (bs : Bytes) :
    (HardwareAddress.ofBytes kind bs).bytes? = some bs := by
  unfold bytes? ofBytes
  rw [String.toList_ofList, Text.readColonHex?_colonHex]

end NetBoot
