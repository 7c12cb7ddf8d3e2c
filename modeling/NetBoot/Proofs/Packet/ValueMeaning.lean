-- What the bytes of an option value mean, kind by kind and apart from the reader, and that the
-- reader accepts exactly the well-formed bytes and gives their meaning.
import NetBoot.Packet.OptionValue
import NetBoot.Proofs.Packet.Layout

namespace NetBoot

namespace OptionValue

/-! ## The meaning of bytes -/

/-- The bytes that a value of this kind can have. -/
def WellFormed : OptionKind → Bytes → Prop
  | .address, bs => bs.length = 4
  | .addresses, bs => bs ≠ [] ∧ bs.length % 4 = 0
  | .word32, bs => bs.length = 4
  | .word16, bs => bs.length = 2
  | .word8, bs => bs.length = 1
  | .text, _ => True
  | .bytes, _ => True
  | .messageType, bs => ∃ b : UInt8, bs = [b] ∧ 1 ≤ b.toNat ∧ b.toNat ≤ 8
  | .clientId, bs => bs ≠ []
  | .clientName, bs => 3 ≤ bs.length
  | .vendorTable, bs => ∃ ts, Layout bs ts

/-- The bytes stand for the value. Numbers have their most significant byte first, text is UTF-8
with a replacement for what is not, and a type that has no name is absent. -/
def Denotes : (k : OptionKind) → Bytes → k.Value → Prop
  | .address, bs, ip => bs = ip.octets
  | .addresses, bs, ips => ips ≠ [] ∧ bs = ips.flatMap Ipv4.octets
  | .word32, bs, n => bs.length = 4 ∧ UInt32.toNat n = bs.toNat
  | .word16, bs, n => bs.length = 2 ∧ UInt16.toNat n = bs.toNat
  | .word8, bs, n => bs = [n]
  | .text, bs, s => s = lossy bs
  | .bytes, bs, value => value = bs
  | .messageType, bs, t => bs = [t.code]
  | .clientId, bs, id =>
    ∃ code address, bs = code :: address ∧ (∀ t, id.kind = some t ↔ code = t.code) ∧
      id.text.toList = Text.colonHex address
  | .clientName, bs, n => ∃ b c name, bs = n.flags :: b :: c :: name ∧ n.name = lossy name
  | .vendorTable, bs, t => ∃ ts, Layout bs ts ∧ ∀ code, t.get code = lastValue code ts

end OptionValue

/-! ## Closed sets of codes -/

/-- A table that finds each of its entries by the code of that entry finds nothing else. -/
theorem find?_code_eq_some {α : Type} {all : List α} {code : α → UInt8}
    (hself : ∀ a, all.find? (fun b => code b = code a) = some a) {n : UInt8} {a : α} :
    all.find? (fun b => code b = n) = some a ↔ n = code a := by
  refine ⟨?_, ?_⟩
  · intro h
    have hcode := List.find?_some h
    exact (by simpa using hcode : code a = n).symm
  · intro h
    rw [h]
    exact hself a

theorem HardwareType.ofCode?_eq_some {n : UInt8} {t : HardwareType} :
    HardwareType.ofCode? n = some t ↔ n = t.code :=
  find?_code_eq_some HardwareType.ofCode?_code

theorem MessageType.ofCode?_eq_some {n : UInt8} {t : MessageType} :
    MessageType.ofCode? n = some t ↔ n = t.code :=
  find?_code_eq_some MessageType.ofCode?_code

theorem BootpOp.ofCode?_eq_some {n : UInt8} {op : BootpOp} :
    BootpOp.ofCode? n = some op ↔ n = op.code :=
  find?_code_eq_some BootpOp.ofCode?_code

theorem MessageType.code_bounds (t : MessageType) : 1 ≤ t.code.toNat ∧ t.code.toNat ≤ 8 := by
  cases t <;> decide

theorem MessageType.exists_code {b : UInt8} (h1 : 1 ≤ b.toNat) (h8 : b.toNat ≤ 8) :
    ∃ t : MessageType, b = t.code := by
  have hall : ∀ n < 9, 1 ≤ n → ∃ t ∈ MessageType.all, UInt8.ofNat n = t.code := by decide
  obtain ⟨t, _, ht⟩ := hall b.toNat (by omega) h1
  exact ⟨t, by rwa [UInt8.ofNat_toNat] at ht⟩

/-! ## Pieces of fixed width -/

theorem Bytes.toNat_lt (bs : Bytes) : bs.toNat < capacity bs.length := by
  induction bs with
  | nil => exact Nat.zero_lt_one
  | cons b rest ih =>
    have hb := b.toNat_lt
    rw [Bytes.toNat_cons, List.length_cons, capacity_succ]
    have : b.toNat * capacity rest.length ≤ 255 * capacity rest.length :=
      Nat.mul_le_mul_right _ (by omega)
    omega

theorem Bytes.toNat_word32 {bs : Bytes} (h : bs.length = 4) :
    (UInt32.ofNat bs.toNat).toNat = bs.toNat := by
  apply UInt32.toNat_ofNat_of_lt'
  have hlt := Bytes.toNat_lt bs
  rwa [h] at hlt

theorem Bytes.toNat_word16 {bs : Bytes} (h : bs.length = 2) :
    (UInt16.ofNat bs.toNat).toNat = bs.toNat := by
  apply UInt16.toNat_ofNat_of_lt'
  have hlt := Bytes.toNat_lt bs
  rwa [h] at hlt

theorem Ipv4.ofOctets?_eq_some {bs : Bytes} {ip : Ipv4} :
    Ipv4.ofOctets? bs = some ip ↔ bs = ip.octets := by
  refine ⟨?_, ?_⟩
  · intro h
    unfold Ipv4.ofOctets? at h
    split at h
    · cases h
      rfl
    · cases h
  · rintro rfl
    exact Ipv4.ofOctets?_octets ip

theorem Ipv4.exists_octets {bs : Bytes} (h : bs.length = 4) : ∃ ip : Ipv4, bs = ip.octets := by
  match bs, h with
  | [a, b, c, d], _ => exact ⟨⟨a, b, c, d⟩, rfl⟩

/-- Bytes in whole groups of four are those of their addresses. -/
theorem Ipv4.flatMap_listOfOctets (bs : Bytes) (h : bs.length % 4 = 0) :
    (Ipv4.listOfOctets bs).flatMap Ipv4.octets = bs := by
  induction hn : bs.length using Nat.strongRecOn generalizing bs with
  | _ n ih =>
    subst hn
    match bs, h with
    | [], _ => rfl
    | a :: b :: c :: d :: rest, h =>
      have hrest : rest.length % 4 = 0 := by
        simp only [List.length_cons] at h
        omega
      have := ih rest.length (by simp; omega) rest hrest rfl
      rw [Ipv4.listOfOctets, List.flatMap_cons, this]
      rfl
    | [a], h => simp at h
    | [a, b], h => simp at h
    | [a, b, c], h => simp at h

theorem Ipv4.length_flatMap_octets (ips : List Ipv4) :
    (ips.flatMap Ipv4.octets).length = 4 * ips.length := by
  induction ips with
  | nil => rfl
  | cons ip ips ih =>
    rw [List.flatMap_cons, List.length_append, ih, Ipv4.length_octets, List.length_cons]
    omega

/-- The bytes of one or more addresses are those that come in whole groups of four. -/
theorem Ipv4.eq_flatMap_octets_iff {bs : Bytes} {ips : List Ipv4} :
    ips ≠ [] ∧ bs = ips.flatMap Ipv4.octets ↔
      (bs ≠ [] ∧ bs.length % 4 = 0) ∧ Ipv4.listOfOctets bs = ips := by
  refine ⟨?_, ?_⟩
  · intro h
    obtain ⟨hne, rfl⟩ := h
    have hlen := Ipv4.length_flatMap_octets ips
    have hpos := List.length_pos_iff.mpr hne
    refine ⟨⟨?_, by omega⟩, Ipv4.listOfOctets_flatMap ips⟩
    intro hnil
    rw [hnil, List.length_nil] at hlen
    omega
  · intro h
    obtain ⟨⟨hne, hmod⟩, rfl⟩ := h
    have hflat := Ipv4.flatMap_listOfOctets bs hmod
    refine ⟨?_, hflat.symm⟩
    intro hnil
    rw [hnil] at hflat
    exact hne hflat.symm

theorem VendorTable.get_ofList (l : List (UInt8 × Bytes)) (code : UInt8) :
    (VendorTable.ofList l).get code = lastValue code l := by
  have hgen : ∀ t : VendorTable,
      (l.foldl (fun t e => t.set e.1 e.2) t).get code = (lastValue code l).or (t.get code) := by
    induction l with
    | nil => intro t; rfl
    | cons e l ih =>
      intro t
      rw [List.foldl_cons, ih, lastValue_cons, Option.or_assoc]
      congr 1
      by_cases h : e.1 = code
      · subst h
        simp
      · rw [VendorTable.get_set_ne t e.2 (Ne.symm h), if_neg h, Option.none_or]
  unfold VendorTable.ofList
  rw [hgen, VendorTable.get_empty, Option.or_none]

namespace OptionValue

/-! ## The reader, kind by kind -/

theorem readByte_eq_ok {bs : Bytes} {b : UInt8} : readByte bs = .ok b ↔ bs = [b] := by
  unfold readByte
  split
  · simp
  · next h =>
    refine ⟨?_, ?_⟩
    · intro he
      cases he
    · intro he
      exact absurd he (h b)

theorem readMessageType_eq_ok {bs : Bytes} {t : MessageType} :
    readMessageType bs = .ok t ↔ bs = [t.code] := by
  unfold readMessageType
  rw [bind_eq_ok]
  refine ⟨?_, ?_⟩
  · intro h
    obtain ⟨code, hcode, h⟩ := h
    rw [readByte_eq_ok] at hcode
    subst hcode
    cases hc : MessageType.ofCode? code with
    | none =>
      rw [hc] at h
      cases h
    | some u =>
      rw [hc] at h
      cases h
      rw [MessageType.ofCode?_eq_some.mp hc]
  · intro h
    exact ⟨t.code, readByte_eq_ok.mpr h, by simp [MessageType.ofCode?_code, pure, Except.pure]⟩

theorem readClientId_eq_ok {bs : Bytes} {id : HardwareAddress} :
    readClientId bs = .ok id ↔ Denotes .clientId bs id := by
  obtain ⟨kind, text⟩ := id
  cases bs with
  | nil => simp [readClientId, Denotes]
  | cons code address =>
    simp only [readClientId, Denotes, Except.ok.injEq, HardwareAddress.ofBytes,
      HardwareAddress.mk.injEq, List.cons.injEq]
    refine ⟨?_, ?_⟩
    · rintro ⟨rfl, rfl⟩
      exact ⟨code, address, ⟨rfl, rfl⟩, fun t => HardwareType.ofCode?_eq_some,
        String.toList_ofList⟩
    · rintro ⟨_, _, ⟨rfl, rfl⟩, hkind, htext⟩
      refine ⟨?_, by rw [← htext, String.ofList_toList]⟩
      apply Option.ext
      intro t
      rw [hkind t]
      exact HardwareType.ofCode?_eq_some

theorem readClientName_eq_ok {bs : Bytes} {n : ClientName} :
    readClientName bs = .ok n ↔ Denotes .clientName bs n := by
  obtain ⟨flags, name⟩ := n
  unfold readClientName
  split
  · next flags' b c rest =>
    simp only [Denotes, Except.ok.injEq, ClientName.mk.injEq, List.cons.injEq]
    refine ⟨?_, ?_⟩
    · rintro ⟨rfl, rfl⟩
      exact ⟨b, c, rest, ⟨rfl, rfl, rfl, rfl⟩, rfl⟩
    · rintro ⟨_, _, _, ⟨rfl, _, _, rfl⟩, rfl⟩
      exact ⟨rfl, rfl⟩
  · next h =>
    refine ⟨?_, ?_⟩
    · intro he
      cases he
    · rintro ⟨b, c, rest, rfl, _⟩
      exact absurd rfl (h flags b c rest)

theorem readVendorTable_eq_ok {bs : Bytes} {t : VendorTable} :
    readVendorTable bs = .ok t ↔ Denotes .vendorTable bs t := by
  unfold readVendorTable
  simp only [Denotes]
  have hiff := Area.layout_iff_read 0 bs
  cases hf : (Area.read 0 bs).fault with
  | some e =>
    simp only [reduceCtorEq, false_iff]
    rintro ⟨ts, hlayout, _⟩
    rw [hiff, hf] at hlayout
    cases hlayout.1
  | none =>
    simp only [Except.ok.injEq]
    refine ⟨?_, ?_⟩
    · rintro rfl
      refine ⟨(Area.read 0 bs).entries, (hiff _).mpr ⟨hf, rfl⟩, ?_⟩
      exact VendorTable.get_ofList _
    · rintro ⟨ts, hlayout, hget⟩
      obtain ⟨_, rfl⟩ := (hiff ts).mp hlayout
      apply VendorTable.ext
      intro code
      rw [hget code]
      exact VendorTable.get_ofList _ code

/-! ## The reader as a whole -/

theorem readAddress_eq_ok {bs : Bytes} {ip : Ipv4} : readAddress bs = .ok ip ↔ bs = ip.octets := by
  unfold readAddress
  cases h : Ipv4.ofOctets? bs with
  | none =>
    refine ⟨?_, ?_⟩
    · intro he
      cases he
    · rintro rfl
      rw [Ipv4.ofOctets?_octets] at h
      cases h
  | some other =>
    rw [← Ipv4.ofOctets?_eq_some, h]
    simp

theorem readAddresses_eq_ok {bs : Bytes} {ips : List Ipv4} :
    readAddresses bs = .ok ips ↔ ips ≠ [] ∧ bs = ips.flatMap Ipv4.octets := by
  unfold readAddresses
  rw [Ipv4.eq_flatMap_octets_iff]
  by_cases h : bs = [] ∨ bs.length % 4 ≠ 0
  · rw [if_pos h]
    simp only [reduceCtorEq, false_iff, not_and]
    intro hok
    rcases h with hnil | hmod
    · exact absurd hnil hok.1
    · exact absurd hok.2 hmod
  · rw [if_neg h]
    simp only [not_or, Decidable.not_not] at h
    simp [h]

/-- The reader gives a value exactly where the bytes stand for it. -/
theorem read_eq_ok_iff (k : OptionKind) (bs : Bytes) (v : k.Value) :
    read k bs = .ok v ↔ Denotes k bs v := by
  cases k with
  | address => exact readAddress_eq_ok
  | addresses => exact readAddresses_eq_ok
  | word32 =>
    unfold read Denotes exactly
    by_cases h : bs.length = 4
    · simp only [h, if_true, true_and, Except.map, Except.ok.injEq]
      rw [← UInt32.toNat_inj, Bytes.toNat_word32 h]
      exact eq_comm
    · simp [h, Except.map]
  | word16 =>
    unfold read Denotes exactly
    by_cases h : bs.length = 2
    · simp only [h, if_true, true_and, Except.map, Except.ok.injEq]
      rw [← UInt16.toNat_inj, Bytes.toNat_word16 h]
      exact eq_comm
    · simp [h, Except.map]
  | word8 => exact readByte_eq_ok
  | text =>
    simp only [read, Denotes, Except.ok.injEq]
    exact eq_comm
  | bytes =>
    simp only [read, Denotes, Except.ok.injEq]
    exact eq_comm
  | messageType => exact readMessageType_eq_ok
  | clientId => exact readClientId_eq_ok
  | clientName => exact readClientName_eq_ok
  | vendorTable => exact readVendorTable_eq_ok

/-- The well-formed bytes are those that stand for some value. -/
theorem wellFormed_iff (k : OptionKind) (bs : Bytes) : WellFormed k bs ↔ ∃ v, Denotes k bs v := by
  cases k with
  | address =>
    refine ⟨?_, ?_⟩
    · exact Ipv4.exists_octets
    · rintro ⟨ip, rfl⟩
      rfl
  | addresses =>
    simp only [Denotes, Ipv4.eq_flatMap_octets_iff, exists_and_left, exists_eq', and_true]
    rfl
  | word32 =>
    refine ⟨?_, ?_⟩
    · intro h
      exact ⟨UInt32.ofNat bs.toNat, h, Bytes.toNat_word32 h⟩
    · rintro ⟨n, h, _⟩
      exact h
  | word16 =>
    refine ⟨?_, ?_⟩
    · intro h
      exact ⟨UInt16.ofNat bs.toNat, h, Bytes.toNat_word16 h⟩
    · rintro ⟨n, h, _⟩
      exact h
  | word8 => exact List.length_eq_one_iff
  | text => exact ⟨fun _ => ⟨_, rfl⟩, fun _ => trivial⟩
  | bytes => exact ⟨fun _ => ⟨_, rfl⟩, fun _ => trivial⟩
  | messageType =>
    refine ⟨?_, ?_⟩
    · rintro ⟨b, rfl, h1, h8⟩
      obtain ⟨t, rfl⟩ := MessageType.exists_code h1 h8
      exact ⟨t, rfl⟩
    · rintro ⟨t, rfl⟩
      exact ⟨t.code, rfl, t.code_bounds⟩
  | clientId =>
    refine ⟨?_, ?_⟩
    · intro h
      cases bs with
      | nil => exact absurd rfl h
      | cons code address => exact ⟨_, readClientId_eq_ok.mp rfl⟩
    · rintro ⟨id, code, address, rfl, _⟩
      simp [WellFormed]
  | clientName =>
    refine ⟨?_, ?_⟩
    · intro h
      match bs, h with
      | flags :: b :: c :: name, _ => exact ⟨⟨flags, lossy name⟩, b, c, name, rfl, rfl⟩
    · rintro ⟨n, b, c, name, rfl, _⟩
      simp [WellFormed]
  | vendorTable =>
    refine ⟨?_, ?_⟩
    · rintro ⟨ts, h⟩
      exact ⟨⟨fun code => lastValue code ts⟩, ts, h, fun _ => rfl⟩
    · rintro ⟨t, ts, h, _⟩
      exact ⟨ts, h⟩

/-- The reader takes exactly the well-formed bytes. -/
theorem wellFormed_iff_read (k : OptionKind) (bs : Bytes) :
    WellFormed k bs ↔ ∃ v, read k bs = .ok v := by
  simp only [wellFormed_iff, read_eq_ok_iff]

end OptionValue

end NetBoot
