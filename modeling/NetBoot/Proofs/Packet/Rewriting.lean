-- Writing a message that was read. Each option of the message takes the room of one triple of the
-- packet, so what is written is no longer than what was read, and a packet that left a byte free
-- is always written again.
import NetBoot.Proofs.Packet.Complaints
import NetBoot.Proofs.Packet.RoundTrip

namespace NetBoot

/-! ## The room of triples -/

/-- The triples of an area fit into its bytes. -/
theorem Layout.sum_tripleSize_le {bs : Bytes} {ts : List (UInt8 × Bytes)} (h : Layout bs ts) :
    (ts.map tripleSize).sum ≤ bs.length := by
  induction h with
  | finished => exact Nat.le_refl 0
  | ended rest => exact Nat.zero_le _
  | pad _ ih => exact Nat.le_succ_of_le ih
  | @triple code len value bs ts _ _ _ _ ih =>
    have hsize : tripleSize (code, value) = 2 + value.length := rfl
    rw [List.map_cons, List.sum_cons, hsize, List.length_cons, List.length_cons, List.length_append]
    omega

/-- The room of the triple that counts for a code. -/
def roomOf (ts : List (UInt8 × Bytes)) (code : UInt8) : Nat :=
  (lastValue code ts).elim 0 fun value => 2 + value.length

theorem roomOf_cons_le (t : UInt8 × Bytes) (ts : List (UInt8 × Bytes)) (code : UInt8) :
    roomOf (t :: ts) code ≤ roomOf ts code + if t.1 = code then tripleSize t else 0 := by
  unfold roomOf tripleSize
  rw [lastValue_cons]
  cases lastValue code ts with
  | some value => exact Nat.le_add_right _ _
  | none => split <;> simp

/-- A code stands at most once among different codes. -/
theorem sum_ite_le {codes : List UInt8} (h : codes.Nodup) (c : UInt8) (n : Nat) :
    (codes.map fun code => if c = code then n else 0).sum ≤ n := by
  induction codes with
  | nil => exact Nat.zero_le n
  | cons code codes ih =>
    obtain ⟨hnot, hrest⟩ := List.nodup_cons.mp h
    rw [List.map_cons, List.sum_cons]
    by_cases hc : c = code
    · subst hc
      have hnone : codes.map (fun code => if c = code then n else 0) = codes.map fun _ => 0 := by
        apply List.map_congr_left
        intro d hd
        refine if_neg ?_
        rintro rfl
        exact hnot hd
      rw [if_pos rfl, hnone]
      simp
    · rw [if_neg hc, Nat.zero_add]
      exact ih hrest

/-- The triples that count for different codes are different triples. -/
theorem sum_roomOf_le {codes : List UInt8} (h : codes.Nodup) (ts : List (UInt8 × Bytes)) :
    (codes.map (roomOf ts)).sum ≤ (ts.map tripleSize).sum := by
  induction ts with
  | nil =>
    show (codes.map fun _ => 0).sum ≤ 0
    simp
  | cons t ts ih =>
    calc (codes.map (roomOf (t :: ts))).sum
        ≤ (codes.map fun code =>
            roomOf ts code + if t.1 = code then tripleSize t else 0).sum :=
          List.sum_le_sum fun code _ => roomOf_cons_le t ts code
      _ = (codes.map (roomOf ts)).sum +
            (codes.map fun code => if t.1 = code then tripleSize t else 0).sum :=
          List.sum_map_add
      _ ≤ (ts.map tripleSize).sum + tripleSize t := Nat.add_le_add ih (sum_ite_le h t.1 _)
      _ = ((t :: ts).map tripleSize).sum := by
          rw [List.map_cons, List.sum_cons, Nat.add_comm]

/-! ## Texts -/

/-- The bytes are those of a text. -/
def IsUtf8 (bs : Bytes) : Prop := ∃ s : String, utf8 s = bs

/-- What is UTF-8 is written again as it was read. -/
theorem IsUtf8.utf8_lossy {bs : Bytes} (h : IsUtf8 bs) : utf8 (lossy bs) = bs := by
  obtain ⟨s, rfl⟩ := h
  rw [lossy_utf8]

theorem length_untilZero_slice_le (p : Bytes) (start width : Nat) :
    (p.slice start width).untilZero.length ≤ width := by
  calc (p.slice start width).untilZero.length
      ≤ (p.slice start width).length := (List.takeWhile_sublist _).length_le
    _ ≤ width := List.length_take_le _ _

/-- The codes of the options that are texts. -/
def textCodes : List UInt8 := [12, 15, 60, 67, 77]

/-- Every text of a packet is UTF-8: the two names up to their first zero byte, the options that
are texts, and the name in the option 81. -/
structure TextsAreUtf8 (p : Bytes) (ts : List (UInt8 × Bytes)) : Prop where
  sname : IsUtf8 (p.slice 44 64).untilZero
  fname : IsUtf8 (p.slice 108 128).untilZero
  options : ∀ t ∈ ts, t.1 ∈ textCodes → IsUtf8 t.2
  clientName : ∀ t ∈ ts, t.1 = 81 → IsUtf8 (t.2.drop 3)

/-- The text in the bytes of a value, if there is one, is UTF-8. -/
def TextIsUtf8 : OptionKind → Bytes → Prop
  | .text, bs => IsUtf8 bs
  | .clientName, bs => IsUtf8 (bs.drop 3)
  | _, _ => True

theorem code_mem_textCodes {o : OptionName} : o.kind = .text → o.code ∈ textCodes := by
  cases o <;> decide

theorem code_of_clientName {o : OptionName} : o.kind = .clientName → o.code = 81 := by
  cases o <;> decide

theorem TextsAreUtf8.textIsUtf8 {p : Bytes} {ts : List (UInt8 × Bytes)} (h : TextsAreUtf8 p ts)
    {o : OptionName} {bs : Bytes} (hmem : (o.code, bs) ∈ ts) : TextIsUtf8 o.kind bs := by
  cases hk : o.kind
  case text => exact h.options _ hmem (code_mem_textCodes hk)
  case clientName => exact h.clientName _ hmem (code_of_clientName hk)
  all_goals trivial

/-! ## Values that were read -/

theorem VendorTable.codes_nodup : VendorTable.codes.Nodup := by
  unfold codes List.Nodup
  rw [List.pairwise_map]
  refine List.nodup_range.imp_of_mem fun hm hn hne h => hne ?_
  have hnat := congrArg UInt8.toNat h
  rw [List.mem_range] at hm hn
  rwa [UInt8.toNat_ofNat', UInt8.toNat_ofNat', Nat.mod_eq_of_lt hm, Nat.mod_eq_of_lt hn] at hnat

/-- The room of a table is that of its entries, code by code. -/
theorem VendorTable.sum_entries (t : VendorTable) :
    (t.entries.map tripleSize).sum =
      (codes.map fun code => (t.get code).elim 0 fun value => 2 + value.length).sum := by
  unfold entries
  induction codes with
  | nil => rfl
  | cons code codes ih =>
    rw [List.map_cons, List.sum_cons, ← ih]
    cases h : t.get code with
    | none =>
      rw [List.filterMap_cons_none (by rw [h]; rfl)]
      exact (Nat.zero_add _).symm
    | some value =>
      rw [List.filterMap_cons_some (by rw [h]; rfl), List.map_cons, List.sum_cons]
      rfl

namespace OptionValue

/-- A value that was read is written in no more bytes. -/
theorem Denotes.size_le {k : OptionKind} {bs : Bytes} {v : k.Value} (h : Denotes k bs v)
    (htext : TextIsUtf8 k bs) : size k v ≤ bs.length := by
  cases k with
  | address =>
    cases h
    exact Nat.le_refl 4
  | addresses =>
    obtain ⟨_, rfl⟩ := h
    rw [Ipv4.length_flatMap_octets]
    exact Nat.le_refl _
  | word32 => exact Nat.le_of_eq h.1.symm
  | word16 => exact Nat.le_of_eq h.1.symm
  | word8 =>
    cases h
    exact Nat.le_refl 1
  | text =>
    cases (h : v = lossy bs)
    show (utf8 (lossy bs)).length ≤ bs.length
    rw [IsUtf8.utf8_lossy htext]
  | bytes =>
    cases h
    exact Nat.le_refl _
  | messageType =>
    cases h
    exact Nat.le_refl 1
  | clientId =>
    obtain ⟨code, address, rfl, _, hid⟩ := h
    have hbytes : HardwareAddress.bytes? v = some address := by
      unfold HardwareAddress.bytes?
      rw [hid, Text.readColonHex?_colonHex]
    show 1 + ((HardwareAddress.bytes? v).getD []).length ≤ address.length + 1
    rw [hbytes, Nat.add_comm]
    exact Nat.le_refl _
  | clientName =>
    obtain ⟨b, c, name, rfl, hname⟩ := h
    have hutf8 : utf8 v.name = name := by
      rw [hname]
      exact IsUtf8.utf8_lossy htext
    show 3 + (utf8 v.name).length ≤ name.length + 1 + 1 + 1
    rw [hutf8]
    omega
  | vendorTable =>
    obtain ⟨ts, hlayout, hget⟩ := h
    show ((VendorTable.entries v).map tripleSize).sum ≤ bs.length
    rw [VendorTable.sum_entries]
    simp only [hget]
    exact (sum_roomOf_le VendorTable.codes_nodup ts).trans hlayout.sum_tripleSize_le

theorem Denotes.hasShape {k : OptionKind} {bs : Bytes} {v : k.Value} (h : Denotes k bs v) :
    HasShape k v := by
  cases k with
  | addresses => exact h.1
  | clientId =>
    obtain ⟨code, address, rfl, _, hid⟩ := h
    refine ⟨address, ?_⟩
    unfold HardwareAddress.bytes?
    rw [hid, Text.readColonHex?_colonHex]
  | vendorTable =>
    obtain ⟨ts, hlayout, hget⟩ := h
    have habsent : ∀ code, code = padCode ∨ code = endCode → VendorTable.get v code = none := by
      intro code hcode
      rw [hget]
      refine Option.eq_none_iff_forall_ne_some.mpr fun value hvalue => ?_
      have htriple := hlayout.isTriple _ (mem_of_lastValue hvalue)
      exact hcode.elim htriple.not_pad htriple.not_end
    exact ⟨habsent 0 (Or.inl rfl), habsent 255 (Or.inr rfl)⟩
  | _ => trivial

end OptionValue

/-! ## Packets that were read -/

section Packets

variable {p : Bytes} {ts : List (UInt8 × Bytes)} (hp : IsPacket p ts) (htexts : TextsAreUtf8 p ts)

include hp htexts

/-- Each option of the message takes no more room than the triple that it was read from. -/
theorem IsPacket.sizeOf_le (o : OptionName) :
    (Message.ofPacket p ts).options.sizeOf o ≤ roomOf ts o.code := by
  have hsaid := hp.says
  unfold Options.sizeOf roomOf
  cases hv : (Message.ofPacket p ts).options.get o with
  | none => exact Nat.zero_le _
  | some v =>
    obtain ⟨bs, hlast, hdenotes⟩ := (hsaid.options o v).mp hv
    rw [hlast]
    exact Nat.add_le_add_left (hdenotes.size_le (htexts.textIsUtf8 (mem_of_lastValue hlast))) 2

theorem IsPacket.size_le : (Message.ofPacket p ts).options.size ≤ p.length - 240 := by
  have hnodup : (OptionName.all.map OptionName.code).Nodup := by decide
  calc (OptionName.all.map (Message.ofPacket p ts).options.sizeOf).sum
      ≤ (OptionName.all.map fun o => roomOf ts o.code).sum :=
        List.sum_le_sum fun o _ => hp.sizeOf_le htexts o
    _ = ((OptionName.all.map OptionName.code).map (roomOf ts)).sum := by
        rw [List.map_map]
        rfl
    _ ≤ (ts.map tripleSize).sum := sum_roomOf_le hnodup ts
    _ ≤ (p.drop 240).length := hp.area.sum_tripleSize_le
    _ = p.length - 240 := List.length_drop

/-- A message from a packet of texts can be written, if the packet left one byte free and its
hardware address is one of Ethernet. -/
theorem IsPacket.isWritable (hshort : p.length ≤ 1499)
    (hsix : (Message.ofPacket p ts).hlen = 6) : (Message.ofPacket p ts).IsWritable := by
  have hsaid := hp.says
  have hheader : 240 ≤ p.length := hp.header
  have hsize := hp.size_le htexts
  constructor
  case chaddr =>
    refine ⟨p.slice 28 6, ?_, Bytes.length_slice (by omega)⟩
    have htext := hsaid.chaddr
    rw [hsix] at htext
    unfold HardwareAddress.bytes?
    rw [htext]
    exact Text.readColonHex?_colonHex _
  case sname =>
    rw [hsaid.sname, htexts.sname.utf8_lossy]
    exact length_untilZero_slice_le p 44 64
  case fname =>
    rw [hsaid.fname, htexts.fname.utf8_lossy]
    exact length_untilZero_slice_le p 108 128
  case shapes =>
    intro o v hv
    obtain ⟨bs, _, hdenotes⟩ := (hsaid.options o v).mp hv
    exact hdenotes.hasShape
  case sizes =>
    intro o v hv
    obtain ⟨bs, hlast, hdenotes⟩ := (hsaid.options o v).mp hv
    have hmem := mem_of_lastValue hlast
    exact (hdenotes.size_le (htexts.textIsUtf8 hmem)).trans (hp.area.isTriple _ hmem).length_le
  case whole => omega

end Packets

/-- A message that was read from a packet is written again, and the new packet is longer than the
old one by no more than an end code and a zero byte, or it is the smallest one. -/
theorem rewriting_does_not_grow {p : Bytes} {m : Message} {ts : List (UInt8 × Bytes)}
    (hshort : p.length ≤ 1499) (hread : Message.decode p = .ok m) (hsix : m.hlen = 6)
    (harea : Layout (p.drop headerLength) ts) (htexts : TextsAreUtf8 p ts) :
    ∃ q, m.encode = .ok q ∧ q.length ≤ max 300 (p.length + 2) := by
  obtain ⟨us, hp, rfl⟩ := (Message.decode_eq_ok p m).mp hread
  obtain rfl : us = ts := by
    obtain ⟨_, hus⟩ := (Area.layout_iff_read 0 _ us).mp hp.area
    obtain ⟨_, hts⟩ := (Area.layout_iff_read 0 _ ts).mp harea
    exact hus.symm.trans hts
  have hwritable := hp.isWritable htexts hshort hsix
  have hfinds := (Message.ofPacket p us).finds_encode
  obtain ⟨q, hq⟩ := hfinds.ok_iff.mpr ((Message.ofPacket p us).complaints_eq_nil.mpr hwritable)
  refine ⟨q, hq, ?_⟩
  have hsize := hp.size_le htexts
  have hheader : 240 ≤ p.length := hp.header
  have h300 : shortestPacket = 300 := rfl
  rw [Message.length_encode hq]
  unfold paddedLength Message.size
  omega

/-- A packet with no end code that its only option fills to the last byte. Behind the zero byte of
its name stands what is no text. -/
def fullPacket : Bytes :=
  [1, 1, 6, 0, 0xde, 0xad, 0xbe, 0xef] ++ List.replicate 20 0 ++
    [0x08, 0x00, 0x27, 0x9b, 0xd9, 0xbe] ++ List.replicate 10 0 ++ [0xC3, 0xA9, 0, 0xFF] ++
    List.replicate 60 0 ++ List.replicate 128 0 ++ [0x63, 0x82, 0x53, 0x63] ++
    [12, 70] ++ List.replicate 70 0x68

def fullTriples : List (UInt8 × Bytes) := [(12, List.replicate 70 0x68)]

def fullMessage : Message where
  op := some .request
  hlen := 6
  xid := 0xdeadbeef
  chaddr := .ofBytes (some .ethernet) [0x08, 0x00, 0x27, 0x9b, 0xd9, 0xbe]
  sname := "é"
  magic := magicCookie
  options := Options.empty.set .hostName (String.ofList (List.replicate 70 'h'))

theorem rewriting_a_full_packet :
    Message.decode fullPacket = .ok fullMessage ∧ Layout (fullPacket.drop headerLength) fullTriples ∧
      TextsAreUtf8 fullPacket fullTriples ∧
      ∃ q, fullMessage.encode = .ok q ∧ fullPacket.length = 312 ∧ q.length ≤ 314 := by
  have hread : Message.decode fullPacket = .ok fullMessage := by decide +kernel
  have harea : Layout (fullPacket.drop headerLength) fullTriples :=
    (Area.layout_iff_read 0 _ _).mpr (by decide +kernel)
  have htexts : TextsAreUtf8 fullPacket fullTriples := by
    constructor
    case sname => exact ⟨"é", by decide +kernel⟩
    case fname => exact ⟨"", by decide +kernel⟩
    case options =>
      intro t ht _
      rw [List.mem_singleton.mp ht]
      exact ⟨String.ofList (List.replicate 70 'h'), by decide +kernel⟩
    case clientName =>
      intro t ht h81
      rw [List.mem_singleton.mp ht] at h81
      cases h81
  have hlength : fullPacket.length = 312 := by decide +kernel
  obtain ⟨q, hq, hle⟩ :=
    rewriting_does_not_grow (by rw [hlength]; decide) hread rfl harea htexts
  rw [hlength] at hle
  exact ⟨hread, harea, htexts, q, hq, hlength, hle⟩

end NetBoot
