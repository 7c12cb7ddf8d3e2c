-- The form of a packet on the wire, said byte by byte: every packet that is written has its
-- header fields at the offsets of RFC 2131, then the triples of its options in the order of their
-- codes, one end code, and nothing but zeros after it.
import NetBoot.Proofs.Packet.Encoding

namespace NetBoot

/-! ## The form -/

/-- A word as bytes, the most significant first. -/
def bigEndian32 (n : UInt32) : Bytes :=
  [(n >>> 24).toUInt8, (n >>> 16).toUInt8, (n >>> 8).toUInt8, n.toUInt8]

def bigEndian16 (n : UInt16) : Bytes := [(n >>> 8).toUInt8, n.toUInt8]

/-- A text in a field of fixed width, with zeros after it. -/
def FieldHolds (field : Bytes) (width : Nat) (s : String) : Prop :=
  (utf8 s).length ≤ width ∧ field = utf8 s ++ List.replicate (width - (utf8 s).length) 0

/-- The fixed header of a packet shows a message. The cookie is there whatever the message has in
its place. -/
structure HeaderShows (b : Bytes) (m : Message) : Prop where
  front : b.slice 0 4 = [(m.op.map BootpOp.code).getD 0, m.chaddr.typeCode, m.hlen, m.hops]
  xid : b.slice 4 4 = bigEndian32 m.xid
  secs : b.slice 8 2 = bigEndian16 m.secs
  flags : b.slice 10 2 = bigEndian16 m.flags
  ciaddr : b.slice 12 4 = (m.ciaddr.getD ⟨0, 0, 0, 0⟩).octets
  yiaddr : b.slice 16 4 = (m.yiaddr.getD ⟨0, 0, 0, 0⟩).octets
  siaddr : b.slice 20 4 = (m.siaddr.getD ⟨0, 0, 0, 0⟩).octets
  giaddr : b.slice 24 4 = (m.giaddr.getD ⟨0, 0, 0, 0⟩).octets
  chaddr : (b.slice 28 6).length = 6 ∧ m.chaddr.bytes? = some (b.slice 28 6)
  chaddrPadding : b.slice 34 10 = List.replicate 10 0
  sname : FieldHolds (b.slice 44 64) 64 m.sname
  fname : FieldHolds (b.slice 108 128) 128 m.fname
  cookie : b.slice 236 4 = [0x63, 0x82, 0x53, 0x63]

/-- A triple as it stands on the wire: its code, the byte of its length and its value. -/
structure WireTriple where
  code : UInt8
  len : UInt8
  value : Bytes

namespace WireTriple

def bytes (t : WireTriple) : Bytes := t.code :: t.len :: t.value

/-- The code is neither that of padding nor that of the end, and the length counts the value. -/
structure IsSound (t : WireTriple) : Prop where
  not_pad : t.code ≠ 0
  not_end : t.code ≠ 255
  len : t.len.toNat = t.value.length

end WireTriple

/-- An option area carries these options: sound triples in ascending order of their codes, one for
each option and none beside them, then one end code and only zeros. -/
def AreaCarries (area : Bytes) (t : Options) : Prop :=
  ∃ (ts : List WireTriple) (zeros : Nat),
    area = ts.flatMap WireTriple.bytes ++ 255 :: List.replicate zeros 0 ∧
    (ts.map WireTriple.code).Pairwise (· < ·) ∧
    (∀ w ∈ ts, w.IsSound) ∧
    ∀ code, code ∈ ts.map WireTriple.code ↔ ∃ o : OptionName, o.code = code ∧ t.get o ≠ none

/-! ## Words -/

theorem ofNat_eq_bigEndian32 (n : UInt32) : Bytes.ofNat 4 n.toNat = bigEndian32 n := by
  have h : ∀ i : Nat, i < 32 → UInt8.ofNat (n.toNat / 2 ^ i) = (n >>> UInt32.ofNat i).toUInt8 := by
    intro i hi
    apply UInt8.toNat_inj.mp
    have hmod : i % 4294967296 % 32 = i := by omega
    simp [Nat.shiftRight_eq_div_pow, hmod]
  unfold bigEndian32
  simp only [Bytes.ofNat, Bytes.capacity]
  refine List.cons_eq_cons.mpr ⟨h 24 (by omega), List.cons_eq_cons.mpr ⟨h 16 (by omega),
    List.cons_eq_cons.mpr ⟨h 8 (by omega), ?_⟩⟩⟩
  simp

theorem ofNat_eq_bigEndian16 (n : UInt16) : Bytes.ofNat 2 n.toNat = bigEndian16 n := by
  have h : UInt8.ofNat (n.toNat / 2 ^ 8) = (n >>> 8).toUInt8 := by
    apply UInt8.toNat_inj.mp
    simp [Nat.shiftRight_eq_div_pow]
  unfold bigEndian16
  simp only [Bytes.ofNat, Bytes.capacity]
  refine List.cons_eq_cons.mpr ⟨h, ?_⟩
  simp

/-! ## The header -/

theorem StartsWithHeader.shows {b : Bytes} {m : Message} {chaddr : Bytes}
    (h : StartsWithHeader b m chaddr (utf8 m.sname) (utf8 m.fname)) (hm : m.Encodable chaddr) :
    HeaderShows b m := by
  have hsix := hm.six
  have hmac : b.slice 28 6 = chaddr := by
    rw [← Bytes.take_slice b 28 (show 6 ≤ 16 by omega), h.chaddr, ← hsix]
    unfold Bytes.padTo
    exact List.take_left
  have hpadding : b.slice 34 10 = (Bytes.padTo 16 chaddr).drop 6 := by
    rw [← h.chaddr]
    unfold Bytes.slice
    rw [List.drop_take, List.drop_drop]
  constructor
  case front => exact h.front
  case xid => rw [h.xid, ofNat_eq_bigEndian32]
  case secs => rw [h.secs, ofNat_eq_bigEndian16]
  case flags => rw [h.flags, ofNat_eq_bigEndian16]
  case ciaddr => exact h.ciaddr
  case yiaddr => exact h.yiaddr
  case siaddr => exact h.siaddr
  case giaddr => exact h.giaddr
  case chaddr => exact ⟨by rw [hmac, hsix], by rw [hmac, hm.bytes]⟩
  case chaddrPadding =>
    rw [hpadding]
    unfold Bytes.padTo
    rw [← hsix, List.drop_left, hsix]
  case sname => exact ⟨hm.sname, h.sname⟩
  case fname => exact ⟨hm.fname, h.fname⟩
  case cookie =>
    rw [h.cookie]
    rfl

/-! ## The options -/

namespace Options

/-- The triples of options ascend in their codes, as the options do. -/
theorem pairwise_triples (t : Options) : (t.triples.map Prod.fst).Pairwise (· < ·) := by
  unfold triples triplesOf
  rw [List.pairwise_map, List.pairwise_filterMap]
  apply OptionName.pairwise_all.imp
  intro o p hop e he e' he'
  obtain ⟨_, _, rfl⟩ := Option.map_eq_some_iff.mp he
  obtain ⟨_, _, rfl⟩ := Option.map_eq_some_iff.mp he'
  exact hop

/-- A code stands among the triples exactly if the table has a value for its option. -/
theorem mem_triples_iff {t : Options} (h : ∀ o, t.Fits o) (code : UInt8) :
    code ∈ t.triples.map Prod.fst ↔ ∃ o : OptionName, o.code = code ∧ t.get o ≠ none := by
  refine ⟨?_, ?_⟩
  · intro hmem
    obtain ⟨e, he, rfl⟩ := List.mem_map.mp hmem
    obtain ⟨o, _, ho⟩ := List.mem_filterMap.mp he
    obtain ⟨value, hvalue, rfl⟩ := Option.map_eq_some_iff.mp ho
    obtain ⟨v, hget, _⟩ := Option.bind_eq_some_iff.mp hvalue
    exact ⟨o, rfl, by simp [hget]⟩
  · rintro ⟨o, rfl, hget⟩
    obtain ⟨v, hv⟩ := Option.ne_none_iff_exists'.mp hget
    obtain ⟨value, _, _, hbytes⟩ := (h o).valueBytes_eq hv
    apply List.mem_map.mpr
    refine ⟨(o.code, value), List.mem_filterMap.mpr ⟨o, o.mem_all, ?_⟩, rfl⟩
    rw [hbytes, Option.map_some]

/-- Triples that are written, an end code and zeros are an area that carries the options. -/
theorem areaCarries {t : Options} (h : ∀ o, t.Fits o) (zeros : Nat) :
    AreaCarries (layOut t.triples ++ endCode :: List.replicate zeros 0) t := by
  let onWire : UInt8 × Bytes → WireTriple := fun e => ⟨e.1, UInt8.ofNat e.2.length, e.2⟩
  have hcodes : (t.triples.map onWire).map WireTriple.code = t.triples.map Prod.fst := by
    rw [List.map_map]
    rfl
  refine ⟨t.triples.map onWire, zeros, ?_, ?_, ?_, ?_⟩
  · rw [List.flatMap_map]
    rfl
  · rw [hcodes]
    exact t.pairwise_triples
  · intro w hw
    obtain ⟨e, he, rfl⟩ := List.mem_map.mp hw
    have hsound := isTriple_triples h e he
    have hle := hsound.length_le
    refine ⟨hsound.not_pad, hsound.not_end, ?_⟩
    show (UInt8.ofNat e.2.length).toNat = e.2.length
    rw [UInt8.toNat_ofNat']
    omega
  · intro code
    rw [hcodes]
    exact mem_triples_iff h code

end Options

/-! ## The packet as a whole -/

theorem paddedLength_even (n : Nat) : paddedLength n % 2 = 0 := by
  have h300 : shortestPacket = 300 := rfl
  unfold paddedLength
  omega

/-- Every packet that is written has an even length between 300 and 1500, shows the header of its
message and carries its options. -/
theorem encode_is_well_formed {m : Message} {b : Bytes} (h : m.encode = .ok b) :
    b.length % 2 = 0 ∧ 300 ≤ b.length ∧ b.length ≤ 1500 ∧ HeaderShows b m ∧
      AreaCarries (b.drop 240) m.options := by
  obtain ⟨chaddr, hm, rfl⟩ := Message.encode_eq_ok.mp h
  have hwhole := hm.whole
  have hlength := length_padTo_paddedLength (m.body chaddr)
  have hsix : chaddr.length ≤ 16 := by
    have := hm.six
    omega
  refine ⟨?_, ?_, ?_, ?_, ?_⟩
  · rw [hlength]
    exact paddedLength_even _
  · rw [hlength]
    exact Nat.le_max_left _ _
  · rw [hlength]
    exact hwhole
  all_goals
    unfold Bytes.padTo
    generalize paddedLength (m.body chaddr).length - (m.body chaddr).length = zeros
    unfold Message.body
    simp only [List.append_assoc, List.singleton_append]
  · exact (m.startsWithHeader hsix hm.sname hm.fname _).shows hm
  · have hheader : (m.header chaddr (utf8 m.sname) (utf8 m.fname)).length = 240 :=
      m.length_header hsix hm.sname hm.fname
    rw [← hheader, List.drop_left]
    exact Options.areaCarries hm.options zeros

/-- A message whose packet is longer than the smallest one and has to be made even. Its magic
number is not the cookie. -/
def wideMessage : Message where
  op := some .reply
  hlen := 6
  xid := 0xdeadbeef
  chaddr := .ofBytes (some .ethernet) [0x08, 0x00, 0x27, 0x9b, 0xd9, 0xbe]
  sname := "é"
  fname := "pxe"
  options :=
    ((Options.empty.set .bootFileName (String.ofList (List.replicate 61 'h'))).set .messageType
      .ack).set .hostName ""

def widePacket : Bytes := (wideMessage.encode.toOption).getD []

theorem encode_wide_message :
    wideMessage.encode = .ok widePacket ∧ widePacket.length % 2 = 0 ∧ 300 ≤ widePacket.length ∧
      widePacket.length ≤ 1500 ∧ HeaderShows widePacket wideMessage ∧
      AreaCarries (widePacket.drop 240) wideMessage.options := by
  have hencode : wideMessage.encode = .ok widePacket := by decide +kernel
  exact ⟨hencode, encode_is_well_formed hencode⟩

end NetBoot
