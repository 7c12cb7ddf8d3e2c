-- What is read from the packet of a message, and for which messages that is the message itself.
import NetBoot.Proofs.Packet.Encoding
import NetBoot.Proofs.Packet.Grammar
import NetBoot.Proofs.Net.AddressText
import NetBoot.Proofs.Text.Utf8RoundTrip

namespace NetBoot

open OptionValue

/-! ## Values -/

/-- The address as it is read back: its bytes as pairs of digits in lower case. -/
def HardwareAddress.asWritten (a : HardwareAddress) : HardwareAddress :=
  .ofBytes a.kind (a.bytes?.getD [])

/-- The value as it is read back. Only an address in an unusual spelling comes back changed. -/
def OptionValue.asWritten : (k : OptionKind) → k.Value → k.Value
  | .clientId, id => HardwareAddress.asWritten id
  | .address, ip => ip
  | .addresses, ips => ips
  | .word32, n => n
  | .word16, n => n
  | .word8, n => n
  | .text, s => s
  | .bytes, bs => bs
  | .messageType, t => t
  | .clientName, n => n
  | .vendorTable, t => t

theorem HardwareType.code_ne_zero (t : HardwareType) : t.code ≠ 0 := by cases t <;> decide

theorem HardwareAddress.kind_eq_some {a : HardwareAddress} {t : HardwareType} :
    a.kind = some t ↔ a.typeCode = t.code := by
  unfold typeCode
  cases a.kind with
  | none => simpa using (HardwareType.code_ne_zero t).symm
  | some u =>
    simp only [Option.some.injEq, Option.map_some, Option.getD_some]
    refine ⟨?_, ?_⟩
    · rintro rfl
      rfl
    · intro h
      have hu := HardwareType.ofCode?_code u
      rw [h, HardwareType.ofCode?_code] at hu
      exact (Option.some.inj hu).symm

theorem Bytes.toNat_ofNat_word32 (n : UInt32) : (Bytes.ofNat 4 n.toNat).toNat = n.toNat := by
  rw [Bytes.toNat_ofNat]
  exact Nat.mod_eq_of_lt n.toNat_lt

theorem Bytes.toNat_ofNat_word16 (n : UInt16) : (Bytes.ofNat 2 n.toNat).toNat = n.toNat := by
  rw [Bytes.toNat_ofNat]
  exact Nat.mod_eq_of_lt n.toNat_lt

theorem VendorTable.lastValue_entries (t : VendorTable) (code : UInt8) :
    lastValue code t.entries = t.get code := by
  have h := lastValue_filterMap (fun c : UInt8 => c) (fun _ _ => id) t.get VendorTable.codes code
  rwa [if_pos (VendorTable.mem_codes code)] at h

/-- The bytes that are written for a value mean the value. -/
theorem denotes_write {owner : UInt8} {k : OptionKind} {v : k.Value} {bs : Bytes}
    (h : OptionValue.write owner k v = .ok bs) : Denotes k bs (asWritten k v) := by
  cases k with
  | address =>
    cases h
    rfl
  | addresses =>
    simp only [OptionValue.write, writeAddresses] at h
    split at h
    · cases h
    · next hne =>
      cases h
      exact ⟨hne, rfl⟩
  | word32 =>
    cases h
    refine ⟨Bytes.length_ofNat 4 _, ?_⟩
    exact (Bytes.toNat_ofNat_word32 v).symm
  | word16 =>
    cases h
    refine ⟨Bytes.length_ofNat 2 _, ?_⟩
    exact (Bytes.toNat_ofNat_word16 v).symm
  | word8 =>
    cases h
    rfl
  | text =>
    cases h
    exact (lossy_utf8 v).symm
  | bytes =>
    cases h
    rfl
  | messageType =>
    cases h
    rfl
  | clientId =>
    simp only [OptionValue.write, writeClientId] at h
    cases hb : HardwareAddress.bytes? v with
    | none =>
      rw [hb] at h
      cases h
    | some address =>
      rw [hb] at h
      cases h
      refine ⟨_, address, rfl, fun t => HardwareAddress.kind_eq_some, ?_⟩
      show (String.ofList (Text.colonHex ((HardwareAddress.bytes? v).getD []))).toList = _
      rw [hb, String.toList_ofList]
      rfl
  | clientName =>
    cases h
    exact ⟨0, 0, _, rfl, (lossy_utf8 _).symm⟩
  | vendorTable =>
    obtain ⟨htriples, rfl⟩ := writeVendorEntries_eq_ok.mp h
    exact ⟨_, layout_layOut htriples, fun code => (VendorTable.lastValue_entries v code).symm⟩

/-! ## Options -/

/-- The options as they are read back. -/
def Options.asWritten (t : Options) : Options :=
  ⟨fun o => (t.get o).map (OptionValue.asWritten o.kind)⟩

namespace Options

variable {t : Options} (h : ∀ o, t.Fits o)

include h

theorem readable_triples : Readable t.triples := by
  intro e he o ho
  obtain ⟨p, _, hp⟩ := List.mem_filterMap.mp he
  obtain ⟨value, hvalue, rfl⟩ := Option.map_eq_some_iff.mp hp
  obtain rfl := OptionName.code_injective ho
  obtain ⟨v, hget, hw⟩ := Option.bind_eq_some_iff.mp hvalue
  obtain ⟨value', hvalue', _⟩ := h o v hget
  rw [hvalue'] at hw
  cases hw
  exact (wellFormed_iff _ _).mpr ⟨_, denotes_write hvalue'⟩

/-- The triples of options are read back as the options. -/
theorem ofTriples_triples : Options.ofTriples t.triples = t.asWritten := by
  apply Options.ext
  intro o
  show ((lastValue o.code t.triples).bind fun bs => (OptionValue.read o.kind bs).toOption) =
    (t.get o).map (OptionValue.asWritten o.kind)
  rw [lastValue_triples]
  cases hv : t.get o with
  | none =>
    unfold valueBytes
    rw [hv]
    rfl
  | some v =>
    obtain ⟨value, hvalue, _, hbytes⟩ := (h o).valueBytes_eq hv
    rw [hbytes, Option.bind_some, (read_eq_ok_iff _ _ _).mpr (denotes_write hvalue)]
    rfl

omit h in
theorem skippedOf_triples : skippedOf t.triples = [] := by
  unfold skippedOf
  rw [List.map_eq_nil_iff, List.filter_eq_nil_iff]
  intro e he
  obtain ⟨o, _, ho⟩ := List.mem_filterMap.mp he
  obtain ⟨value, _, rfl⟩ := Option.map_eq_some_iff.mp ho
  have : OptionName.IsCode o.code := ⟨o, rfl⟩
  simpa using this

end Options

/-! ## Header fields -/

/-- The hardware address that a header with `hlen` shows, where the field holds these bytes. -/
def HardwareAddress.shown (kind : Option HardwareType) (bs : Bytes) (hlen : UInt8) :
    HardwareAddress :=
  .ofBytes kind ((Bytes.padTo hardwareFieldLength bs).take hlen.toNat)

/-- The message as it is read back from its packet. -/
def Message.asWritten (m : Message) : Message :=
  { m with
    ciaddr := m.ciaddr.bind Ipv4.unlessUnspecified
    yiaddr := m.yiaddr.bind Ipv4.unlessUnspecified
    siaddr := m.siaddr.bind Ipv4.unlessUnspecified
    giaddr := m.giaddr.bind Ipv4.unlessUnspecified
    chaddr := .shown m.chaddr.kind (m.chaddr.bytes?.getD []) m.hlen
    sname := cutAtNul m.sname
    fname := cutAtNul m.fname
    magic := magicCookie
    options := m.options.asWritten
    skipped := [] }

theorem Bytes.byteAt_eq_of_slice {p front : Bytes} (h : p.slice 0 4 = front) {i : Nat}
    (hi : i < 4) : p.byteAt i = (front[i]?).getD 0 := by
  subst h
  unfold Bytes.byteAt Bytes.slice
  rw [List.drop_zero, List.getElem?_take, if_pos hi]

theorem addressAt_of_slice {p : Bytes} {start : Nat} {ip : Option Ipv4}
    (h : p.slice start 4 = addressOctets ip) :
    p.addressAt start = ip.bind Ipv4.unlessUnspecified := by
  unfold Bytes.addressAt
  rw [h]
  cases ip with
  | none => rfl
  | some a => rfl

/-- The header of a packet is read back as the message that it was written from. -/
theorem StartsWithHeader.ofHeader {p : Bytes} {m : Message} {chaddr : Bytes}
    (h : StartsWithHeader p m chaddr (utf8 m.sname) (utf8 m.fname))
    (hbytes : m.chaddr.bytes? = some chaddr) (hlen : m.hlen.toNat ≤ 16) :
    Message.ofHeader p = { m.asWritten with options := Options.empty, skipped := [] } := by
  have hop : p.byteAt 0 = (m.op.map BootpOp.code).getD 0 :=
    Bytes.byteAt_eq_of_slice h.front (by omega)
  have hkind : p.byteAt 1 = m.chaddr.typeCode := Bytes.byteAt_eq_of_slice h.front (by omega)
  have hhlen : p.byteAt 2 = m.hlen := Bytes.byteAt_eq_of_slice h.front (by omega)
  have hhops : p.byteAt 3 = m.hops := Bytes.byteAt_eq_of_slice h.front (by omega)
  have hchaddr : p.slice 28 m.hlen.toNat = (Bytes.padTo 16 chaddr).take m.hlen.toNat := by
    rw [← h.chaddr, Bytes.take_slice p 28 hlen]
  have hopOf : BootpOp.ofCode? ((m.op.map BootpOp.code).getD 0) = m.op := by
    cases m.op with
    | none => rfl
    | some op => exact BootpOp.ofCode?_code op
  have hkindOf : HardwareType.ofCode? m.chaddr.typeCode = m.chaddr.kind := by
    apply Option.ext
    intro t
    rw [HardwareType.ofCode?_eq_some, HardwareAddress.kind_eq_some]
  unfold Message.ofHeader Message.asWritten HardwareAddress.shown Bytes.textAt
  rw [hop, hkind, hhlen, hhops, hopOf, hkindOf, hchaddr, hbytes, h.xid, h.secs, h.flags, h.sname,
    h.fname, h.cookie, addressAt_of_slice h.ciaddr, addressAt_of_slice h.yiaddr,
    addressAt_of_slice h.siaddr, addressAt_of_slice h.giaddr, lossy_untilZero_padTo,
    lossy_untilZero_padTo, Bytes.toNat_ofNat_word32, Bytes.toNat_ofNat_word32,
    Bytes.toNat_ofNat_word16, Bytes.toNat_ofNat_word16, UInt32.ofNat_toNat, UInt16.ofNat_toNat,
    UInt16.ofNat_toNat]
  rfl

/-! ## Packets -/

/-- The packet of a message is a header, and after it an area of its triples. -/
theorem Message.Encodable.packet {m : Message} {chaddr : Bytes} (h : m.Encodable chaddr) :
    ∃ rest, Bytes.padTo (paddedLength (m.body chaddr).length) (m.body chaddr) =
        m.header chaddr (utf8 m.sname) (utf8 m.fname) ++ rest ∧
      Layout rest m.options.triples := by
  have hend := Layout.ended
    (List.replicate (paddedLength (m.body chaddr).length - (m.body chaddr).length) 0)
  have hlayout := layout_layOut_append (Options.isTriple_triples h.options) hend
  refine ⟨_, ?_, by rwa [List.append_nil] at hlayout⟩
  unfold Bytes.padTo Message.body
  simp only [List.append_assoc, List.singleton_append]

/-- The packet of a message is read as the message that it shows, or refused where the message
claims a longer hardware address than the header has room for. -/
theorem Message.decode_encode {m : Message} {b : Bytes} (h : m.encode = .ok b) :
    Message.decode b =
      if m.hlen.toNat ≤ hardwareFieldLength then .ok m.asWritten
      else .error (.hardwareLength m.hlen) := by
  obtain ⟨chaddr, hm, rfl⟩ := Message.encode_eq_ok.mp h
  obtain ⟨rest, hrest, hlayout⟩ := hm.packet
  rw [hrest]
  have hsix : chaddr.length ≤ 16 := by
    have := hm.six
    omega
  have hheader := m.startsWithHeader hsix hm.sname hm.fname rest
  have hlength := m.length_header hsix hm.sname hm.fname
  generalize m.header chaddr (utf8 m.sname) (utf8 m.fname) = header at hheader hlength
  have hwhole : headerLength ≤ (header ++ rest).length := by
    rw [List.length_append]
    omega
  have hhlen : (header ++ rest).byteAt 2 = m.hlen :=
    Bytes.byteAt_eq_of_slice hheader.front (by omega)
  split
  · next hle =>
    refine (Message.decode_eq_ok _ _).mpr ⟨m.options.triples, ⟨hwhole, ?_, ?_, ?_⟩, ?_⟩
    · intro hlen hh
      have : 240 ≤ (header ++ rest).length := hwhole
      rw [Bytes.getElem?_of_lt (by omega), hhlen] at hh
      cases hh
      exact hle
    · rwa [← hlength, List.drop_left]
    · exact Options.readable_triples hm.options
    · unfold Message.ofPacket
      rw [hheader.ofHeader hm.bytes hle, Options.ofTriples_triples hm.options,
        Options.skippedOf_triples]
      rfl
  · next hwide =>
    rw [Message.decode_eq, if_neg (by omega), hhlen, if_pos (by omega)]

/-! ## Canonical messages -/

/-- The text of the address is that of its own bytes. -/
def HardwareAddress.IsCanonical (a : HardwareAddress) : Prop :=
  ∃ bs, a.bytes? = some bs ∧ a.text = String.ofList (Text.colonHex bs)

/-- The messages that a packet can say: six bytes of hardware address, addresses spelled as they
are printed, no header address 0.0.0.0 beside an absent one, no zero character in a field that
ends at one, the cookie, and nothing skipped. -/
structure Message.IsCanonical (m : Message) : Prop where
  hlen : m.hlen = 6
  chaddr : m.chaddr.IsCanonical
  clientId : ∀ id, m.options.get .clientId = some id → HardwareAddress.IsCanonical id
  ciaddr : m.ciaddr ≠ some Ipv4.unspecified
  yiaddr : m.yiaddr ≠ some Ipv4.unspecified
  siaddr : m.siaddr ≠ some Ipv4.unspecified
  giaddr : m.giaddr ≠ some Ipv4.unspecified
  sname : '\x00' ∉ m.sname.toList
  fname : '\x00' ∉ m.fname.toList
  magic : m.magic = magicCookie
  skipped : m.skipped = []

theorem HardwareAddress.isCanonical_ofBytes (kind : Option HardwareType) (bs : Bytes) :
    (HardwareAddress.ofBytes kind bs).IsCanonical := ⟨bs, bytes?_ofBytes kind bs, rfl⟩

/-- An address whose bytes can be read comes back as itself exactly if it is canonical. -/
theorem HardwareAddress.asWritten_eq_self {a : HardwareAddress} {bs : Bytes}
    (h : a.bytes? = some bs) : a.asWritten = a ↔ a.IsCanonical := by
  unfold asWritten
  rw [h]
  refine ⟨?_, ?_⟩
  · intro heq
    rw [← heq]
    exact isCanonical_ofBytes a.kind bs
  · rintro ⟨cs, hcs, htext⟩
    rw [h] at hcs
    cases hcs
    obtain ⟨kind, text⟩ := a
    simp only at htext
    subst htext
    rfl

theorem bind_unlessUnspecified_eq_self {ip : Option Ipv4} :
    ip.bind Ipv4.unlessUnspecified = ip ↔ ip ≠ some Ipv4.unspecified := by
  unfold Ipv4.unlessUnspecified
  cases ip with
  | none => simp
  | some a =>
    rw [Option.bind_some, Ne, Option.some.injEq]
    split
    · next h => simp [h]
    · next h => simp [h]

/-- Options that fit come back as themselves exactly if the client identifier is canonical. -/
theorem Options.asWritten_eq_self {t : Options} (h : ∀ o, t.Fits o) :
    t.asWritten = t ↔ ∀ id, t.get .clientId = some id → HardwareAddress.IsCanonical id := by
  have hid : ∀ id, t.get .clientId = some id →
      (HardwareAddress.asWritten id = id ↔ HardwareAddress.IsCanonical id) := by
    intro id hget
    obtain ⟨value, hvalue, _⟩ := h .clientId id hget
    simp only [OptionValue.write, writeClientId] at hvalue
    cases hb : HardwareAddress.bytes? id with
    | none =>
      rw [hb] at hvalue
      cases hvalue
    | some bs => exact HardwareAddress.asWritten_eq_self hb
  refine ⟨?_, ?_⟩
  · intro heq id hget
    have hat : (t.get .clientId).map HardwareAddress.asWritten = t.get .clientId :=
      congrArg (fun u : Options => u.get .clientId) heq
    rw [hget, Option.map_some, Option.some.injEq] at hat
    exact (hid id hget).mp hat
  · intro hcanon
    apply Options.ext
    intro o
    show (t.get o).map (OptionValue.asWritten o.kind) = t.get o
    cases hv : t.get o with
    | none => rfl
    | some v =>
      rw [Option.map_some]
      congr 1
      cases o
      case clientId => exact (hid v hv).mpr (hcanon v hv)
      all_goals rfl

theorem take_padTo_of_length {bs : Bytes} {width : Nat} :
    (Bytes.padTo width bs).take bs.length = bs := by
  unfold Bytes.padTo
  exact List.take_left

/-- A message whose packet fits comes back as itself exactly if it is canonical. -/
theorem Message.asWritten_eq_self {m : Message} {chaddr : Bytes} (h : m.Encodable chaddr)
    (hhlen : m.hlen.toNat ≤ hardwareFieldLength) : m.asWritten = m ↔ m.IsCanonical := by
  refine ⟨?_, ?_⟩
  · intro heq
    have hchaddr : HardwareAddress.ofBytes m.chaddr.kind
        ((Bytes.padTo hardwareFieldLength chaddr).take m.hlen.toNat) = m.chaddr := by
      have := congrArg Message.chaddr heq
      unfold Message.asWritten HardwareAddress.shown at this
      rwa [h.bytes] at this
    have hshown : (Bytes.padTo hardwareFieldLength chaddr).take m.hlen.toNat = chaddr := by
      have := HardwareAddress.bytes?_ofBytes m.chaddr.kind
        ((Bytes.padTo hardwareFieldLength chaddr).take m.hlen.toNat)
      rw [hchaddr, h.bytes] at this
      exact (Option.some.inj this).symm
    constructor
    case hlen =>
      have hlen := congrArg List.length hshown
      have h6 := h.six
      have h16 : chaddr.length ≤ hardwareFieldLength := by
        rw [h6]
        decide
      rw [List.length_take, Bytes.length_padTo h16, Nat.min_eq_left hhlen, h6] at hlen
      exact UInt8.toNat_inj.mp hlen
    case chaddr =>
      rw [← hchaddr]
      exact HardwareAddress.isCanonical_ofBytes _ _
    case clientId =>
      exact (Options.asWritten_eq_self h.options).mp (congrArg Message.options heq)
    case ciaddr => exact bind_unlessUnspecified_eq_self.mp (congrArg Message.ciaddr heq)
    case yiaddr => exact bind_unlessUnspecified_eq_self.mp (congrArg Message.yiaddr heq)
    case siaddr => exact bind_unlessUnspecified_eq_self.mp (congrArg Message.siaddr heq)
    case giaddr => exact bind_unlessUnspecified_eq_self.mp (congrArg Message.giaddr heq)
    case sname => exact cutAtNul_eq_self.mp (congrArg Message.sname heq)
    case fname => exact cutAtNul_eq_self.mp (congrArg Message.fname heq)
    case magic => exact (congrArg Message.magic heq).symm
    case skipped => exact (congrArg Message.skipped heq).symm
  · intro hc
    have hchaddr : HardwareAddress.shown m.chaddr.kind (m.chaddr.bytes?.getD []) m.hlen =
        m.chaddr := by
      have hself := (HardwareAddress.asWritten_eq_self h.bytes).mpr hc.chaddr
      unfold HardwareAddress.asWritten at hself
      unfold HardwareAddress.shown
      rw [h.bytes, Option.getD_some] at hself ⊢
      rw [hc.hlen, show (6 : UInt8).toNat = chaddr.length from h.six.symm, take_padTo_of_length]
      exact hself
    unfold Message.asWritten
    rw [hchaddr, bind_unlessUnspecified_eq_self.mpr hc.ciaddr,
      bind_unlessUnspecified_eq_self.mpr hc.yiaddr, bind_unlessUnspecified_eq_self.mpr hc.siaddr,
      bind_unlessUnspecified_eq_self.mpr hc.giaddr, cutAtNul_eq_self.mpr hc.sname,
      cutAtNul_eq_self.mpr hc.fname, (Options.asWritten_eq_self h.options).mpr hc.clientId,
      ← hc.magic, ← hc.skipped]

/-- Reading undoes writing exactly for the canonical messages. -/
theorem decode_encode_iff_canonical {m : Message} {b : Bytes} (h : m.encode = .ok b) :
    Message.decode b = .ok m ↔ m.IsCanonical := by
  obtain ⟨chaddr, hm, _⟩ := Message.encode_eq_ok.mp h
  have h16 : hardwareFieldLength = 16 := rfl
  rw [Message.decode_encode h]
  split
  · next hle =>
    rw [Except.ok.injEq]
    exact Message.asWritten_eq_self hm hle
  · next hwide =>
    refine ⟨?_, ?_⟩
    · intro he
      cases he
    · intro hc
      rw [hc.hlen] at hwide
      exact absurd (by decide) hwide

/-- A canonical message with the values that look least like one: empty texts, tables and
addresses, the address 0.0.0.0 and a zero character inside options. -/
def sparseMessage : Message where
  op := some .request
  hlen := 6
  xid := 0xdeadbeef
  ciaddr := some ⟨10, 1, 1, 50⟩
  chaddr := .ofBytes (some .ethernet) [0x08, 0x00, 0x27, 0x9b, 0xd9, 0xbe]
  fname := "pxe"
  magic := magicCookie
  options :=
    ((((Options.empty.set .hostName "").set .vendorOptions VendorTable.empty).set .requestedAddress
      Ipv4.unspecified).set .clientId (.ofBytes none [])).set .bootFileName "a\x00é"

def sparsePacket : Bytes := (sparseMessage.encode.toOption).getD []

theorem decode_encode_sparse :
    sparseMessage.encode = .ok sparsePacket ∧ sparseMessage.IsCanonical ∧
      Message.decode sparsePacket = .ok sparseMessage := by
  have hencode : sparseMessage.encode = .ok sparsePacket := by decide +kernel
  have hcanonical : sparseMessage.IsCanonical := by
    constructor
    case chaddr => exact HardwareAddress.isCanonical_ofBytes _ _
    case clientId =>
      intro id h
      obtain rfl : HardwareAddress.ofBytes none [] = id := Option.some.inj h
      exact HardwareAddress.isCanonical_ofBytes _ _
    all_goals decide
  exact ⟨hencode, hcanonical, (decode_encode_iff_canonical hencode).mpr hcanonical⟩

/-! ## Messages from packets -/

/-- What a message has that was read from a packet: a hardware address of as many bytes as it
claims, which the header has room for, and no header address 0.0.0.0 beside an absent one. -/
structure Message.IsRead (m : Message) : Prop where
  hlen : m.hlen.toNat ≤ hardwareFieldLength
  chaddr : ∃ bs : Bytes, bs.length = m.hlen.toNat ∧ m.chaddr.text = String.ofList (Text.colonHex bs)
  ciaddr : m.ciaddr ≠ some Ipv4.unspecified
  yiaddr : m.yiaddr ≠ some Ipv4.unspecified
  siaddr : m.siaddr ≠ some Ipv4.unspecified
  giaddr : m.giaddr ≠ some Ipv4.unspecified

theorem Message.isRead_of_decode {p : Bytes} {m : Message} (h : Message.decode p = .ok m) :
    m.IsRead := by
  obtain ⟨ts, hp, rfl⟩ := (Message.decode_eq_ok p m).mp h
  have hsays := hp.says
  have hwhole : 240 ≤ p.length := hp.header
  have hlen := hp.hlen _ hsays.hlen
  have hset : ∀ {start : Nat} {ip : Option Ipv4},
      (∀ a, ip = some a ↔ p.slice start 4 = a.octets ∧ a ≠ Ipv4.unspecified) →
        ip ≠ some Ipv4.unspecified := fun h hu => ((h _).mp hu).2 rfl
  refine ⟨hlen, ⟨p.slice 28 (Message.ofPacket p ts).hlen.toNat, ?_, ?_⟩, hset hsays.ciaddr,
    hset hsays.yiaddr, hset hsays.siaddr, hset hsays.giaddr⟩
  · have h16 : hardwareFieldLength = 16 := rfl
    exact Bytes.length_slice (by omega)
  · rw [← hsays.chaddr, String.ofList_toList]

end NetBoot
