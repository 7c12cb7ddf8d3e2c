-- Reading a packet and writing it again settles at once: the second packet is read as the message
-- of the first, but for the cookie and the skipped options, and is written again as it is.
import NetBoot.Proofs.Packet.RoundTrip

namespace NetBoot

/-! ## What was read is canonical -/

/-- The message as a packet that was written for it says it: with the cookie, and nothing
skipped. -/
def Message.normal (m : Message) : Message := { m with magic := magicCookie, skipped := [] }

/-- The cookie is written whatever the message holds, and skipped options are not written. -/
theorem Message.encode_normal (m : Message) : m.normal.encode = m.encode := rfl

theorem OptionValue.Denotes.isCanonical {bs : Bytes} {id : HardwareAddress}
    (h : Denotes .clientId bs id) : id.IsCanonical := by
  obtain ⟨_, address, _, _, htext⟩ := h
  refine ⟨address, ?_, ?_⟩
  · unfold HardwareAddress.bytes?
    rw [htext, Text.readColonHex?_colonHex]
  · rw [← htext, String.ofList_toList]

/-- The client identifier of a packet is spelled as its bytes are printed. -/
theorem IsPacket.clientId_isCanonical {p : Bytes} {ts : List (UInt8 × Bytes)} (h : IsPacket p ts) :
    ∀ id, (Message.ofPacket p ts).options.get .clientId = some id →
      HardwareAddress.IsCanonical id := by
  intro id hid
  have hmessage := h.says
  obtain ⟨_, _, hdenotes⟩ := (hmessage.options .clientId id).mp hid
  exact hdenotes.isCanonical

/-- A message that was read and can be written is canonical, apart from the cookie and the skipped
options. -/
theorem Message.isCanonical_normal {p : Bytes} {m : Message} (hread : Message.decode p = .ok m)
    {chaddr : Bytes} (hm : m.Encodable chaddr) : m.normal.IsCanonical := by
  have hfields := Message.isRead_of_decode hread
  obtain ⟨ts, hp, rfl⟩ := (Message.decode_eq_ok p m).mp hread
  obtain ⟨bs, hlen, htext⟩ := hfields.chaddr
  have hbytes : (Message.ofPacket p ts).chaddr.bytes? = some bs := by
    unfold HardwareAddress.bytes?
    rw [htext, String.toList_ofList, Text.readColonHex?_colonHex]
  have hsame : bs = chaddr := Option.some.inj (hbytes.symm.trans hm.bytes)
  constructor
  case hlen =>
    apply UInt8.toNat_inj.mp
    rw [hsame, hm.six] at hlen
    exact hlen.symm
  case chaddr => exact ⟨bs, hbytes, htext⟩
  case clientId => exact hp.clientId_isCanonical
  case ciaddr => exact hfields.ciaddr
  case yiaddr => exact hfields.yiaddr
  case siaddr => exact hfields.siaddr
  case giaddr => exact hfields.giaddr
  case sname => exact nul_not_mem_lossy_untilZero _
  case fname => exact nul_not_mem_lossy_untilZero _
  case magic => rfl
  case skipped => rfl

/-! ## The cookie and the skipped options of a packet -/

/-- Byte strings of one length that write the same number are the same. -/
theorem Bytes.eq_of_toNat_eq {bs cs : Bytes} (hlen : bs.length = cs.length)
    (h : bs.toNat = cs.toNat) : bs = cs := by
  induction bs generalizing cs with
  | nil => exact (List.length_eq_zero_iff.mp hlen.symm).symm
  | cons b bs ih =>
    cases cs with
    | nil => cases hlen
    | cons c cs =>
      have hrest : bs.length = cs.length := Nat.succ.inj hlen
      have hbs := Bytes.toNat_lt bs
      have hcs := Bytes.toNat_lt cs
      have hpos : 0 < capacity cs.length := Nat.pow_pos (by decide)
      rw [Bytes.toNat_cons, Bytes.toNat_cons, hrest, Nat.mul_comm, Nat.mul_comm c.toNat] at h
      rw [hrest] at hbs
      have hhead := congrArg (· / capacity cs.length) h
      have htail := congrArg (· % capacity cs.length) h
      simp only [Nat.mul_add_div hpos, Nat.div_eq_of_lt hbs, Nat.div_eq_of_lt hcs,
        Nat.add_zero] at hhead
      simp only [Nat.mul_add_mod, Nat.mod_eq_of_lt hbs, Nat.mod_eq_of_lt hcs] at htail
      rw [UInt8.toNat_inj.mp hhead, ih hrest htail]

/-- The cookie as a packet carries it. -/
def cookieBytes : Bytes := [0x63, 0x82, 0x53, 0x63]

theorem IsPacket.magic_eq_iff {p : Bytes} {ts : List (UInt8 × Bytes)} (h : IsPacket p ts) :
    (Message.ofPacket p ts).magic = magicCookie ↔ p.slice 236 4 = cookieBytes := by
  have hwhole : 240 ≤ p.length := h.header
  have hcookie : cookieBytes.toNat = magicCookie.toNat := by decide
  have hlen : (p.slice 236 4).length = cookieBytes.length := Bytes.length_slice (by omega)
  have hmessage := h.says
  rw [← UInt32.toNat_inj, hmessage.magic, ← hcookie]
  exact ⟨Bytes.eq_of_toNat_eq hlen, congrArg Bytes.toNat⟩

theorem skippedOf_eq_nil {ts : List (UInt8 × Bytes)} :
    skippedOf ts = [] ↔ ∀ t ∈ ts, OptionName.IsCode t.1 := by
  unfold skippedOf
  rw [List.map_eq_nil_iff, List.filter_eq_nil_iff]
  refine forall_congr' fun t => forall_congr' fun _ => ?_
  simp

/-- A message that was read is normal exactly if its packet carries the cookie and no option
without a meaning. -/
theorem IsPacket.normal_eq_self {p : Bytes} {ts : List (UInt8 × Bytes)} (h : IsPacket p ts) :
    (Message.ofPacket p ts).normal = Message.ofPacket p ts ↔
      p.slice 236 4 = cookieBytes ∧ ∀ t ∈ ts, OptionName.IsCode t.1 := by
  rw [← h.magic_eq_iff, ← skippedOf_eq_nil]
  refine ⟨?_, ?_⟩
  · intro heq
    exact ⟨(congrArg Message.magic heq).symm, (congrArg Message.skipped heq).symm⟩
  · rintro ⟨hmagic, hskipped⟩
    unfold Message.normal
    rw [← hmagic, ← hskipped]
    rfl

/-! ## One round -/

/-- The packet that is written for a message from a packet is read as the normal message, which is
written as the same packet again. It is read as the very message exactly if the first packet
carries the cookie and no option without a meaning. -/
theorem one_round_settles {p q : Bytes} {m : Message} (hread : Message.decode p = .ok m)
    (hwrite : m.encode = .ok q) :
    Message.decode q = .ok m.normal ∧ m.normal.encode = .ok q ∧
      ∃ ts, Layout (p.drop headerLength) ts ∧
        (Message.decode q = .ok m ↔
          p.slice 236 4 = cookieBytes ∧ ∀ t ∈ ts, OptionName.IsCode t.1) := by
  have hagain : m.normal.encode = .ok q := by rw [Message.encode_normal, hwrite]
  obtain ⟨chaddr, hm, _⟩ := Message.encode_eq_ok.mp hwrite
  obtain ⟨_, hnormal, _⟩ := Message.encode_eq_ok.mp hagain
  have hcanonical := Message.isCanonical_normal hread hm
  have hhlen : m.normal.hlen.toNat ≤ hardwareFieldLength := (Message.isRead_of_decode hread).hlen
  have hback : Message.decode q = .ok m.normal := by
    rw [Message.decode_encode hagain, if_pos hhlen,
      (Message.asWritten_eq_self hnormal hhlen).mpr hcanonical]
  obtain ⟨ts, hp, rfl⟩ := (Message.decode_eq_ok p m).mp hread
  refine ⟨hback, hagain, ts, hp.area, ?_⟩
  rw [hback, Except.ok.injEq]
  exact hp.normal_eq_self

/-- A packet with everything in it that is lost on the way: no cookie, bytes after the zero byte of
a name and after the hardware address, bytes that are no text, padding, options that come twice, a
vendor table with padding and an end of its own, an option without a meaning, and no end code. -/
def messyPacket : Bytes :=
  [1, 77, 6, 3, 0xde, 0xad, 0xbe, 0xef, 0, 7, 0x80, 0] ++ [10, 1, 1, 50] ++
    List.replicate 12 0 ++ [0x08, 0x00, 0x27, 0x9b, 0xd9, 0xbe] ++ List.replicate 10 0xEE ++
    [0x61, 0xFF, 0] ++ List.replicate 61 0x7A ++ List.replicate 128 0 ++ [1, 2, 3, 4] ++
    [0, 12, 2, 0x68, 0xFF, 200, 1, 7, 43, 2, 9, 0, 0, 12, 1, 0x78] ++
    [43, 9, 0, 1, 1, 5, 1, 1, 6, 255, 8, 61, 2, 99, 0xAB, 81, 4, 1, 2, 3, 0xC3, 0]

/-- Its message. The options are set in the order of the packet, so that later ones count. -/
def messyMessage : Message where
  op := some .request
  hlen := 6
  hops := 3
  xid := 0xdeadbeef
  secs := 7
  flags := 0x8000
  ciaddr := some ⟨10, 1, 1, 50⟩
  chaddr := .ofBytes none [0x08, 0x00, 0x27, 0x9b, 0xd9, 0xbe]
  sname := "a\uFFFD"
  magic := 0x01020304
  options :=
    (((((Options.empty.set .hostName "h\uFFFD").set .vendorOptions (.ofList [(9, [])])).set
      .hostName "x").set .vendorOptions (.ofList [(1, [5]), (1, [6])])).set
        .clientId (.ofBytes none [0xAB])).set .clientName ⟨1, "\uFFFD"⟩
  skipped := [⟨200, 1⟩]

def settledPacket : Bytes := (messyMessage.encode.toOption).getD []

theorem messy_packet_settles :
    Message.decode messyPacket = .ok messyMessage ∧ messyMessage.encode = .ok settledPacket ∧
      Message.decode settledPacket = .ok messyMessage.normal ∧
      messyMessage.normal.encode = .ok settledPacket ∧
      Message.decode settledPacket ≠ .ok messyMessage := by
  have hread : Message.decode messyPacket = .ok messyMessage := by decide +kernel
  have hwrite : messyMessage.encode = .ok settledPacket := by decide +kernel
  obtain ⟨hback, hagain, _⟩ := one_round_settles hread hwrite
  refine ⟨hread, hwrite, hback, hagain, ?_⟩
  rw [hback]
  decide

end NetBoot
