-- The laws of the reply: what it says to the client, and that nobody answers it.
import NetBoot.Boot.Responder
import NetBoot.Proofs.Packet.RoundTrip

namespace NetBoot

/-! ## When there is an answer -/

theorem Message.ack_eq_ok {client : Message} {bootFile : String} {gateway : Ipv4} {ack : Ack} :
    client.ack bootFile gateway = .ok ack ↔
      client.ciaddr = some ack.destination ∧
      (client.reply bootFile gateway).encode = .ok ack.packet ∧
      ack.isEfi = client.isEfiClient := by
  obtain ⟨packet, destination, isEfi⟩ := ack
  unfold Message.ack
  cases client.ciaddr with
  | none => simp [bind_eq_ok]
  | some ip =>
    simp only [bind_eq_ok, Except.ok.injEq, exists_eq_left', Option.some.injEq]
    refine ⟨?_, ?_⟩
    · intro h
      obtain ⟨bs, hbs, h⟩ := h
      cases h
      exact ⟨rfl, hbs, rfl⟩
    · intro h
      obtain ⟨hip, hbs, hefi⟩ := h
      exact ⟨packet, hbs, by rw [hip, hefi]; rfl⟩

namespace Responder

/-- A client gets an answer exactly if it is told apart by an address of its own and its address
was recorded, a boot file was decided on, and the reply fits a packet. -/
theorem replyTo_eq_some {r : Responder} {client : Message}
    {registered : Except ServiceError Registration} {bootFile : Option String} {ack : Ack} :
    r.replyTo client registered bootFile = .ok (some ack) ↔
      registered = .ok .recorded ∧
      ∃ name, bootFile = some name ∧ client.ack name r.gateway = .ok ack := by
  unfold replyTo
  rcases registered with e | _ | _
  · simp
  · cases bootFile with
    | none => simp
    | some name =>
      simp only [Option.some.injEq, exists_eq_left', true_and]
      cases client.ack name r.gateway <;> simp
  · simp

theorem respond_of_not_request {r : Responder} {s : Services} {packet : Bytes} {m : Message}
    (hread : Message.decode packet = .ok m) (hop : m.op ≠ some .request) :
    r.respond s packet = { result := .ok none } := by
  have hno : m.isRequest = false := by simpa [Message.isRequest] using hop
  unfold respond
  rw [hread]
  simp only [hno, Bool.false_eq_true, ↓reduceIte]

/-- An answer was decided on, and is the acknowledgement of what was decided. -/
theorem respond_eq_some {r : Responder} {s : Services} {packet : Bytes} {m : Message} {ack : Ack}
    (hread : Message.decode packet = .ok m) :
    (r.respond s packet).result = .ok (some ack) ↔
      m.op = some .request ∧ m.chaddr.text ≠ "" ∧
      ∃ ip name, m.ciaddr = some ip ∧ s.register ip m.chaddr.text = .ok .recorded ∧
        (r.decide s m).value = some name ∧ m.ack name r.gateway = .ok ack := by
  by_cases hop : m.op = some .request
  · have hyes : m.isRequest = true := by simpa [Message.isRequest] using hop
    unfold respond
    rw [hread]
    simp only [hyes, ↓reduceIte, respondToRequest]
    by_cases htext : m.chaddr.text = ""
    · simp [htext]
    · cases m.ciaddr with
      | none => simp [htext]
      | some ip => simp [htext, hop, replyTo_eq_some]
  · rw [respond_of_not_request hread hop]
    simp [hop]

end Responder

/-! ## What the reply says -/

/-- The client is x86 EFI firmware that no boot loader has replaced. -/
theorem Message.isEfiClient_iff {m : Message} :
    m.isEfiClient = true ↔
      m.options.get .userClass = none ∧
      ∃ n : UInt16, m.options.get .clientArch = some n ∧ (n = 6 ∨ n = 7 ∨ n = 9) := by
  have harch : (m.arch.map ClientArch.isX86Efi).getD false = true ↔
      ∃ n : UInt16, m.options.get .clientArch = some n ∧ (n = 6 ∨ n = 7 ∨ n = 9) := by
    unfold Message.arch
    cases hn : (show Option UInt16 from m.options.get .clientArch) with
    | none => simp [show m.options.get .clientArch = none from hn]
    | some n =>
      rw [show m.options.get .clientArch = some n from hn]
      simp only [Option.map_some, Option.getD_some, Option.some.injEq, exists_eq_left']
      exact ClientArch.isX86Efi_ofCode n
  unfold Message.isEfiClient Message.userClass
  rw [Bool.and_eq_true, harch, Option.isNone_iff_eq_none]

theorem Ipv4.cutAtNul_text (ip : Ipv4) : cutAtNul ip.text = ip.text := by
  rw [cutAtNul_eq_self]
  unfold text
  rw [String.toList_ofList]
  intro h
  rcases mem_chars h with hdigit | hdot
  · exact absurd hdigit (by decide)
  · exact absurd hdot (by decide)

/-- The reply that a client is owed: its own header with the gateway and the boot file put in, and
of the options only the type of the message and the boot file. -/
structure Message.Answers (reply client : Message) (gateway : Ipv4) (bootFile : String)
    (isEfi : Bool) : Prop where
  op : reply.op = some .reply
  kind : reply.chaddr.kind = some .ethernet
  chaddr : reply.chaddr.text = client.chaddr.text
  hlen : reply.hlen = 6
  hops : reply.hops = client.hops
  xid : reply.xid = client.xid
  secs : reply.secs = client.secs
  flags : reply.flags = client.flags
  ciaddr : reply.ciaddr = client.ciaddr
  yiaddr : reply.yiaddr = client.yiaddr
  giaddr : reply.giaddr = client.giaddr
  siaddr : reply.siaddr = if gateway = Ipv4.unspecified then none else some gateway
  sname : reply.sname = gateway.text
  fname : reply.fname = cutAtNul bootFile
  magic : reply.magic = magicCookie
  messageType : reply.options.get .messageType = some .ack
  bootFileName : reply.options.get .bootFileName =
    some (if isEfi then bootFile ++ "\x00" else bootFile)
  others : ∀ o, o ≠ .messageType → o ≠ .bootFileName → reply.options.get o = none
  skipped : reply.skipped = []

/-- A client whose reply fits a packet has a hardware address of six bytes, and the reply shows
that address. -/
theorem Message.IsRead.chaddr_of_encodable {client : Message} (h : client.IsRead)
    {bootFile : String} {gateway : Ipv4} {chaddr : Bytes}
    (henc : (client.reply bootFile gateway).Encodable chaddr) :
    client.hlen = 6 ∧
      (client.reply bootFile gateway).asWritten.chaddr = ⟨some .ethernet, client.chaddr.text⟩ := by
  obtain ⟨bs, hlen, htext⟩ := h.chaddr
  have hbytes : client.chaddr.bytes? = some bs := by
    unfold HardwareAddress.bytes?
    rw [htext, String.toList_ofList, Text.readColonHex?_colonHex]
  have hsame : bs = chaddr := Option.some.inj (hbytes.symm.trans henc.bytes)
  subst hsame
  have hsix := henc.six
  refine ⟨UInt8.toNat_inj.mp (hlen.symm.trans hsix), ?_⟩
  show HardwareAddress.shown (some .ethernet) (client.chaddr.bytes?.getD []) client.hlen = _
  unfold HardwareAddress.shown HardwareAddress.ofBytes
  rw [hbytes, Option.getD_some, ← hlen, take_padTo_of_length, ← htext]

theorem Message.reply_options_others {client : Message} {bootFile : String} {gateway : Ipv4}
    {o : OptionName} (htype : o ≠ .messageType) (hname : o ≠ .bootFileName) :
    (client.reply bootFile gateway).options.get o = none := by
  show (Options.set _ _ _).get o = none
  rw [Options.get_set_ne _ _ hname, Options.get_set_ne _ _ htype, Options.get_empty]

/-- The packet of an acknowledgement is read as the reply that the client is owed. -/
theorem Message.decode_ack {client : Message} (h : client.IsRead) {bootFile : String}
    {gateway : Ipv4} {ack : Ack} (hack : client.ack bootFile gateway = .ok ack) :
    ∃ reply, Message.decode ack.packet = .ok reply ∧
      reply.Answers client gateway bootFile ack.isEfi := by
  obtain ⟨_, hencode, hefi⟩ := Message.ack_eq_ok.mp hack
  obtain ⟨chaddr, henc, _⟩ := Message.encode_eq_ok.mp hencode
  obtain ⟨hsix, hchaddr⟩ := h.chaddr_of_encodable henc
  have hoptions : (client.reply bootFile gateway).asWritten.options =
      (client.reply bootFile gateway).options :=
    (Options.asWritten_eq_self henc.options).mpr fun id hid =>
      absurd (hid.symm.trans (reply_options_others (by decide) (by decide))) (by simp)
  refine ⟨(client.reply bootFile gateway).asWritten, ?_, ?_⟩
  · rw [Message.decode_encode hencode]
    exact if_pos h.hlen
  · constructor
    case op => rfl
    case kind => rw [hchaddr]
    case chaddr => rw [hchaddr]
    case hlen => exact hsix
    case hops => rfl
    case xid => rfl
    case secs => rfl
    case flags => rfl
    case ciaddr => exact bind_unlessUnspecified_eq_self.mpr h.ciaddr
    case yiaddr => exact bind_unlessUnspecified_eq_self.mpr h.yiaddr
    case giaddr => exact bind_unlessUnspecified_eq_self.mpr h.giaddr
    case siaddr => rfl
    case sname => exact gateway.cutAtNul_text
    case fname => rfl
    case magic => rfl
    case messageType =>
      rw [hoptions]
      rfl
    case bootFileName =>
      rw [hoptions, hefi]
      rfl
    case others =>
      intro o htype hname
      rw [hoptions]
      exact reply_options_others htype hname
    case skipped => rfl

/-- An answer says to the client what was decided, goes to the client's own address, and gets no
answer from anyone. -/
theorem answers_are_sound_and_final {r : Responder} {s : Services} {packet : Bytes}
    {client : Message} {ack : Ack} (hread : Message.decode packet = .ok client)
    (hanswer : (r.respond s packet).result = .ok (some ack)) :
    (∃ bootFile reply, (r.decide s client).value = some bootFile ∧
      Message.decode ack.packet = .ok reply ∧
      reply.Answers client r.gateway bootFile ack.isEfi) ∧
    client.ciaddr = some ack.destination ∧
    (ack.isEfi = true ↔ client.options.get .userClass = none ∧
      ∃ n : UInt16, client.options.get .clientArch = some n ∧ (n = 6 ∨ n = 7 ∨ n = 9)) ∧
    ∀ (r' : Responder) (s' : Services), r'.respond s' ack.packet = { result := .ok none } := by
  obtain ⟨_, _, _, bootFile, _, _, hdecide, hack⟩ := (Responder.respond_eq_some hread).mp hanswer
  obtain ⟨hdestination, _, hefi⟩ := Message.ack_eq_ok.mp hack
  obtain ⟨reply, hreply, hanswers⟩ := Message.decode_ack (Message.isRead_of_decode hread) hack
  refine ⟨⟨bootFile, reply, hdecide, hreply, hanswers⟩, hdestination, ?_, ?_⟩
  · rw [hefi]
    exact Message.isEfiClient_iff
  · intro r' s'
    apply Responder.respond_of_not_request hreply
    rw [hanswers.op]
    decide

/-- A request of x86-64 EFI firmware. -/
def efiRequest : Message :=
  { Message.request 0x12345678 [0x08, 0x00, 0x27, 0x9b, 0xd9, 0xbe] with
    ciaddr := some ⟨10, 1, 1, 50⟩
    options := (Options.empty.set .vendorClass "PXEClient").set .clientArch 9 }

def efiRequestPacket : Bytes := (efiRequest.encode.toOption).getD []

/-- Services that know one catalogued machine, which has a task. -/
def oneTask : Services where
  nodeByMac _ := .ok ⟨"n1", true, none⟩
  activeTask _ := .ok ()
  bootProfile _ := .ok "rocky.ipxe"
  nodeById _ := .ok ⟨"n1", true, none⟩
  register _ _ := .ok .recorded

def labResponder : Responder := ⟨⟨"MonoRail", "10.1.1.1", 80⟩, ⟨10, 1, 1, 1⟩, false⟩

/-- The answer to the firmware. -/
def efiAck : Ack where
  packet := ((efiRequest.reply "rocky.ipxe" ⟨10, 1, 1, 1⟩).encode.toOption).getD []
  destination := ⟨10, 1, 1, 50⟩
  isEfi := true

theorem answer_to_efi_firmware :
    Message.decode efiRequestPacket = .ok efiRequest ∧
    (labResponder.respond oneTask efiRequestPacket).result = .ok (some efiAck) ∧
    (∃ bootFile reply, (labResponder.decide oneTask efiRequest).value = some bootFile ∧
      Message.decode efiAck.packet = .ok reply ∧
      reply.Answers efiRequest ⟨10, 1, 1, 1⟩ bootFile true) ∧
    labResponder.respond oneTask efiAck.packet = { result := .ok none } := by
  have hread : Message.decode efiRequestPacket = .ok efiRequest := by decide +kernel
  have hanswer : (labResponder.respond oneTask efiRequestPacket).result = .ok (some efiAck) := by
    decide +kernel
  obtain ⟨hreply, _, _, hsilent⟩ := answers_are_sound_and_final hread hanswer
  exact ⟨hread, hanswer, hreply, hsilent labResponder oneTask⟩

end NetBoot
