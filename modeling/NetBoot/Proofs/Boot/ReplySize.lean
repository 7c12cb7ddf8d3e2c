-- When a client can be sent a boot file, and how long the reply is. Nothing that a client writes
-- into its request makes the reply too long, and neither do the boot files of the rules.
import NetBoot.Proofs.Boot.Outcome
import NetBoot.Proofs.Boot.RuleTable
import NetBoot.Proofs.Net.AddressText
import NetBoot.Proofs.Packet.Complaints

namespace NetBoot

/-! ## The parts of a reply -/

theorem toNat_lt_of_isDigit {c : Char} (h : c.isDigit = true) : c.toNat < 0x80 := by
  have hle : c.toNat ≤ '9'.toNat := ((Text.isDigit_iff c).mp h).2
  have hnine : '9'.toNat = 57 := rfl
  omega

namespace Ipv4

/-- The dotted text of an address has at most four times three digits and three dots. -/
theorem length_chars_le (ip : Ipv4) : ip.chars.length ≤ 15 := by
  have hpiece : ∀ b : UInt8, (Text.showNat b.toNat).length ≤ 3 := by
    intro b
    have hb := b.toNat_lt
    exact (Nat.length_toDigits_le_iff (by decide) (by decide)).mpr (by omega)
  have ha := hpiece ip.a
  have hb := hpiece ip.b
  have hc := hpiece ip.c
  have hd := hpiece ip.d
  simp only [chars, octets, List.map_cons, List.map_nil, List.intercalate_cons_cons,
    List.intercalate_singleton, List.length_append, List.length_singleton]
  omega

theorem length_text_le (ip : Ipv4) : (utf8 ip.text).length ≤ 15 := by
  have hascii : ∀ c ∈ ip.chars, c.toNat < 0x80 := by
    intro c hc
    rcases mem_chars hc with hdigit | rfl
    · exact toNat_lt_of_isDigit hdigit
    · decide
  rw [text, length_utf8_of_ascii hascii]
  exact ip.length_chars_le

end Ipv4

namespace Message

variable {client : Message} {bootFile : String} {gateway : Ipv4}

theorem get_messageType_reply :
    (client.reply bootFile gateway).options.get .messageType = some .ack := rfl

theorem get_bootFileName_reply :
    (client.reply bootFile gateway).options.get .bootFileName =
      some (bootFileOption client.isEfiClient bootFile) :=
  Options.get_set_self _ _ _

/-- The two options of a reply take five bytes and those of the name of the boot file. -/
theorem size_options_reply :
    (client.reply bootFile gateway).options.size =
      5 + (utf8 (bootFileOption client.isEfiClient bootFile)).length := by
  have htype : (client.reply bootFile gateway).options.sizeOf .messageType = 3 := by
    rw [Options.sizeOf, get_messageType_reply]
    rfl
  have hname : (client.reply bootFile gateway).options.sizeOf .bootFileName =
      2 + (utf8 (bootFileOption client.isEfiClient bootFile)).length := by
    rw [Options.sizeOf, get_bootFileName_reply]
    rfl
  have hothers : ∀ o, o ≠ .messageType → o ≠ .bootFileName →
      (client.reply bootFile gateway).options.sizeOf o = 0 := by
    intro o ho ho'
    rw [Options.sizeOf, reply_options_others ho ho']
    rfl
  have hzero : ∀ os : List OptionName, .messageType ∉ os → .bootFileName ∉ os →
      (os.map (client.reply bootFile gateway).options.sizeOf).sum = 0 := by
    intro os ho ho'
    refine List.sum_eq_zero fun n hn => ?_
    obtain ⟨o, hmem, rfl⟩ := List.mem_map.mp hn
    exact hothers o (fun h => ho (h ▸ hmem)) (fun h => ho' (h ▸ hmem))
  have hall : OptionName.all = OptionName.all.take 12 ++ .messageType ::
      ((OptionName.all.drop 13).take 7 ++ .bootFileName :: OptionName.all.drop 21) := rfl
  rw [Options.size, hall, List.map_append, List.sum_append, List.map_cons, List.sum_cons,
    List.map_append, List.sum_append, List.map_cons, List.sum_cons, htype, hname,
    hzero _ (by decide) (by decide), hzero _ (by decide) (by decide),
    hzero _ (by decide) (by decide)]
  omega

theorem length_bootFileOption_le (isEfi : Bool) (bootFile : String) :
    (utf8 (bootFileOption isEfi bootFile)).length ≤ (utf8 bootFile).length + 1 := by
  cases isEfi with
  | false => exact Nat.le_succ _
  | true =>
    show (utf8 (bootFile ++ "\x00")).length ≤ _
    rw [utf8_append, List.length_append]
    exact Nat.le_refl _

/-- What is wrong with a reply to a client: the hardware address, or a boot file with a name that is
too long. -/
def replyComplaints (client : Message) (bootFile : String) : List EncodeError :=
  complaintIf (client.chaddr.bytes?.map List.length ≠ some 6)
      (.hardwareAddress client.chaddr.text) ++
    complaintIf (128 < (utf8 bootFile).length) (.tooLong .fname (utf8 bootFile).length)

/-- The options of a reply fit if the boot file does. -/
theorem complaints_options_reply (h : (utf8 bootFile).length ≤ 128) :
    (client.reply bootFile gateway).options.complaints = [] := by
  rw [Options.complaints_eq_nil]
  intro o v hv
  by_cases htype : o = .messageType
  · subst htype
    exact ⟨trivial, show 1 ≤ 255 by decide⟩
  by_cases hname : o = .bootFileName
  · subst hname
    obtain rfl := Option.some.inj (get_bootFileName_reply.symm.trans hv)
    have hle := length_bootFileOption_le client.isEfiClient bootFile
    exact ⟨trivial, show (utf8 _).length ≤ 255 by omega⟩
  · rw [reply_options_others htype hname] at hv
    cases hv

/-- Only the hardware address and the name of the boot file can keep a reply from being written. -/
theorem finds_encode_reply :
    Finds (client.reply bootFile gateway).encode (client.replyComplaints bootFile) := by
  have hsname : ¬ 64 < (utf8 (client.reply bootFile gateway).sname).length := by
    have hle : (utf8 (client.reply bootFile gateway).sname).length ≤ 15 := gateway.length_text_le
    omega
  have hfinds := (client.reply bootFile gateway).finds_encode
  rw [complaints, complaintIf_eq_nil.mpr hsname, List.nil_append, ← List.append_assoc] at hfinds
  refine hfinds.of_append fun hnone => ?_
  have hname : (utf8 bootFile).length ≤ 128 :=
    Nat.not_lt.mp (complaintIf_eq_nil.mp (List.append_eq_nil_iff.mp hnone).2)
  have hle := length_bootFileOption_le client.isEfiClient bootFile
  rw [complaints_options_reply hname, List.nil_append, complaintIf_eq_nil, size, size_options_reply]
  omega

/-- What is wrong with an acknowledgement. -/
def ackComplaints (client : Message) (bootFile : String) : List EncodeError :=
  complaintIf (client.ciaddr = none) .noClientAddress ++ client.replyComplaints bootFile

theorem finds_ack : Finds (client.ack bootFile gateway) (client.ackComplaints bootFile) := by
  unfold ack ackComplaints
  cases client.ciaddr with
  | none => rfl
  | some ip => exact finds_encode_reply.bind_ok fun packet _ => ⟨_, rfl⟩

/-- The length of an acknowledgement. -/
theorem length_ack {ack : Ack} (h : client.ack bootFile gateway = .ok ack) :
    ack.packet.length =
      paddedLength (246 + (utf8 (bootFileOption client.isEfiClient bootFile)).length) := by
  obtain ⟨_, hencode, _⟩ := ack_eq_ok.mp h
  rw [length_encode hencode, size, size_options_reply, ← Nat.add_assoc]

end Message

/-- A client is told to boot a file exactly if it has an address, its hardware address has six
bytes and the name of the file has at most 128. Where it is not, the first of these that fails is
the error, and nothing else in the request can be one. The reply has at least 300 bytes and at most
376. -/
theorem ack_fails_in_three_ways (client : Message) (bootFile : String) (gateway : Ipv4) :
    (∀ e, client.ack bootFile gateway = .error e ↔
      (client.ciaddr = none ∧ e = .noClientAddress) ∨
      (client.ciaddr ≠ none ∧ client.chaddr.bytes?.map List.length ≠ some 6 ∧
        e = .hardwareAddress client.chaddr.text) ∨
      (client.ciaddr ≠ none ∧ client.chaddr.bytes?.map List.length = some 6 ∧
        128 < (utf8 bootFile).length ∧ e = .tooLong .fname (utf8 bootFile).length)) ∧
    ((∃ ack, client.ack bootFile gateway = .ok ack) ↔
      client.ciaddr ≠ none ∧ client.chaddr.bytes?.map List.length = some 6 ∧
        (utf8 bootFile).length ≤ 128) ∧
    ∀ ack, client.ack bootFile gateway = .ok ack →
      300 ≤ ack.packet.length ∧ ack.packet.length ≤ 376 := by
  have hfinds : Finds (client.ack bootFile gateway) (client.ackComplaints bootFile) :=
    Message.finds_ack
  have hok : (∃ ack, client.ack bootFile gateway = .ok ack) ↔
      client.ciaddr ≠ none ∧ client.chaddr.bytes?.map List.length = some 6 ∧
        (utf8 bootFile).length ≤ 128 := by
    rw [hfinds.ok_iff, Message.ackComplaints, Message.replyComplaints]
    simp only [List.append_eq_nil_iff, complaintIf_eq_nil, not_not, not_lt]
  refine ⟨?_, hok, ?_⟩
  · intro e
    rw [hfinds.error_iff, Message.ackComplaints, Message.replyComplaints, head?_complaintIf_append,
      head?_complaintIf_append, head?_complaintIf]
    simp only [and_or_left, ne_eq, not_not]
  · intro ack hack
    have hname := (hok.mp ⟨ack, hack⟩).2.2
    have hle := Message.length_bootFileOption_le client.isEfiClient bootFile
    have h300 : shortestPacket = 300 := rfl
    rw [Message.length_ack hack, paddedLength, h300]
    omega

/-- A name of the greatest length, as a text of 128 letters. -/
def widestName : String := String.ofList (List.replicate 128 'a')

/-- Firmware that is told a name of 128 bytes gets the longest reply. -/
theorem widest_reply :
    ∃ ack, efiRequest.ack widestName ⟨10, 1, 1, 1⟩ = .ok ack ∧
      300 ≤ ack.packet.length ∧ ack.packet.length = 376 := by
  obtain ⟨_, hok, hsize⟩ := ack_fails_in_three_ways efiRequest widestName ⟨10, 1, 1, 1⟩
  obtain ⟨ack, hack⟩ := hok.mpr ⟨by decide, by decide +kernel, by decide +kernel⟩
  refine ⟨ack, hack, (hsize ack hack).1, ?_⟩
  rw [Message.length_ack hack]
  decide +kernel

/-! ## The boot files of the rules -/

theorem length_toString_port (n : UInt16) : (utf8 (toString n.toNat)).length ≤ 5 := by
  have hn := n.toNat_lt
  have hascii : ∀ c ∈ Text.showNat n.toNat, c.toNat < 0x80 :=
    fun c hc => toNat_lt_of_isDigit (Text.isDigit_of_mem_showNat hc)
  have htext : toString n.toNat = String.ofList (Text.showNat n.toNat) :=
    Nat.toString_eq_ofList_toDigits
  rw [htext, length_utf8_of_ascii hascii]
  exact (Nat.length_toDigits_le_iff (by decide) (by decide)).mpr (by omega)

namespace BootRow

variable {r : BootRules} {t : BootTraits}

theorem length_profiles_le (r : BootRules) :
    (utf8 (profiles r)).length ≤ (utf8 r.apiHost).length + 34 := by
  have hport := length_toString_port r.apiPort
  have hlead : (utf8 "http://").length = 7 := by decide +kernel
  have hcolon : (utf8 ":").length = 1 := by decide +kernel
  have hpath : (utf8 "/api/current/profiles").length = 21 := by decide +kernel
  simp only [profiles, utf8_append, List.length_append, hlead, hcolon, hpath]
  omega

/-- The longest file is that of the second row: the address of the profiles with a hardware address
after it. -/
theorem length_file_le {row : BootRow} {name : String} (h : row.file r t = some name)
    (hhost : (utf8 r.apiHost).length ≤ 71) (hmac : (utf8 (String.ofList t.mac)).length ≤ 17) :
    (utf8 name).length ≤ 128 := by
  have hprofiles := length_profiles_le r
  cases row with
  | ownLoader =>
    cases h
    omega
  | mellanox =>
    cases h
    omega
  | arista =>
    have hquery : (utf8 "?macs=").length = 6 := by decide +kernel
    cases h
    simp only [utf8_append, List.length_append, hquery]
    omega
  | noVendor => cases h
  | _ =>
    cases h
    decide +kernel

end BootRow

/-- A hardware address of six bytes that was read is seventeen characters long, and in lower case
already. -/
theorem Message.IsRead.length_mac {m : Message} (h : m.IsRead) (hsix : m.hlen = 6) :
    (utf8 (String.ofList m.traits.mac)).length = 17 := by
  obtain ⟨bs, hlen, htext⟩ := h.chaddr
  have hlower : Text.lower m.chaddr.text.toList = Text.colonHex bs := by
    rw [Text.lower_eq_self, htext, String.toList_ofList]
    exact fun c hc => (isMacText_of_colonHex ⟨bs, htext⟩ c hc).lowered
  show (utf8 (String.ofList (Text.lower m.chaddr.text.toList))).length = 17
  rw [hlower, length_utf8_of_ascii fun c => Text.ascii_of_mem_colonHex, Text.length_colonHex, hlen,
    hsix]
  rfl

theorem Message.IsRead.map_length_bytes? {m : Message} (h : m.IsRead) :
    m.chaddr.bytes?.map List.length = some 6 ↔ m.hlen = 6 := by
  obtain ⟨bs, hlen, htext⟩ := h.chaddr
  rw [HardwareAddress.bytes?, htext, String.toList_ofList, Text.readColonHex?_colonHex,
    Option.map_some, hlen, Option.some.injEq, ← UInt8.toNat_inj]
  rfl

/-! ## Requests that cannot be answered -/

/-- An acknowledgement with a name that fits fails only for want of six bytes of hardware
address. -/
theorem Message.IsRead.ack_eq_error {m : Message} (h : m.IsRead) (hip : m.ciaddr ≠ none)
    {name : String} (hname : m.hlen = 6 → (utf8 name).length ≤ 128) {gateway : Ipv4}
    {e : EncodeError} :
    m.ack name gateway = .error e ↔ m.hlen ≠ 6 ∧ e = .hardwareAddress m.chaddr.text := by
  have hshort : m.hlen = 6 → ¬ 128 < (utf8 name).length := fun hsix => Nat.not_lt.mpr (hname hsix)
  rw [Message.finds_ack.error_iff, Message.ackComplaints, Message.replyComplaints,
    head?_complaintIf_append, head?_complaintIf_append, head?_complaintIf, ne_eq,
    h.map_length_bytes?]
  by_cases hsix : m.hlen = 6
  · simp [hip, hsix, hshort hsix]
  · simp [hip, hsix]

namespace Responder

variable {r : Responder} {s : Services} {m : Message}

theorem replyTo_eq_unsendable {registered : Except ServiceError Registration}
    {bootFile : Option String} {e : EncodeError} :
    r.replyTo m registered bootFile = .error (.unsendable e) ↔
      registered = .ok .recorded ∧ ∃ name, bootFile = some name ∧ m.ack name r.gateway = .error e := by
  unfold replyTo
  rcases registered with e | _ | _
  · simp
  · cases bootFile with
    | none => simp
    | some name =>
      simp only [Option.some.injEq, exists_eq_left', true_and]
      cases m.ack name r.gateway <;> simp
  · simp

/-- No reply could be written: there is a request of a client with both its addresses, it was
registered and a boot file was decided on. -/
theorem respond_eq_unsendable {packet : Bytes} {e : EncodeError} :
    (r.respond s packet).result = .error (.unsendable e) ↔
      ∃ m ip name, Message.decode packet = .ok m ∧ m.op = some .request ∧ m.chaddr.text ≠ "" ∧
        m.ciaddr = some ip ∧ s.register ip m.chaddr.text = .ok .recorded ∧
        (r.decide s m).value = some name ∧ m.ack name r.gateway = .error e := by
  cases hread : Message.decode packet with
  | error d => simp [respond, hread]
  | ok m =>
    simp only [Except.ok.injEq, exists_and_left, exists_eq_left']
    by_cases hop : m.op = some .request
    · have hyes : m.isRequest = true := by simpa [Message.isRequest] using hop
      unfold respond
      rw [hread]
      simp only [hyes, ↓reduceIte, respondToRequest]
      by_cases htext : m.chaddr.text = ""
      · simp [htext]
      · cases m.ciaddr with
        | none => simp [htext]
        | some ip => simp [htext, hop, replyTo_eq_unsendable]
    · rw [respond_of_not_request hread hop]
      simp [hop]

/-- With the check in front, a client gets the boot file of the rules if one is warranted. -/
theorem decide_eq_some_of_checkFirst (hcheck : r.checkFirst = true) {name : String} :
    (r.decide s m).value = some name ↔
      (Decision.isWarranted s m.chaddr.text).value = true ∧ r.rules.bootFile? m = some name := by
  unfold decide
  rw [if_pos hcheck, Asked.value_bind, Asked.value_pure, Option.ite_none_right_eq_some]

end Responder

/-- The boot file of the rules always fits the reply, if the name of the server has at most 71
bytes. A client that should get it goes without only where its hardware address has not six bytes,
and this is what the error says. -/
theorem default_files_fit_the_reply {r : Responder} (hcheck : r.checkFirst = true)
    (hhost : (utf8 r.rules.apiHost).length ≤ 71) (s : Services) (packet : Bytes) :
    (∀ e, (r.respond s packet).result = .error (.unsendable e) ↔
      ∃ m ip, Message.decode packet = .ok m ∧ m.op = some .request ∧ m.hlen ≠ 0 ∧
        m.ciaddr = some ip ∧ s.register ip m.chaddr.text = .ok .recorded ∧
        (Decision.isWarranted s m.chaddr.text).value = true ∧ r.rules.bootFile? m ≠ none ∧
        m.hlen ≠ 6 ∧ e = .hardwareAddress m.chaddr.text) ∧
    ∀ m, Message.decode packet = .ok m → m.hlen = 6 →
      ∀ e, (r.respond s packet).result ≠ .error (.unsendable e) := by
  have herror : ∀ {m name e}, Message.decode packet = .ok m → m.ciaddr ≠ none →
      r.rules.bootFile? m = some name →
      (m.ack name r.gateway = .error e ↔ m.hlen ≠ 6 ∧ e = .hardwareAddress m.chaddr.text) := by
    intro m name e hread hip hfile
    have hm := Message.isRead_of_decode hread
    refine hm.ack_eq_error hip fun hsix => ?_
    rw [BootRow.bootFile?_eq_file_first] at hfile
    exact BootRow.length_file_le hfile hhost (hm.length_mac hsix).le
  have hempty : ∀ {m}, Message.decode packet = .ok m → (m.chaddr.text = "" ↔ m.hlen = 0) :=
    fun hread => (Message.isRead_of_decode hread).text_eq_empty
  have hiff : ∀ e, (r.respond s packet).result = .error (.unsendable e) ↔
      ∃ m ip, Message.decode packet = .ok m ∧ m.op = some .request ∧ m.hlen ≠ 0 ∧
        m.ciaddr = some ip ∧ s.register ip m.chaddr.text = .ok .recorded ∧
        (Decision.isWarranted s m.chaddr.text).value = true ∧ r.rules.bootFile? m ≠ none ∧
        m.hlen ≠ 6 ∧ e = .hardwareAddress m.chaddr.text := by
    intro e
    rw [Responder.respond_eq_unsendable]
    refine ⟨?_, ?_⟩
    · rintro ⟨m, ip, name, hread, hop, htext, hip, hregister, hdecide, hack⟩
      obtain ⟨hwarranted, hfile⟩ := (Responder.decide_eq_some_of_checkFirst hcheck).mp hdecide
      obtain ⟨hsix, he⟩ := (herror hread (by simp [hip]) hfile).mp hack
      exact ⟨m, ip, hread, hop, mt (hempty hread).mpr htext, hip, hregister, hwarranted,
        by simp [hfile], hsix, he⟩
    · rintro ⟨m, ip, hread, hop, hlen, hip, hregister, hwarranted, hfile, hsix, he⟩
      obtain ⟨name, hfile⟩ := Option.ne_none_iff_exists'.mp hfile
      have hdecide := (Responder.decide_eq_some_of_checkFirst hcheck).mpr ⟨hwarranted, hfile⟩
      have hack := (herror hread (by simp [hip]) hfile).mpr ⟨hsix, he⟩
      exact ⟨m, ip, name, hread, hop, mt (hempty hread).mp hlen, hip, hregister, hdecide, hack⟩
  refine ⟨hiff, ?_⟩
  intro m hread hsix e hresult
  obtain ⟨other, _, hother, _, _, _, _, _, _, hnot, _⟩ := (hiff e).mp hresult
  rw [hread, Except.ok.injEq] at hother
  exact hnot (hother ▸ hsix)

/-- A server with a name of the greatest length, that checks first. -/
def widestResponder : Responder where
  rules := ⟨"MonoRail", String.ofList (List.replicate 71 'h'), 65535⟩
  gateway := ⟨10, 1, 1, 1⟩
  checkFirst := true

/-- A request of a client with a hardware address of eight bytes. -/
def eightOctetRequest : Message :=
  { efiRequest with
    hlen := 8
    chaddr := .ofBytes (some .ethernet) [0x08, 0x00, 0x27, 0x9b, 0xd9, 0xbe, 0x00, 0x00] }

/-- It differs from a request with six bytes in the length of the hardware address. -/
def eightOctetPacket : Bytes := efiRequestPacket.set 2 8

theorem eight_octets_get_no_reply :
    widestResponder.checkFirst = true ∧ (utf8 widestResponder.rules.apiHost).length ≤ 71 ∧
    (widestResponder.respond oneTask eightOctetPacket).result =
      .error (.unsendable (.hardwareAddress "08:00:27:9b:d9:be:00:00")) := by
  have hcheck : widestResponder.checkFirst = true := rfl
  have hhost : (utf8 widestResponder.rules.apiHost).length ≤ 71 := by decide +kernel
  have hread : Message.decode eightOctetPacket = .ok eightOctetRequest := by decide +kernel
  obtain ⟨hiff, _⟩ := default_files_fit_the_reply hcheck hhost oneTask eightOctetPacket
  refine ⟨hcheck, hhost, (hiff _).mpr ⟨eightOctetRequest, ⟨10, 1, 1, 50⟩, hread, rfl, ?_⟩⟩
  decide +kernel

/-- A switch with six bytes of address is sent a name of the greatest length by this server. -/
example : (widestResponder.rules.bootFile?
      { efiRequest with options := efiRequest.options.set .vendorClass "Arista" }).map
        (fun name => (utf8 name).length) = some 128 := by
  decide +kernel

end NetBoot
