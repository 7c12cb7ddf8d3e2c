-- The law of answers: a registry that has answered packets and followed a lease file gives every
-- packet the answer that it gave at the start.
import NetBoot.Proofs.Boot.Reply
import NetBoot.Proofs.Lease.HardwareText
import NetBoot.Proofs.Registry.Recording
import NetBoot.Registry.Session

namespace NetBoot

namespace Registry

/-! ## Looking machines up -/

/-- Which machine is looked up depends on the identities of the rows only. -/
theorem nodeByMac_eq {r : Registry} {rows : List NodeRow} (h : r.nodes = .ok rows) (mac : String) :
    r.nodeByMac mac =
      match NodeRow.firstNode? (fun row => row.identity.mac = registryMac mac) rows with
      | some node => .ok node
      | none => .error (.notFound (registryMac mac)) := by
  rw [nodeByMac, h]
  rfl

theorem nodeById_eq {r : Registry} {rows : List NodeRow} (h : r.nodes = .ok rows) (id : NodeId) :
    r.nodeById id =
      match NodeRow.firstNode? (fun row => row.identity.id = id) rows with
      | some node => .ok node
      | none => .error (.notFound id) := by
  rw [nodeById, h]
  rfl

/-! ## The same answers -/

/-- One registry answers every question of a boot decision like another. -/
structure SameAnswers (r s : Registry) : Prop where
  nodeByMac : ∀ mac, s.nodeByMac mac = r.nodeByMac mac
  nodeById : ∀ id, s.nodeById id = r.nodeById id
  activeProfile : ∀ id, s.activeProfile id = r.activeProfile id
  bootProfile : ∀ id, s.bootProfile id = r.bootProfile id

theorem SameAnswers.refl (r : Registry) : r.SameAnswers r :=
  ⟨fun _ => rfl, fun _ => rfl, fun _ => rfl, fun _ => rfl⟩

theorem SameAnswers.trans {r s t : Registry} (h : r.SameAnswers s) (h' : s.SameAnswers t) :
    r.SameAnswers t where
  nodeByMac mac := (h'.nodeByMac mac).trans (h.nodeByMac mac)
  nodeById id := (h'.nodeById id).trans (h.nodeById id)
  activeProfile id := (h'.activeProfile id).trans (h.activeProfile id)
  bootProfile id := (h'.bootProfile id).trans (h.bootProfile id)

/-- A registry that answers like the one at the start, and can go on recording. -/
structure Follows (r s : Registry) : Prop where
  keeps : ∃ rows, s.Keeps rows
  answers : r.SameAnswers s

theorem Keeps.follows {r : Registry} {rows : List NodeRow} (h : r.Keeps rows) : r.Follows r :=
  ⟨⟨rows, h⟩, .refl r⟩

variable {r s : Registry} {now : Instant}

/-- Recording an address changes no answer: the rows keep their identities, and a new row belongs
to nobody who has been entered. -/
theorem Keeps.sameAnswers_recordAddress {rows : List NodeRow} (h : s.Keeps rows)
    (hnow : now.IsWritable) (ip : Ipv4) {mac : String} (hmac : IsMacText mac) :
    s.SameAnswers (s.recordAddress now ip mac).1 := by
  obtain ⟨_, hafter⟩ := h.recordAddress_keeps hnow ip hmac
  obtain ⟨u, hrecord, htended, _⟩ := h.recordAddress now ip mac
  constructor
  case nodeByMac =>
    intro other
    rw [nodeByMac_eq hafter.nodes, nodeByMac_eq h.nodes,
      NodeRow.firstNode?_announce fun i => i.mac = registryMac other]
  case nodeById =>
    intro id
    rw [nodeById_eq hafter.nodes, nodeById_eq h.nodes,
      NodeRow.firstNode?_announce fun i => i.id = id]
  case activeProfile =>
    intro id
    rw [hrecord]
    exact h.activeProfile_eq htended id
  case bootProfile =>
    intro id
    rw [hrecord]
    exact h.bootProfile_eq htended id

theorem Follows.recordAddress (h : r.Follows s) (hnow : now.IsWritable) (ip : Ipv4) {mac : String}
    (hmac : IsMacText mac) : r.Follows (s.recordAddress now ip mac).1 := by
  obtain ⟨rows, hkeeps⟩ := h.keeps
  obtain ⟨_, hafter⟩ := hkeeps.recordAddress_keeps hnow ip hmac
  exact ⟨⟨_, hafter⟩, h.answers.trans (hkeeps.sameAnswers_recordAddress hnow ip hmac)⟩

/-! ## As services -/

/-- A registry that goes on recording registers everyone, and answers by its tables. -/
theorem Follows.services_eq (h : r.Follows s) (hr : r.Follows r) (now now' : Instant) :
    s.services now' = r.services now := by
  have hregister : ∀ {t : Registry}, r.Follows t → ∀ (moment : Instant) (ip : Ipv4) (mac : String),
      (t.recordAddress moment ip mac).2.map (fun _ => Registration.recorded) = .ok .recorded := by
    intro t ht moment ip mac
    obtain ⟨rows, hkeeps⟩ := ht.keeps
    obtain ⟨u, hrecord, _⟩ := hkeeps.recordAddress moment ip mac
    rw [hrecord]
    rfl
  unfold services
  simp only [hregister h, hregister hr, funext h.answers.nodeByMac, funext h.answers.nodeById,
    funext h.answers.bootProfile, h.answers.activeProfile]

/-! ## What a registry hears -/

theorem Follows.recordAll (h : r.Follows s) (hnow : now.IsWritable) {l : List Announcement}
    (hl : ∀ a ∈ l, IsMacText a.mac) : r.Follows (s.recordAll now l) := by
  induction l generalizing s with
  | nil => exact h
  | cons a rest ih =>
    obtain ⟨ha, hrest⟩ := List.forall_mem_cons.mp hl
    exact ih (h.recordAddress hnow a.address ha) hrest

/-- What a packet announces is the hardware address of its message. -/
theorem mac_of_announced {responder : Responder} {services : Services} {packet : Bytes}
    {a : Announcement} (ha : a ∈ (responder.respond services packet).announcements) :
    ∃ m, Message.decode packet = .ok m ∧ a.mac = m.chaddr.text := by
  unfold Responder.respond at ha
  split at ha
  · cases ha
  next m hread =>
  refine ⟨m, hread, ?_⟩
  split at ha
  · unfold Responder.respondToRequest at ha
    split at ha
    · cases ha
    split at ha
    · cases ha
    · rw [List.mem_singleton.mp ha]
  · cases ha

/-- The hardware addresses that packets announce are in lower case. -/
theorem isMacText_of_announced {responder : Responder} {services : Services} {packet : Bytes} :
    ∀ a ∈ (responder.respond services packet).announcements, IsMacText a.mac := by
  intro a ha
  obtain ⟨m, hread, hmac⟩ := mac_of_announced ha
  obtain ⟨bs, _, htext⟩ := (Message.isRead_of_decode hread).chaddr
  rw [hmac, htext]
  exact isMacText_colonHex bs

theorem Follows.respond (h : r.Follows s) (hnow : now.IsWritable) (responder : Responder)
    (packet : Bytes) : r.Follows (s.respond responder now packet).1 :=
  h.recordAll hnow isMacText_of_announced

theorem Follows.followLeases (h : r.Follows s) (hnow : now.IsWritable) (tail : LeaseTail)
    (source : LeaseSource) : r.Follows (s.followLeases tail source now).1 := by
  unfold Registry.followLeases Poller.look
  dsimp only
  split
  · exact h
  · next leases hpoll =>
    have hfound : (tail.poll source now).2 = .ok leases := by rw [hpoll]
    apply h.recordAll hnow
    intro a ha
    obtain ⟨lease, hlease, rfl⟩ := List.mem_map.mp ha
    exact LeaseTail.isMacText_of_poll hfound lease hlease

end Registry

/-! ## Runs -/

/-- What a registry at work goes through: a packet that is answered, or a look at the lease
file. -/
inductive Event where
  | packet (responder : Responder) (now : Instant) (packet : Bytes)
  | look (source : LeaseSource) (now : Instant)

def Event.now : Event → Instant
  | packet _ now _ => now
  | look _ now => now

/-- A registry at work, with its place in the lease file. -/
structure Session where
  registry : Registry
  tail : LeaseTail := {}

namespace Session

def step (s : Session) : Event → Session
  | .packet responder now packet =>
    { s with registry := (s.registry.respond responder now packet).1 }
  | .look source now =>
    let (registry, tail, _) := s.registry.followLeases s.tail source now
    ⟨registry, tail⟩

def run (s : Session) (events : List Event) : Session := events.foldl step s

theorem follows_step {r : Registry} {s : Session} (h : r.Follows s.registry) {e : Event}
    (hnow : e.now.IsWritable) : r.Follows (s.step e).registry := by
  cases e with
  | packet responder now packet => exact h.respond hnow responder packet
  | look source now => exact h.followLeases hnow s.tail source

theorem follows_run {r : Registry} {s : Session} (h : r.Follows s.registry) {events : List Event}
    (hevents : ∀ e ∈ events, e.now.IsWritable) : r.Follows (s.run events).registry := by
  induction events generalizing s with
  | nil => exact h
  | cons e rest ih =>
    obtain ⟨he, hrest⟩ := List.forall_mem_cons.mp hevents
    exact ih (follows_step h he) hrest

end Session

/-- The services of a registry that hears announcements before it is asked, with the answers that
the announcements got. -/
def Registry.servicesAfter (r : Registry) (now : Instant) (l : List Announcement) : Services :=
  { (r.recordAll now l).services now with register := (r.services now).register }

theorem Registry.Follows.servicesAfter_eq {r s : Registry} (h : r.Follows s) (hr : r.Follows r)
    {now now' : Instant} (hnow' : now'.IsWritable) {l : List Announcement}
    (hl : ∀ a ∈ l, IsMacText a.mac) : s.servicesAfter now' l = r.services now := by
  unfold Registry.servicesAfter
  rw [(h.recordAll hnow' hl).services_eq hr now, h.services_eq hr now]

/-- A registry answers every packet as it did at the start, whatever packets and leases it has
heard of since, and whether it hears of the client before or after it decides. At the start the
table of machines is absent or can be read, and all clocks show years of four digits. -/
theorem answers_do_not_depend_on_history {r : Registry} {rows : List NodeRow}
    (htree : r.volume.IsTree) (hnodes : r.nodes = .ok rows)
    (hyears : ∀ row ∈ rows, row.lastSeen.InFourDigitYear) (tail : LeaseTail) {events : List Event}
    (hevents : ∀ e ∈ events, e.now.IsWritable) {now now' : Instant} (hnow : now.IsWritable)
    (hnow' : now'.IsWritable) (responder : Responder) (packet : Bytes) :
    let later := (Session.run ⟨r, tail⟩ events).registry
    let answer := (r.respond responder now packet).2
    (later.respond responder now' packet).2 = answer ∧
      responder.respond (later.servicesAfter now' answer.announcements) packet = answer ∧
      responder.respond (r.servicesAfter now answer.announcements) packet = answer := by
  intro later answer
  have hr := (Registry.keeps_of_years htree hnodes hyears).follows
  have hlater : r.Follows later := Session.follows_run (s := ⟨r, tail⟩) hr hevents
  have hmacs : ∀ a ∈ answer.announcements, IsMacText a.mac := Registry.isMacText_of_announced
  refine ⟨?_, ?_, ?_⟩
  · show responder.respond (later.services now') packet = responder.respond (r.services now) packet
    rw [hlater.services_eq hr now]
  · rw [hlater.servicesAfter_eq hr hnow' hmacs]
    rfl
  · rw [hr.servicesAfter_eq hr hnow hmacs]
    rfl

/-- The row of a catalogued machine that was seen with another address before. -/
def rackRow : NodeRow :=
  ⟨"n1", "08:00:27:9b:d9:be", true, "", some ⟨10, 1, 1, 9⟩, ⟨1429565092, 500000000⟩⟩

/-- A registry with that machine, its task, and the boot profile that the task asks for. -/
def rackRegistry : Registry where
  home := ["data"]
  volume :=
    ⟨[(["data"], .folder), (["data", "profiles"], .folder),
      (["data", "profiles", "rocky.ipxe"], .file []),
      (["data", "tasks.txt"], .file (utf8 "n1,rocky\n")),
      (["data", "nodes.txt"],
        .file (utf8 "n1, 08:00:27:9B:D9:BE,true,,10.1.1.9,2015-04-20T23:24:52.5+02:00\n"))]⟩

/-- The machine boots, and its address is leased to another one later. -/
def rackEvents : List Event :=
  [.packet labResponder ⟨1500000000, 0⟩ efiRequestPacket,
    .look (.content (utf8
      "lease 10.1.1.50 \x7b\nends never;\nhardware ethernet 8:0:27:9b:d9:bf;\n\x7d\n"))
      ⟨1600000000, 1⟩]

theorem answer_after_a_lease :
    rackRegistry.volume.IsTree ∧ rackRegistry.nodes = .ok [rackRow] ∧
      rackRow.lastSeen.InFourDigitYear ∧ (∀ e ∈ rackEvents, e.now.IsWritable) ∧
      let later := (Session.run ⟨rackRegistry, {}⟩ rackEvents).registry
      (later.respond labResponder ⟨1700000000, 2⟩ efiRequestPacket).2 =
          (rackRegistry.respond labResponder ⟨1400000000, 0⟩ efiRequestPacket).2 ∧
        (rackRegistry.respond labResponder ⟨1400000000, 0⟩ efiRequestPacket).2.result =
          .ok (some efiAck) := by
  have htree : rackRegistry.volume.IsTree := by decide
  have hnodes : rackRegistry.nodes = .ok [rackRow] := by decide +kernel
  have hyear : rackRow.lastSeen.InFourDigitYear := by decide +kernel
  have hyears : ∀ row ∈ [rackRow], row.lastSeen.InFourDigitYear := by simpa using hyear
  have hevents : ∀ e ∈ rackEvents, e.now.IsWritable := by decide +kernel
  have hanswer : (rackRegistry.respond labResponder ⟨1400000000, 0⟩ efiRequestPacket).2.result =
      .ok (some efiAck) := by
    decide +kernel
  obtain ⟨hsame, _⟩ := answers_do_not_depend_on_history htree hnodes hyears {} hevents
    (show Instant.IsWritable ⟨1400000000, 0⟩ by decide +kernel)
    (show Instant.IsWritable ⟨1700000000, 2⟩ by decide +kernel) labResponder efiRequestPacket
  exact ⟨htree, hnodes, hyear, hevents, hsame, hanswer⟩

end NetBoot
