-- Where the options of a packet stand does not matter: what is read depends on the values of each
-- code, in their order, and neither on padding, on an end code and what follows it, nor on how the
-- triples of different codes are mixed.
import Mathlib.Data.List.Perm.Basic
import NetBoot.Proofs.Packet.Grammar

namespace NetBoot

/-! ## The values of each code -/

/-- The values of the triples with a code, in order. -/
def valuesOf (code : UInt8) (ts : List (UInt8 × Bytes)) : List Bytes :=
  (ts.filter fun t => t.1 = code).map (·.2)

/-- Each code has the same values in both lists, in the same order. -/
def SameValues (ts us : List (UInt8 × Bytes)) : Prop := ∀ code, valuesOf code ts = valuesOf code us

variable {ts us : List (UInt8 × Bytes)}

theorem valuesOf_cons (code : UInt8) (t : UInt8 × Bytes) (ts : List (UInt8 × Bytes)) :
    valuesOf code (t :: ts) = if t.1 = code then t.2 :: valuesOf code ts else valuesOf code ts := by
  unfold valuesOf
  by_cases h : t.1 = code <;> simp [h]

/-- The last value of a code is the last of its values. -/
theorem lastValue_eq_getLast? (code : UInt8) (ts : List (UInt8 × Bytes)) :
    lastValue code ts = (valuesOf code ts).getLast? := by
  induction ts with
  | nil => rfl
  | cons t ts ih =>
    rw [lastValue_cons, valuesOf_cons, ih]
    by_cases h : t.1 = code
    · simp [h, List.getLast?_cons]
    · simp [h]

theorem count_valuesOf (code : UInt8) (value : Bytes) (ts : List (UInt8 × Bytes)) :
    (valuesOf code ts).count value = ts.count (code, value) := by
  induction ts with
  | nil => rfl
  | cons t ts ih =>
    obtain ⟨c, v⟩ := t
    rw [valuesOf_cons, List.count_cons]
    by_cases h : c = code
    · subst h
      simp [List.count_cons, ih]
    · simp [h, ih]

namespace SameValues

theorem symm (h : SameValues ts us) : SameValues us ts := fun code => (h code).symm

/-- The triples are the same in another order. -/
theorem perm (h : SameValues ts us) : ts.Perm us := by
  rw [List.perm_iff_count]
  rintro ⟨code, value⟩
  rw [← count_valuesOf, ← count_valuesOf, h code]

theorem lastValue_eq (h : SameValues ts us) (code : UInt8) :
    lastValue code ts = lastValue code us := by
  rw [lastValue_eq_getLast?, lastValue_eq_getLast?, h code]

theorem ofTriples_eq (h : SameValues ts us) : Options.ofTriples ts = Options.ofTriples us := by
  apply Options.ext
  intro o
  simp only [Options.ofTriples, h.lastValue_eq]

/-- Whether every value can be read does not depend on the order either: it is asked of each triple
by itself. -/
theorem readable (h : SameValues ts us) (hread : Readable ts) : Readable us := by
  intro t ht
  apply hread
  exact h.perm.mem_iff.mpr ht

theorem skippedOf_perm (h : SameValues ts us) : (skippedOf ts).Perm (skippedOf us) :=
  (h.perm.filter _).map _

end SameValues

/-! ## Packets -/

theorem Layout.unique {bs : Bytes} (h : Layout bs ts) (h' : Layout bs us) : ts = us := by
  obtain ⟨_, hts⟩ := Area.read_of_layout h 0
  obtain ⟨_, hus⟩ := Area.read_of_layout h' 0
  rw [← hts, ← hus]

/-- The other packet says the same, but for the order of the options without a meaning. -/
theorem Message.decode_of_sameValues {p q : Bytes} {m : Message}
    (hheader : q.take headerLength = p.take headerLength)
    (hp : Layout (p.drop headerLength) ts) (hq : Layout (q.drop headerLength) us)
    (hvalues : SameValues ts us) (hread : Message.decode p = .ok m) :
    Message.decode q = .ok { m with skipped := skippedOf us } ∧ m.skipped = skippedOf ts := by
  obtain ⟨ts', hpacket, rfl⟩ := (Message.decode_eq_ok p m).mp hread
  obtain rfl := hpacket.area.unique hp
  obtain ⟨hpacketq, hfields⟩ :=
    hpacket.with_options hheader hq (hvalues.readable hpacket.values)
  refine ⟨(Message.decode_eq_ok q _).mpr ⟨us, hpacketq, ?_⟩, rfl⟩
  simp only [Message.ofPacket, hfields, hvalues.ofTriples_eq]

/-- Two packets with one header, whose areas give each code the same values in the same order, are
both read or both refused. Their messages are the same, but for the order in which options without
a meaning are listed. -/
theorem decoding_ignores_layout {p q : Bytes}
    (hheader : q.take headerLength = p.take headerLength)
    (hp : Layout (p.drop headerLength) ts) (hq : Layout (q.drop headerLength) us)
    (hvalues : ∀ code, valuesOf code ts = valuesOf code us) :
    ((∃ m, Message.decode p = .ok m) ↔ ∃ m, Message.decode q = .ok m) ∧
      ∀ m m', Message.decode p = .ok m → Message.decode q = .ok m' →
        m' = { m with skipped := m'.skipped } ∧ m.skipped.Perm m'.skipped := by
  have hsame : SameValues ts us := hvalues
  refine ⟨⟨?_, ?_⟩, ?_⟩
  · rintro ⟨m, hm⟩
    exact ⟨_, (Message.decode_of_sameValues hheader hp hq hsame hm).1⟩
  · rintro ⟨m, hm⟩
    exact ⟨_, (Message.decode_of_sameValues hheader.symm hq hp hsame.symm hm).1⟩
  · intro m m' hm hm'
    obtain ⟨hread, hskipped⟩ := Message.decode_of_sameValues hheader hp hq hsame hm
    rw [hread] at hm'
    cases hm'
    refine ⟨rfl, ?_⟩
    rw [hskipped]
    exact hsame.skippedOf_perm

/-- A header of zeros, but for a request from an Ethernet card and the cookie. -/
def blankHeader : Bytes :=
  [1, 1, 6] ++ List.replicate 233 0 ++ [0x63, 0x82, 0x53, 0x63]

/-- A host name that comes twice, two options without a meaning and a message type. -/
def orderedTriples : List (UInt8 × Bytes) :=
  [(12, [0x61]), (12, [0x62]), (200, [7]), (201, []), (53, [1])]

def orderedPacket : Bytes := blankHeader ++ layOut orderedTriples

/-- The same values in another order. -/
def scatteredTriples : List (UInt8 × Bytes) :=
  [(53, [1]), (201, []), (12, [0x61]), (200, [7]), (12, [0x62])]

/-- These triples with padding between them, and an end code after them. -/
def scatteredPacket : Bytes :=
  blankHeader ++ [0, 53, 1, 1, 201, 0, 0, 0, 12, 1, 0x61, 200, 1, 7, 12, 1, 0x62, 255, 12, 9]

/-- Its message. The options are set in the order of the packet. -/
def orderedMessage : Message :=
  { Message.request 0 (List.replicate 6 0) with
    options :=
      ((Options.empty.set .hostName "a").set .hostName "b").set .messageType .discover
    skipped := [⟨200, 1⟩, ⟨201, 0⟩] }

/-- The same is read from both packets, with the options without a meaning in the other order. -/
theorem scattered_packet_says_the_same :
    scatteredPacket.take headerLength = orderedPacket.take headerLength ∧
      Layout (orderedPacket.drop headerLength) orderedTriples ∧
      Layout (scatteredPacket.drop headerLength) scatteredTriples ∧
      (∀ code, valuesOf code orderedTriples = valuesOf code scatteredTriples) ∧
      Message.decode orderedPacket = .ok orderedMessage ∧
      ∃ m, Message.decode scatteredPacket = .ok m ∧
        m = { orderedMessage with skipped := m.skipped } ∧
        orderedMessage.skipped.Perm m.skipped ∧ m.skipped = [⟨201, 0⟩, ⟨200, 1⟩] := by
  have hheader : scatteredPacket.take headerLength = orderedPacket.take headerLength := by
    decide +kernel
  have hordered : Layout (orderedPacket.drop headerLength) orderedTriples :=
    (Area.layout_iff_read 0 _ _).mpr (by decide +kernel)
  have hscattered : Layout (scatteredPacket.drop headerLength) scatteredTriples :=
    (Area.layout_iff_read 0 _ _).mpr (by decide +kernel)
  have hvalues : ∀ code, valuesOf code orderedTriples = valuesOf code scatteredTriples := by
    have hall : ∀ code ∈ VendorTable.codes,
        valuesOf code orderedTriples = valuesOf code scatteredTriples := by decide +kernel
    exact fun code => hall code (VendorTable.mem_codes code)
  have hread : Message.decode orderedPacket = .ok orderedMessage := by decide +kernel
  obtain ⟨hboth, hsame⟩ := decoding_ignores_layout hheader hordered hscattered hvalues
  obtain ⟨m, hm⟩ := hboth.mp ⟨_, hread⟩
  obtain ⟨heq, hperm⟩ := hsame _ m hread hm
  refine ⟨hheader, hordered, hscattered, hvalues, hread, m, hm, heq, hperm, ?_⟩
  have hskipped : (Message.decode scatteredPacket).toOption.map (·.skipped) =
      some [⟨201, 0⟩, ⟨200, 1⟩] := by decide +kernel
  rw [hm] at hskipped
  exact Option.some.inj hskipped

end NetBoot
