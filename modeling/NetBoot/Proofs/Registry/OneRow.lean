-- One machine, one row: however a lease file spells a hardware address, and whichever packet carries
-- it, the table of machines has one row for it.
import NetBoot.Proofs.Lease.BlockMeaning
import NetBoot.Proofs.Registry.History

namespace NetBoot

open LeaseLine Text

/-! ## The machine of an announcement -/

namespace LeaseLine

/-- A line has one hardware address at most. -/
theorem unique_of_isHardware (line text other : List Char) (h : IsHardware (trim line) text)
    (h' : IsHardware (trim line) other) : text = other :=
  Option.some.inj ((hardwareText?_eq_some.mpr h).symm.trans (hardwareText?_eq_some.mpr h'))

end LeaseLine

namespace Announcement

/-- The announcement comes from a lease file, by a block whose last hardware address spells these
bytes, or from a packet with these bytes in the field of the hardware address. -/
inductive IsOf (bs : Bytes) : Announcement → Prop
  | lease {now : Instant} {content header close text : List Char}
      {before body after : List (List Char)} {l : Lease}
      (hlines : lines content = before ++ header :: (body ++ close :: after))
      (hmakes : MakesLease now header body close l)
      (htext : LastSays (fun line => IsHardware (trim line)) body text)
      (hspells : SpellsMac text bs) : IsOf bs l.announcement
  | packet {responder : Responder} {services : Services} {packet : Bytes} {a : Announcement}
      (hlen : packet.byteAt 2 = 6) (hchaddr : packet.slice 28 6 = bs)
      (ha : a ∈ (responder.respond services packet).announcements) : IsOf bs a

/-- However a hardware address was spelled, its announcement has it as its bytes are printed. -/
theorem IsOf.mac_eq {bs : Bytes} {a : Announcement} (h : a.IsOf bs) :
    a.mac = String.ofList (colonHex bs) := by
  cases h with
  | lease _ hmakes htext hspells =>
    obtain ⟨other, cs, hother, hspells', hmac⟩ := hmakes.hardware
    obtain rfl := htext.unique unique_of_isHardware hother
    have hread := hspells.readColonHex?.symm.trans hspells'.readColonHex?
    rw [Option.some.inj hread]
    exact hmac
  | packet hlen hchaddr ha =>
    obtain ⟨m, hread, hmac⟩ := Registry.mac_of_announced ha
    obtain ⟨ts, _, rfl⟩ := (Message.decode_eq_ok _ m).mp hread
    rw [hmac, ← hchaddr]
    show String.ofList (colonHex (Bytes.slice _ 28 (Bytes.byteAt _ 2).toNat)) = _
    rw [hlen]
    rfl

/-- Each lease of a lease file is announced for the machine of its hardware address. -/
theorem isOf_of_mem_ofChars {now : Instant} {content : List Char} {l : Lease} {bs : Bytes}
    (hl : l ∈ Lease.ofChars content now) (hmac : l.mac = String.ofList (colonHex bs)) :
    l.announcement.IsOf bs := by
  obtain ⟨_, _, before, header, body, close, after, hlines, _, _, hmakes⟩ := mem_ofChars_iff.mp hl
  obtain ⟨text, cs, htext, hspells, hmac'⟩ := hmakes.hardware
  have hsame := String.ofList_injective (hmac.symm.trans hmac')
  rw [← colonHex_inj.mp hsame] at hspells
  exact .lease hlines hmakes htext hspells

end Announcement

/-! ## The row of an announcement -/

namespace NodeRow

variable {mac : String} {ip : Ipv4} {now : Instant}

/-- The row at this place is the one that the announcement renews, and still belongs to the machine
that it belonged to. Every other row is in its place, with no claim to the address for another
hardware address. -/
structure Renews (mac : String) (ip : Ipv4) (now : Instant) (i : Nat)
    (before after : List NodeRow) : Prop where
  row : ∃ row, after[i]? = some row ∧ row.mac = mac ∧ row.address = some ip ∧ row.lastSeen = now
  machine : ∀ row, before[i]? = some row → after[i]?.map identity = some row.identity
  others : ∀ j, j ≠ i → after[j]? = before[j]?.map (yieldAddress mac ip)

/-- The place of a hardware address depends on the identities of the rows only. -/
theorem findIdx_mac_eq (mac : String) (rows : List NodeRow) :
    rows.findIdx (·.mac = mac) = (rows.map identity).findIdx (·.mac = mac) := by
  rw [List.findIdx_map]
  rfl

theorem getElem?_takeAddress (rows : List NodeRow) (j : Nat) :
    (takeAddress mac ip now rows)[j]? =
      if j = rows.findIdx (·.mac = mac) then
        some { rows[j]?.getD (observed mac ip now) with address := some ip, lastSeen := now }
      else rows[j]? := by
  induction rows generalizing j with
  | nil => cases j <;> simp [takeAddress, observed]
  | cons r rest ih =>
    rw [takeAddress, List.findIdx_cons]
    by_cases hmac : r.mac = mac
    · cases j <;> simp [hmac]
    · cases j <;> simp [hmac, ih]

theorem mac_of_getElem?_findIdx {rows : List NodeRow} {row : NodeRow}
    (h : rows[rows.findIdx (·.mac = mac)]? = some row) : row.mac = mac := by
  obtain ⟨hlt, rfl⟩ := List.getElem?_eq_some_iff.mp h
  simpa using List.findIdx_getElem (w := hlt)

/-- An announcement renews the first row of the hardware address, or the one that comes in for it at
the end. -/
theorem renews_announce (hform : registryMac mac = mac) (rows : List NodeRow) :
    Renews mac ip now (rows.findIdx (·.mac = mac)) rows (announce mac ip now rows) := by
  -- the rows yield before one of them takes the address, which does not move them
  have hplace : (rows.map (yieldAddress mac ip)).findIdx (·.mac = mac) =
      rows.findIdx (·.mac = mac) := by
    rw [findIdx_mac_eq, map_identity_yieldAddress, ← findIdx_mac_eq]
  have hrow : ∀ j, (announce mac ip now rows)[j]? = _ := fun j =>
    getElem?_takeAddress (rows.map (yieldAddress mac ip)) j
  simp only [hplace, List.getElem?_map] at hrow
  constructor
  case row =>
    refine ⟨_, by rw [hrow, if_pos rfl], ?_, rfl, rfl⟩
    cases hold : rows[rows.findIdx (·.mac = mac)]? with
    | none => exact hform
    | some old =>
      have hsame := congrArg Identity.mac (identity_yieldAddress mac ip old)
      exact hsame.trans (mac_of_getElem?_findIdx hold)
  case machine =>
    intro row hold
    rw [hrow, if_pos rfl, hold]
    exact congrArg some (identity_yieldAddress mac ip row)
  case others =>
    intro j hj
    rw [hrow, if_neg hj]

/-- The place of a hardware address is the same after an announcement for it. -/
theorem findIdx_announce (hform : registryMac mac = mac) (rows : List NodeRow) :
    (announce mac ip now rows).findIdx (·.mac = mac) = rows.findIdx (·.mac = mac) := by
  rw [findIdx_mac_eq, map_identity_announce]
  split
  · rw [List.append_nil, ← findIdx_mac_eq]
  · next habsent =>
    have hnone : ∀ r ∈ rows, r.mac ≠ mac := fun r hr he =>
      habsent (List.mem_map.mpr ⟨r, hr, he⟩)
    have hend : rows.findIdx (·.mac = mac) = rows.length := by
      simpa using hnone
    rw [List.findIdx_append, ← findIdx_mac_eq, hend]
    simp [Identity.stranger, hform]

theorem Renews.mem {i : Nat} {before after : List NodeRow}
    (h : Renews mac ip now i before after) : mac ∈ after.map (·.mac) := by
  obtain ⟨row, hrow, hmac, _⟩ := h.row
  exact List.mem_map.mpr ⟨row, List.mem_of_getElem? hrow, hmac⟩

end NodeRow

/-! ## Two announcements of one machine -/

namespace Registry

open NodeRow

/-- Recording an announcement renews the row of its machine. -/
theorem Keeps.renews_recordAddress {r : Registry} {rows : List NodeRow} (h : r.Keeps rows)
    {now : Instant} (hnow : now.IsWritable) {bs : Bytes} {a : Announcement} (ha : a.IsOf bs) :
    let mac := String.ofList (colonHex bs)
    (r.recordAddress now a.address a.mac).2 = .ok () ∧ ∃ table,
      (r.recordAddress now a.address a.mac).1.Keeps table ∧
      Renews mac a.address now (rows.findIdx (·.mac = mac)) rows table ∧
      table.findIdx (·.mac = mac) = rows.findIdx (·.mac = mac) ∧
      table.length = rows.length + if mac ∈ rows.map (·.mac) then 0 else 1 := by
  intro mac
  have htext : IsMacText mac := isMacText_colonHex bs
  have hform := registryMac_of_isMacText htext
  rw [ha.mac_eq]
  obtain ⟨hdone, hkeeps⟩ := h.recordAddress_keeps hnow a.address htext
  exact ⟨hdone, announce mac a.address now rows, hkeeps, renews_announce hform rows,
    findIdx_announce hform rows, length_announce_eq mac a.address now rows⟩

end Registry

/-- Every hardware address has one text. What is understood of a lease line stands for six bytes, is
written as these bytes are printed, and the registry takes it as it is; and all spellings of six
bytes are understood so. Hence any two announcements of one machine, from a lease file or from a
packet, renew the same row, and at most one row comes in for them. -/
theorem one_text_and_row_for_each_machine :
    (∀ text mac : List Char, macText? text = some mac →
      ∃ bs : Bytes, bs.length = 6 ∧
        (∀ kind, HardwareAddress.bytes? ⟨kind, String.ofList text⟩ = some bs ∧
          (HardwareAddress.ofText kind (String.ofList text)).bytes? = some bs) ∧
        mac = colonHex bs ∧ registryMac (String.ofList mac) = String.ofList mac) ∧
    (∀ (text : List Char) (bs : Bytes), SpellsMac text bs → macText? text = some (colonHex bs)) ∧
    ∀ {r : Registry} {rows : List NodeRow}, r.volume.IsTree → r.nodes = .ok rows →
      (∀ row ∈ rows, row.lastSeen.InFourDigitYear) →
      ∀ {now now' : Instant}, now.IsWritable → now'.IsWritable →
      ∀ {bs : Bytes} {a b : Announcement}, a.IsOf bs → b.IsOf bs →
        let mac := String.ofList (colonHex bs)
        let first := r.recordAddress now a.address a.mac
        let second := first.1.recordAddress now' b.address b.mac
        first.2 = .ok () ∧ second.2 = .ok () ∧ ∃ i table table',
          first.1.nodes = .ok table ∧ second.1.nodes = .ok table' ∧
          NodeRow.Renews mac a.address now i rows table ∧
          NodeRow.Renews mac b.address now' i table table' ∧
          table.length ≤ rows.length + 1 ∧ table'.length = table.length := by
  refine ⟨?_, ?_, ?_⟩
  · intro text mac hmac
    obtain ⟨bs, hspells, rfl⟩ := macText?_eq_some.mp hmac
    exact ⟨bs, hspells.six, hspells.bytes?, rfl, registryMac_of_isMacText (isMacText_colonHex bs)⟩
  · intro text bs hspells
    exact macText?_eq_colonHex.mpr hspells
  · intro r rows htree hnodes hyears now now' hnow hnow' bs a b ha hb mac first second
    have hkeeps : r.Keeps rows := Registry.keeps_of_years htree hnodes hyears
    obtain ⟨hdone, table, hkept, hrenews, hplace, hlength⟩ := hkeeps.renews_recordAddress hnow ha
    obtain ⟨hdone', table', hkept', hrenews', _, hlength'⟩ := hkept.renews_recordAddress hnow' hb
    -- the first announcement has left a row, which the second one finds in its place
    rw [hplace] at hrenews'
    rw [if_pos hrenews.mem] at hlength'
    have hmost : table.length ≤ rows.length + 1 := by
      rw [hlength]
      split <;> omega
    exact ⟨hdone, hdone', _, table, table', hkept.nodes, hkept'.nodes, hrenews, hrenews', hmost,
      hlength'⟩

/-- A lease to the machine in the rack, with its hardware address in short groups. -/
def rackLeaseText : String :=
  "lease 10.1.1.60 \x7b\nends never;\nhardware ethernet 8:0:27:9B:d9:BE;\n\x7d\n"

theorem row_of_a_machine_that_is_leased_an_address_and_boots :
    let mac := "08:00:27:9b:d9:be"
    let leased : Announcement := ⟨⟨10, 1, 1, 60⟩, mac⟩
    let booting : Announcement := ⟨⟨10, 1, 1, 50⟩, mac⟩
    let first := rackRegistry.recordAddress ⟨1600000000, 0⟩ leased.address leased.mac
    let second := first.1.recordAddress ⟨1700000000, 0⟩ booting.address booting.mac
    rackRegistry.volume.IsTree ∧ rackRegistry.nodes = .ok [rackRow] ∧
      rackRow.lastSeen.InFourDigitYear ∧
      leased.IsOf [0x08, 0x00, 0x27, 0x9b, 0xd9, 0xbe] ∧
      booting.IsOf [0x08, 0x00, 0x27, 0x9b, 0xd9, 0xbe] ∧
      ∃ i table table', first.1.nodes = .ok table ∧ second.1.nodes = .ok table' ∧
        NodeRow.Renews mac leased.address ⟨1600000000, 0⟩ i [rackRow] table ∧
        NodeRow.Renews mac booting.address ⟨1700000000, 0⟩ i table table' ∧
        table'.length = table.length := by
  intro mac leased booting first second
  have htree : rackRegistry.volume.IsTree := by decide
  have hnodes : rackRegistry.nodes = .ok [rackRow] := by decide +kernel
  have hyear : rackRow.lastSeen.InFourDigitYear := by decide +kernel
  have hyears : ∀ row ∈ [rackRow], row.lastSeen.InFourDigitYear := by simpa using hyear
  have hlease : (⟨⟨10, 1, 1, 60⟩, mac⟩ : Lease) ∈
      Lease.ofChars rackLeaseText.toList ⟨1600000000, 0⟩ := by decide +kernel
  have hleased : leased.IsOf [0x08, 0x00, 0x27, 0x9b, 0xd9, 0xbe] :=
    Announcement.isOf_of_mem_ofChars hlease (by decide +kernel)
  have hheard : booting ∈ (labResponder.respond oneTask efiRequestPacket).announcements := by
    decide +kernel
  have hbooting : booting.IsOf [0x08, 0x00, 0x27, 0x9b, 0xd9, 0xbe] :=
    .packet (by decide +kernel) (by decide +kernel) hheard
  have hmac : String.ofList (colonHex [0x08, 0x00, 0x27, 0x9b, 0xd9, 0xbe]) = mac := by
    decide +kernel
  obtain ⟨_, _, hlaw⟩ := one_text_and_row_for_each_machine
  have hnow : Instant.IsWritable ⟨1600000000, 0⟩ := by decide +kernel
  have hnow' : Instant.IsWritable ⟨1700000000, 0⟩ := by decide +kernel
  obtain ⟨_, _, i, table, table', htable, htable', hrenews, hrenews', _, hsame⟩ :=
    hlaw htree hnodes hyears hnow hnow' hleased hbooting
  rw [hmac] at hrenews hrenews'
  exact ⟨htree, hnodes, hyear, hleased, hbooting, i, table, table', htable, htable', hrenews,
    hrenews', hsame⟩

end NetBoot
