-- Who claims an address after it was recorded: rows of the hardware address and no others. It is
-- one row, and with it each later row of that hardware address that claimed the address before.
import NetBoot.Proofs.Registry.Effect
import NetBoot.Proofs.Registry.Readability

namespace NetBoot

namespace NodeRow

/-- How many rows of a hardware address claim an address, apart from the first of them. -/
def laterClaims (mac : String) (ip : Ipv4) (rows : List NodeRow) : Nat :=
  (rows.eraseP (·.mac = mac)).countP fun r => r.mac = mac ∧ r.address = some ip

variable {mac : String} {ip : Ipv4} {now : Instant} {rows table : List NodeRow}

/-- Of the rows that yield, those of the hardware address itself claim the address as before. -/
theorem Yields.claims_iff {r r' : NodeRow} (h : Yields mac ip r r') :
    r'.address = some ip ↔ r.mac = mac ∧ r.address = some ip := by
  cases h with
  | lost hmac hclaim => simp [hmac]
  | kept h =>
    rcases h with hmac | hfree
    · simp [hmac]
    · simp [hfree]

theorem Yields.mac_eq {r r' : NodeRow} (h : Yields mac ip r r') : r'.mac = r.mac := by
  cases h <;> rfl

theorem countP_of_yields (h : List.Forall₂ (Yields mac ip) rows table) :
    table.countP (·.address = some ip) =
      rows.countP fun r => r.mac = mac ∧ r.address = some ip := by
  induction h with
  | nil => rfl
  | cons hyield _ ih => simp only [List.countP_cons, ih, hyield.claims_iff]

theorem mac_of_yields (h : List.Forall₂ (Yields mac ip) rows table) {r : NodeRow}
    (hr : r ∈ table) (hclaim : r.address = some ip) : r.mac = mac := by
  induction h with
  | nil => cases hr
  | cons hyield _ ih =>
    rcases List.mem_cons.mp hr with rfl | hr
    · rw [hyield.mac_eq]
      exact (hyield.claims_iff.mp hclaim).1
    · exact ih hr

/-- After an announcement only rows of the hardware address claim the address. -/
theorem Announced.mac_of_claim (h : Announced mac ip now rows table) {r : NodeRow}
    (hr : r ∈ table) (hclaim : r.address = some ip) : r.mac = mac := by
  cases h with
  | renewed _ hmac hyield hyield' =>
    rcases List.mem_append.mp hr with hr | hr
    · exact mac_of_yields hyield hr hclaim
    · rcases List.mem_cons.mp hr with rfl | hr
      · exact hmac
      · exact mac_of_yields hyield' hr hclaim
  | appended _ hyield =>
    rcases List.mem_append.mp hr with hr | hr
    · exact mac_of_yields hyield hr hclaim
    · rw [List.mem_singleton.mp hr]

theorem countP_eq_zero_of_no_mac (h : ∀ r ∈ rows, r.mac ≠ mac) :
    rows.countP (fun r => r.mac = mac ∧ r.address = some ip) = 0 := by
  rw [List.countP_eq_zero]
  intro r hr
  simp [h r hr]

/-- After an announcement one row claims the address, and with it the later rows of the hardware
address that claimed it before. -/
theorem Announced.countP_claims (h : Announced mac ip now rows table) :
    table.countP (·.address = some ip) = laterClaims mac ip rows + 1 := by
  unfold laterClaims
  cases h with
  | @renewed front back front' back' r hfront hmac hyield hyield' =>
    have hlater : (front ++ r :: back).eraseP (·.mac = mac) = front ++ back := by
      rw [List.eraseP_append_right _ (by simpa using hfront), List.eraseP_cons_of_pos (by simpa)]
    rw [hlater, List.countP_append, List.countP_append, countP_of_yields hyield,
      List.countP_cons_of_pos (by simp), countP_of_yields hyield']
    omega
  | appended hrows hyield =>
    have hlater : rows.eraseP (·.mac = mac) = rows :=
      List.eraseP_of_forall_not (by simpa using hrows)
    rw [hlater, List.countP_append, countP_of_yields hyield, countP_eq_zero_of_no_mac hrows]
    simp

end NodeRow

namespace Registry

open NodeRow

variable {r : Registry} {rows : List NodeRow} {mac : String} {now : Instant}

/-- Recording an address succeeds where the table can be read. In the table that it writes, and that
alone is read back, only rows of the hardware address claim the address: one of them, and each
later one that claimed it before. -/
theorem owners_after_recording (htree : r.volume.IsTree) (hnodes : r.nodes = .ok rows)
    (hmac : ∃ bs, mac = String.ofList (Text.colonHex bs)) (hnow : now.IsWritable) (ip : Ipv4) :
    (r.recordAddress now ip mac).2 = .ok () ∧ ∃ table,
      (r.recordAddress now ip mac).1.volume.get r.nodesPath =
        some (.file (writeNodeTable table)) ∧
      (∀ other, (r.recordAddress now ip mac).1.nodes = .ok other → other = table) ∧
      (∀ row ∈ table, row.address = some ip → row.mac = mac) ∧
      table.countP (·.address = some ip) = laterClaims mac ip rows + 1 := by
  have htext := isMacText_of_colonHex hmac
  have hform := registryMac_of_isMacText htext
  have hreads : r.Reads rows := ⟨htree, hnodes⟩
  have hannounced : Announced mac ip now rows (announce mac ip now rows) :=
    announced_announce hform rows
  obtain ⟨u, hrecord, _, hget⟩ := hreads.recordAddress now ip mac
  rw [hform] at hget
  refine ⟨by rw [hrecord], announce mac ip now rows, ?_, ?_, ?_, ?_⟩
  · rw [hrecord]
    exact hget
  · intro other hother
    exact ((hreads.nodes_recordAddress_iff hnow ip htext).mp hother).1
  · intro row hrow hclaim
    exact hannounced.mac_of_claim hrow hclaim
  · exact hannounced.countP_claims

/-- A machine that was seen before it was entered, with another address. -/
def twiceListed : List NodeRow :=
  [⟨"", "aa:bb:cc:dd:ee:01", false, "", some ⟨10, 1, 1, 50⟩, ⟨1577836800, 0⟩⟩,
    ⟨"n1", "aa:bb:cc:dd:ee:01", true, "rescue", some ⟨10, 1, 1, 49⟩, ⟨1577836800, 0⟩⟩]

def twiceListedRegistry : Registry :=
  withTable (",aa:bb:cc:dd:ee:01,false,,10.1.1.50,2020-01-01T00:00:00+00:00\n" ++
    "n1,aa:bb:cc:dd:ee:01,true,rescue,10.1.1.49,2020-01-01T00:00:00+00:00\n")

theorem keeps_twiceListed : twiceListedRegistry.Keeps twiceListed :=
  keeps_of_years (by decide +kernel) (by decide +kernel) (by decide +kernel)

/-- An address that no later row of the machine claims gets one owner. -/
theorem fresh_address_has_one_owner :
    twiceListedRegistry.volume.IsTree ∧ twiceListedRegistry.nodes = .ok twiceListed ∧
      (∃ bs, "aa:bb:cc:dd:ee:01" = String.ofList (Text.colonHex bs)) ∧
      Instant.IsWritable ⟨1600000000, 0⟩ ∧
      ∃ table, (twiceListedRegistry.recordAddress ⟨1600000000, 0⟩ ⟨10, 1, 1, 51⟩
          "aa:bb:cc:dd:ee:01").1.volume.get twiceListedRegistry.nodesPath =
            some (.file (writeNodeTable table)) ∧
        table.countP (·.address = some ⟨10, 1, 1, 51⟩) = 1 := by
  have hkeeps := keeps_twiceListed
  have hmac : ∃ bs, "aa:bb:cc:dd:ee:01" = String.ofList (Text.colonHex bs) :=
    ⟨[0xaa, 0xbb, 0xcc, 0xdd, 0xee, 0x01], by decide +kernel⟩
  have hnow : Instant.IsWritable ⟨1600000000, 0⟩ := by decide +kernel
  have hlater : laterClaims "aa:bb:cc:dd:ee:01" ⟨10, 1, 1, 51⟩ twiceListed = 0 := by
    decide +kernel
  obtain ⟨_, table, hget, _, _, hcount⟩ :=
    owners_after_recording hkeeps.tree hkeeps.nodes hmac hnow ⟨10, 1, 1, 51⟩
  rw [hlater] at hcount
  exact ⟨hkeeps.tree, hkeeps.nodes, hmac, hnow, table, hget, hcount⟩

/-- An address that a later row of the machine claims gets two owners. -/
theorem later_row_keeps_its_claim :
    twiceListedRegistry.volume.IsTree ∧ twiceListedRegistry.nodes = .ok twiceListed ∧
      "aa:bb:cc:dd:ee:01" = String.ofList (Text.colonHex [0xaa, 0xbb, 0xcc, 0xdd, 0xee, 0x01]) ∧
      (twiceListedRegistry.recordAddress ⟨1600000000, 0⟩ ⟨10, 1, 1, 49⟩ "aa:bb:cc:dd:ee:01").2 =
        .ok () ∧
      ∃ table, (twiceListedRegistry.recordAddress ⟨1600000000, 0⟩ ⟨10, 1, 1, 49⟩
          "aa:bb:cc:dd:ee:01").1.nodes = .ok table ∧
        table.countP (·.address = some ⟨10, 1, 1, 49⟩) = 2 := by
  have hkeeps := keeps_twiceListed
  have hdigits : "aa:bb:cc:dd:ee:01" =
      String.ofList (Text.colonHex [0xaa, 0xbb, 0xcc, 0xdd, 0xee, 0x01]) := by decide +kernel
  have htext := isMacText_of_colonHex ⟨_, hdigits⟩
  have hnow : Instant.IsWritable ⟨1600000000, 0⟩ := by decide +kernel
  obtain ⟨hdone, hkept⟩ := hkeeps.recordAddress_keeps hnow ⟨10, 1, 1, 49⟩ htext
  exact ⟨hkeeps.tree, hkeeps.nodes, hdigits, hdone, _, hkept.nodes, by decide +kernel⟩

end Registry

end NetBoot
