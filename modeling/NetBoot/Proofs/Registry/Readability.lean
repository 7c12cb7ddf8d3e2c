-- Whether the table of machines can still be read after an address was recorded. Recording writes
-- every row again, in UTC, and a year that does not have four digits there is not read back.
import NetBoot.Proofs.Registry.Recording

namespace NetBoot.Registry

open NodeRow

variable {r : Registry} {rows : List NodeRow} {mac : String} {now : Instant}

/-- What is read from the table after an address was recorded for a hardware address that is
written in digits and colons. -/
theorem Reads.nodes_recordAddress_iff (h : r.Reads rows) (hnow : now.IsWritable) (ip : Ipv4)
    (hmac : IsMacText mac) {table : List NodeRow} :
    (r.recordAddress now ip mac).1.nodes = .ok table ↔
      table = announce mac ip now rows ∧
        ∀ row ∈ rows.eraseP (·.mac = mac), row.lastSeen.InFourDigitYear := by
  obtain ⟨_, _, hnodes⟩ := h.nodes_recordAddress now ip mac
  have htabular : ∀ row ∈ announce mac ip now rows, row.IsTabular :=
    isTabular_announce hmac hnow.onClock h.isTabular
  rw [hnodes, registryMac_of_isMacText hmac, readNodeTable_writeNodeTable_iff htabular,
    forall_lastSeen_announce hnow.year]

/-- Recording an address succeeds where the table can be read. The table can be read afterwards
exactly if all rows but the first one with the hardware address have years of four digits, and then
it has as many rows as before, or one more. -/
theorem table_reads_back_after_recording (htree : r.volume.IsTree) (hnodes : r.nodes = .ok rows)
    (hmac : ∃ bs, mac = String.ofList (Text.colonHex bs)) (hnow : now.IsWritable) (ip : Ipv4) :
    (r.recordAddress now ip mac).2 = .ok () ∧
      ((∃ table, (r.recordAddress now ip mac).1.nodes = .ok table) ↔
        ∀ row ∈ rows.eraseP (·.mac = mac), row.lastSeen.InFourDigitYear) ∧
      ∀ table, (r.recordAddress now ip mac).1.nodes = .ok table →
        table.length = rows.length ∨ table.length = rows.length + 1 := by
  obtain ⟨bs, hbs⟩ := hmac
  have hreads : r.Reads rows := ⟨htree, hnodes⟩
  have htext : IsMacText mac := hbs ▸ isMacText_colonHex bs
  refine ⟨(hreads.nodes_recordAddress now ip mac).1, ?_, ?_⟩
  · simp only [hreads.nodes_recordAddress_iff hnow ip htext, exists_eq_left]
  · intro table htable
    obtain ⟨rfl, _⟩ := (hreads.nodes_recordAddress_iff hnow ip htext).mp htable
    exact length_announce mac ip now rows

/-- A machine whose year is 0 where its line was written, and the year before it in UTC. -/
def ancientRow : NodeRow :=
  ⟨"n1", "aa:bb:cc:dd:ee:01", true, "", none, ⟨-62167222800, 0⟩⟩

def ancientRegistry : Registry where
  home := ["data"]
  volume :=
    ⟨[(["data"], .folder),
      (["data", "nodes.txt"],
        .file (utf8 "n1,aa:bb:cc:dd:ee:01,true,,,0000-01-01T00:00:00+01:00\n"))]⟩

/-- The machine itself gets a year of four digits when its address is recorded. -/
theorem ancient_row_is_renewed :
    ancientRegistry.volume.IsTree ∧ ancientRegistry.nodes = .ok [ancientRow] ∧
      (∃ bs, "aa:bb:cc:dd:ee:01" = String.ofList (Text.colonHex bs)) ∧
      Instant.IsWritable ⟨1500000000, 0⟩ ∧
      ∃ table, (ancientRegistry.recordAddress ⟨1500000000, 0⟩ ⟨10, 1, 1, 50⟩
        "aa:bb:cc:dd:ee:01").1.nodes = .ok table := by
  have htree : ancientRegistry.volume.IsTree := by decide
  have hnodes : ancientRegistry.nodes = .ok [ancientRow] := by decide +kernel
  have hmac : ∃ bs, "aa:bb:cc:dd:ee:01" = String.ofList (Text.colonHex bs) :=
    ⟨[0xaa, 0xbb, 0xcc, 0xdd, 0xee, 0x01], by decide +kernel⟩
  have hnow : Instant.IsWritable ⟨1500000000, 0⟩ := by decide +kernel
  obtain ⟨_, hreads, _⟩ := table_reads_back_after_recording htree hnodes hmac hnow ⟨10, 1, 1, 50⟩
  exact ⟨htree, hnodes, hmac, hnow, hreads.mpr (by simp [ancientRow])⟩

/-- After the address of another machine was recorded, the table cannot be read. -/
theorem ancient_row_spoils_the_table :
    ancientRegistry.volume.IsTree ∧ ancientRegistry.nodes = .ok [ancientRow] ∧
      "aa:bb:cc:dd:ee:02" = String.ofList (Text.colonHex [0xaa, 0xbb, 0xcc, 0xdd, 0xee, 0x02]) ∧
      Instant.IsWritable ⟨1500000000, 0⟩ ∧
      (ancientRegistry.recordAddress ⟨1500000000, 0⟩ ⟨10, 1, 1, 50⟩ "aa:bb:cc:dd:ee:02").2 =
        .ok () ∧
      (ancientRegistry.recordAddress ⟨1500000000, 0⟩ ⟨10, 1, 1, 50⟩ "aa:bb:cc:dd:ee:02").1.nodes =
        .error (.corrupt "invalid timestamp: -0001-12-31T23:00:00+00:00") := by
  refine ⟨by decide, by decide +kernel, by decide +kernel, by decide +kernel, ?_, ?_⟩
  · decide +kernel
  · decide +kernel

end NetBoot.Registry
