-- The law of holders: after any registrations, whoever was last told to have an address has it,
-- unless another one was told so later; nobody's row is lost or doubled.
import Mathlib.Data.List.Induction
import Mathlib.Data.List.Nodup
import NetBoot.Proofs.Registry.Recording

namespace NetBoot

namespace NodeRow

/-! ## Who holds what -/

/-- A row of the hardware address holds the address. -/
def Holds (rows : List NodeRow) (mac : String) (ip : Ipv4) : Prop :=
  ∃ r ∈ rows, r.mac = mac ∧ r.address = some ip

/-- No two rows have one hardware address, and no two hold one address. -/
structure Distinct (rows : List NodeRow) : Prop where
  macs : (rows.map (·.mac)).Nodup
  addresses : (rows.filterMap (·.address)).Nodup

variable {mac : String} {ip : Ipv4} {now : Instant} {rows : List NodeRow}

@[simp] theorem not_holds_nil (a : String) (x : Ipv4) : ¬ Holds [] a x := by
  simp [Holds]

@[simp] theorem holds_cons {r : NodeRow} {a : String} {x : Ipv4} :
    Holds (r :: rows) a x ↔ (r.mac = a ∧ r.address = some x) ∨ Holds rows a x := by
  simp [Holds]

theorem Holds.mem_macs {a : String} {x : Ipv4} (h : Holds rows a x) : a ∈ rows.map (·.mac) := by
  obtain ⟨r, hr, rfl, _⟩ := h
  exact List.mem_map_of_mem hr

theorem holds_yieldAddress {r : NodeRow} {a : String} {x : Ipv4} :
    (yieldAddress mac ip r).mac = a ∧ (yieldAddress mac ip r).address = some x ↔
      (r.mac = a ∧ r.address = some x) ∧ (a = mac ∨ x ≠ ip) := by
  unfold yieldAddress
  split
  · next h =>
    obtain ⟨hmac, hip⟩ := h
    constructor
    · rintro ⟨_, hnone⟩
      cases hnone
    · rintro ⟨⟨rfl, hx⟩, hother⟩
      rw [hip] at hx
      rcases hother with ha | hne
      · exact absurd ha hmac
      · cases hx
        exact absurd rfl hne
  · next h =>
    constructor
    · rintro ⟨rfl, hx⟩
      refine ⟨⟨rfl, hx⟩, ?_⟩
      by_cases hmac : r.mac = mac
      · exact Or.inl hmac
      · right
        rintro rfl
        exact h ⟨hmac, hx⟩
    · rintro ⟨hr, _⟩
      exact hr

/-- Only other hardware addresses give an address up. -/
theorem holds_map_yieldAddress {a : String} {x : Ipv4} :
    Holds (rows.map (yieldAddress mac ip)) a x ↔ Holds rows a x ∧ (a = mac ∨ x ≠ ip) := by
  induction rows with
  | nil => simp
  | cons r rest ih =>
    rw [List.map_cons, holds_cons, holds_cons, holds_yieldAddress, ih, or_and_right]

theorem holds_takeAddress (hform : registryMac mac = mac) (hmacs : (rows.map (·.mac)).Nodup)
    {a : String} {x : Ipv4} :
    Holds (takeAddress mac ip now rows) a x ↔ (a = mac ∧ x = ip) ∨ (a ≠ mac ∧ Holds rows a x) := by
  induction rows with
  | nil =>
    rw [takeAddress, holds_cons]
    simp [observed, hform, eq_comm]
  | cons r rest ih =>
    rw [List.map_cons, List.nodup_cons] at hmacs
    obtain ⟨hfresh, hrest⟩ := hmacs
    rw [takeAddress]
    by_cases hr : r.mac = mac
    · rw [if_pos hr, holds_cons, holds_cons]
      by_cases ha : a = mac
      · subst ha
        have hnone : ¬ Holds rest a x := fun h => hfresh (hr ▸ h.mem_macs)
        simp [hr, hnone, @eq_comm _ ip x]
      · have hne : r.mac ≠ a := fun he => ha (he ▸ hr)
        simp [ha, hne]
    · rw [if_neg hr, holds_cons, holds_cons, ih hrest]
      by_cases ha : a = mac
      · subst ha
        simp [hr]
      · simp [ha]

/-- After an announcement the hardware address holds the address and no other, and nobody else
holds it. -/
theorem holds_announce (hform : registryMac mac = mac) (hmacs : (rows.map (·.mac)).Nodup)
    {a : String} {x : Ipv4} :
    Holds (announce mac ip now rows) a x ↔
      (a = mac ∧ x = ip) ∨ (a ≠ mac ∧ x ≠ ip ∧ Holds rows a x) := by
  have hkept : ((rows.map (yieldAddress mac ip)).map (·.mac)).Nodup := by
    rwa [map_mac_eq, map_identity_yieldAddress, ← map_mac_eq]
  rw [announce, holds_takeAddress hform hkept, holds_map_yieldAddress]
  by_cases ha : a = mac
  · simp [ha]
  · simp [ha, and_comm]

/-! ## Distinct rows -/

/-- Where hardware addresses are distinct, addresses are distinct if no two hardware addresses hold
the same one. -/
theorem nodup_addresses_iff (hmacs : (rows.map (·.mac)).Nodup) :
    (rows.filterMap (·.address)).Nodup ↔
      ∀ a b x, Holds rows a x → Holds rows b x → a = b := by
  induction rows with
  | nil => simp
  | cons r rest ih =>
    rw [List.map_cons, List.nodup_cons] at hmacs
    obtain ⟨hfresh, hrest⟩ := hmacs
    have hmem : ∀ x, x ∈ rest.filterMap (·.address) ↔ ∃ a, Holds rest a x := by
      intro x
      simp [Holds]
    cases hr : r.address with
    | none =>
      rw [List.filterMap_cons_none hr, ih hrest]
      simp [hr]
    | some ip =>
      rw [List.filterMap_cons_some hr, List.nodup_cons, hmem, ih hrest]
      simp only [holds_cons, hr, Option.some.injEq]
      constructor
      · rintro ⟨hfree, hone⟩ a b x (⟨rfl, rfl⟩ | ha) (⟨rfl, hx⟩ | hb)
        · rfl
        · exact absurd ⟨b, hb⟩ hfree
        · exact absurd ⟨a, hx ▸ ha⟩ hfree
        · exact hone a b x ha hb
      · intro hone
        refine ⟨?_, fun a b x ha hb => hone a b x (Or.inr ha) (Or.inr hb)⟩
        rintro ⟨a, ha⟩
        have hmac := hone r.mac a ip (Or.inl ⟨rfl, rfl⟩) (Or.inr ha)
        exact hfresh (hmac ▸ ha.mem_macs)

/-- Rows stay distinct: the new holder is the only one. -/
theorem Distinct.announce (h : Distinct rows) (hform : registryMac mac = mac) :
    Distinct (announce mac ip now rows) := by
  have hmacs : ((NodeRow.announce mac ip now rows).map (·.mac)).Nodup := by
    rw [map_mac_eq, map_identity_announce, List.map_append, ← map_mac_eq]
    split
    · simpa using h.macs
    · next hnew =>
      rw [List.nodup_append]
      refine ⟨h.macs, by simp, ?_⟩
      rintro a ha b hb rfl
      simp only [Identity.stranger, hform, List.map_cons, List.map_nil, List.mem_singleton] at hb
      exact hnew (hb ▸ ha)
  refine ⟨hmacs, (nodup_addresses_iff hmacs).mpr ?_⟩
  intro a b x ha hb
  rw [holds_announce hform h.macs] at ha hb
  rcases ha with ⟨rfl, rfl⟩ | ⟨_, hx, ha⟩
  · rcases hb with ⟨rfl, _⟩ | ⟨_, hx, _⟩
    · rfl
    · exact absurd rfl hx
  · rcases hb with ⟨_, rfl⟩ | ⟨_, _, hb⟩
    · exact absurd rfl hx
    · exact (nodup_addresses_iff h.macs).mp h.addresses a b x ha hb

end NodeRow

/-! ## Registrations one after the other -/

/-- The news that a hardware address has an address, at a time. -/
structure Report extends Announcement where
  now : Instant
deriving DecidableEq, Repr

namespace Registry

/-- Notes a report. -/
def record (r : Registry) (x : Report) : Registry := (r.recordAddress x.now x.address x.mac).1

def recordReports (r : Registry) (reports : List Report) : Registry := reports.foldl record r

theorem recordReports_append (r : Registry) (reports : List Report) (x : Report) :
    r.recordReports (reports ++ [x]) = (r.recordReports reports).record x := by
  rw [recordReports, List.foldl_append]
  rfl

end Registry

/-- The last report of the hardware address names the address, and no later report names it for
another one. -/
def LastNamed (reports : List Report) (mac : String) (ip : Ipv4) : Prop :=
  ∃ before x after, reports = before ++ x :: after ∧ x.mac = mac ∧ x.address = ip ∧
    (∀ y ∈ after, y.mac ≠ mac) ∧ ∀ y ∈ after, y.mac ≠ mac → y.address ≠ ip

/-- A row held the address for the hardware address at the start, no report is of this hardware
address, and none names the address for another one. -/
def LeftAlone (rows : List NodeRow) (reports : List Report) (mac : String) (ip : Ipv4) : Prop :=
  NodeRow.Holds rows mac ip ∧ (∀ y ∈ reports, y.mac ≠ mac) ∧
    ∀ y ∈ reports, y.mac ≠ mac → y.address ≠ ip

variable {rows : List NodeRow} {reports : List Report} {mac : String} {ip : Ipv4}

theorem not_lastNamed_nil : ¬ LastNamed [] mac ip := by
  rintro ⟨before, x, after, h, _⟩
  simp at h

/-- One more report settles its own hardware address and its address, and leaves the others as
they were. -/
theorem lastNamed_append {y : Report} :
    LastNamed (reports ++ [y]) mac ip ↔
      (y.mac = mac ∧ y.address = ip) ∨
        (y.mac ≠ mac ∧ y.address ≠ ip ∧ LastNamed reports mac ip) := by
  constructor
  · rintro ⟨before, x, after, heq, hmac, hip, hlater, htaken⟩
    rcases List.eq_nil_or_concat after with rfl | ⟨others, z, rfl⟩
    · obtain ⟨_, hy⟩ := List.append_inj' heq rfl
      cases hy
      exact Or.inl ⟨hmac, hip⟩
    · rw [List.concat_eq_append] at heq hlater htaken
      rw [← List.cons_append, ← List.append_assoc] at heq
      obtain ⟨hreports, hy⟩ := List.append_inj' heq rfl
      cases hy
      rw [List.forall_mem_append, List.forall_mem_singleton] at hlater htaken
      obtain ⟨hothers, hne⟩ := hlater
      obtain ⟨hfree, hip'⟩ := htaken
      exact Or.inr ⟨hne, hip' hne, before, x, others, hreports, hmac, hip, hothers, hfree⟩
  · rintro (⟨hmac, hip⟩ | ⟨hne, hip', before, x, after, rfl, hmac, hip, hlater, htaken⟩)
    · exact ⟨reports, y, [], rfl, hmac, hip, by simp, by simp⟩
    · refine ⟨before, x, after ++ [y], by simp, hmac, hip, ?_, ?_⟩
      · rw [List.forall_mem_append, List.forall_mem_singleton]
        exact ⟨hlater, hne⟩
      · rw [List.forall_mem_append, List.forall_mem_singleton]
        exact ⟨htaken, fun _ => hip'⟩

theorem leftAlone_nil : LeftAlone rows [] mac ip ↔ NodeRow.Holds rows mac ip := by
  simp [LeftAlone]

theorem leftAlone_append {y : Report} :
    LeftAlone rows (reports ++ [y]) mac ip ↔
      y.mac ≠ mac ∧ y.address ≠ ip ∧ LeftAlone rows reports mac ip := by
  simp only [LeftAlone, List.forall_mem_append, List.forall_mem_singleton]
  constructor
  · rintro ⟨hholds, ⟨hother, hne⟩, hfree, hip⟩
    exact ⟨hne, hip hne, hholds, hother, hfree⟩
  · rintro ⟨hne, hip, hholds, hother, hfree⟩
    exact ⟨hholds, ⟨hother, hne⟩, hfree, fun _ => hip⟩

/-! ## The invariant -/

/-- What a registry keeps to while reports come in: it can go on, its rows are distinct, every row
of the start is there in its place, each reported hardware address has a row, and each address is
held by whom the reports say. -/
structure Settled (r : Registry) (rows : List NodeRow) (reports : List Report)
    (table : List NodeRow) : Prop where
  keeps : (r.recordReports reports).Keeps table
  distinct : NodeRow.Distinct table
  identities : rows.map NodeRow.identity <+: table.map NodeRow.identity
  reported : ∀ y ∈ reports, y.mac ∈ table.map (·.mac)
  holders : ∀ a x, NodeRow.Holds table a x ↔ LastNamed reports a x ∨ LeftAlone rows reports a x

variable {r : Registry} {table : List NodeRow}

theorem settled_nil (h : r.Keeps rows) (hdistinct : NodeRow.Distinct rows) :
    Settled r rows [] rows where
  keeps := h
  distinct := hdistinct
  identities := List.prefix_rfl
  reported := by simp
  holders a x := by simp [not_lastNamed_nil, leftAlone_nil]

theorem identities_announce (mac : String) (ip : Ipv4) (now : Instant) (table : List NodeRow) :
    table.map NodeRow.identity <+:
      (NodeRow.announce mac ip now table).map NodeRow.identity := by
  rw [NodeRow.map_identity_announce]
  exact List.prefix_append _ _

theorem mem_macs_announce (hform : registryMac mac = mac) (ip : Ipv4) (now : Instant)
    (table : List NodeRow) {a : String} (h : a = mac ∨ a ∈ table.map (·.mac)) :
    a ∈ (NodeRow.announce mac ip now table).map (·.mac) := by
  rw [NodeRow.map_mac_eq, NodeRow.map_identity_announce, List.map_append, ← NodeRow.map_mac_eq]
  rcases h with rfl | h
  · split
    · next hmem => simpa using hmem
    · simp [NodeRow.Identity.stranger, hform]
  · exact List.mem_append_left _ h

/-- One more report keeps the registry settled. -/
theorem Settled.record (h : Settled r rows reports table) {y : Report} (hmac : IsMacText y.mac)
    (hnow : y.now.IsWritable) :
    Settled r rows (reports ++ [y]) (NodeRow.announce y.mac y.address y.now table) := by
  have hform := registryMac_of_isMacText hmac
  obtain ⟨_, hkeeps⟩ := h.keeps.recordAddress_keeps hnow y.address hmac
  constructor
  case keeps =>
    rw [Registry.recordReports_append]
    exact hkeeps
  case distinct => exact h.distinct.announce hform
  case identities => exact h.identities.trans (identities_announce _ _ _ _)
  case reported =>
    rw [List.forall_mem_append, List.forall_mem_singleton]
    refine ⟨fun z hz => ?_, mem_macs_announce hform _ _ _ (Or.inl rfl)⟩
    exact mem_macs_announce hform _ _ _ (Or.inr (h.reported z hz))
  case holders =>
    intro a x
    rw [NodeRow.holds_announce hform h.distinct.macs, lastNamed_append, leftAlone_append,
      h.holders a x]
    constructor
    · rintro (⟨rfl, rfl⟩ | ⟨ha, hx, hlast | hleft⟩)
      · exact Or.inl (Or.inl ⟨rfl, rfl⟩)
      · exact Or.inl (Or.inr ⟨ha.symm, hx.symm, hlast⟩)
      · exact Or.inr ⟨ha.symm, hx.symm, hleft⟩
    · rintro ((⟨rfl, rfl⟩ | ⟨ha, hx, hlast⟩) | ⟨ha, hx, hleft⟩)
      · exact Or.inl ⟨rfl, rfl⟩
      · exact Or.inr ⟨ha.symm, hx.symm, Or.inl hlast⟩
      · exact Or.inr ⟨ha.symm, hx.symm, Or.inr hleft⟩

theorem settled_recordReports (h : r.Keeps rows) (hdistinct : NodeRow.Distinct rows)
    (hmacs : ∀ y ∈ reports, IsMacText y.mac) (hnows : ∀ y ∈ reports, y.now.IsWritable) :
    ∃ table, Settled r rows reports table := by
  induction reports using List.reverseRecOn with
  | nil => exact ⟨rows, settled_nil h hdistinct⟩
  | append_singleton reports y ih =>
    rw [List.forall_mem_append, List.forall_mem_singleton] at hmacs hnows
    obtain ⟨table, hsettled⟩ := ih hmacs.1 hnows.1
    exact ⟨_, hsettled.record hmacs.2 hnows.2⟩

/-- Registrations of canonical hardware addresses all succeed, keep the table readable and its rows
distinct, and lose no row. In the end each address is held by the hardware address whose last
report names it, unless it was named for another one later, or was left alone with it; and each
reported hardware address has one row. -/
theorem registrations_settle_holders (htree : r.volume.IsTree) (hnodes : r.nodes = .ok rows)
    (hdistinct : NodeRow.Distinct rows) (hyears : ∀ row ∈ rows, row.lastSeen.InFourDigitYear)
    (hmacs : ∀ y ∈ reports, ∃ bs, y.mac = String.ofList (Text.colonHex bs))
    (hnows : ∀ y ∈ reports, y.now.IsWritable) :
    (∀ before y after, reports = before ++ y :: after →
      ∃ table next, (r.recordReports before).nodes = .ok table ∧
        ((r.recordReports before).recordAddress y.now y.address y.mac).2 = .ok () ∧
        (r.recordReports (before ++ [y])).nodes = .ok next ∧ NodeRow.Distinct next ∧
        table.map NodeRow.identity <+: next.map NodeRow.identity) ∧
    ∃ table, (r.recordReports reports).nodes = .ok table ∧
      rows.map NodeRow.identity <+: table.map NodeRow.identity ∧
      (∀ a x, NodeRow.Holds table a x ↔ LastNamed reports a x ∨ LeftAlone rows reports a x) ∧
      ∀ y ∈ reports, (table.map (·.mac)).count y.mac = 1 := by
  have hkeeps := Registry.keeps_of_years htree hnodes hyears
  have htexts : ∀ y ∈ reports, IsMacText y.mac := by
    intro y hy
    obtain ⟨bs, hbs⟩ := hmacs y hy
    rw [hbs]
    exact isMacText_colonHex bs
  refine ⟨?_, ?_⟩
  · rintro before y after rfl
    rw [List.forall_mem_append, List.forall_mem_cons] at htexts hnows
    obtain ⟨table, hsettled⟩ := settled_recordReports hkeeps hdistinct htexts.1 hnows.1
    have hnext := hsettled.record htexts.2.1 hnows.2.1
    obtain ⟨hdone, _⟩ := hsettled.keeps.recordAddress_keeps hnows.2.1 y.address htexts.2.1
    exact ⟨table, _, hsettled.keeps.nodes, hdone, hnext.keeps.nodes, hnext.distinct,
      identities_announce _ _ _ _⟩
  · obtain ⟨table, hsettled⟩ := settled_recordReports hkeeps hdistinct htexts hnows
    refine ⟨table, hsettled.keeps.nodes, hsettled.identities, hsettled.holders, ?_⟩
    intro y hy
    exact List.count_eq_one_of_mem hsettled.distinct.macs (hsettled.reported y hy)

/-- Two machines with an address each. -/
def pairRows : List NodeRow :=
  [⟨"n1", "00:00:00:00:00:0a", true, "rescue", some ⟨10, 1, 1, 10⟩, ⟨1429565092, 500000000⟩⟩,
    ⟨"n2", "00:00:00:00:00:0b", false, "", some ⟨10, 1, 1, 11⟩, ⟨1429565092, 0⟩⟩]

def pairRegistry : Registry where
  home := ["data"]
  volume :=
    ⟨[(["data"], .folder),
      (["data", "nodes.txt"], .file (utf8
        ("n1,00:00:00:00:00:0A,true,rescue,10.1.1.10,2015-04-20T23:24:52.5+02:00\n\n" ++
          " n2, 00:00:00:00:00:0b ,false,,10.1.1.11,2015-04-20t21:24:52Z\r\n")))]⟩

/-- The first machine gets the address of the second one. -/
def firstReport : Report := ⟨⟨⟨10, 1, 1, 11⟩, "00:00:00:00:00:0a"⟩, ⟨1500000000, 0⟩⟩

/-- A third machine gets the address that the first one had. -/
def secondReport : Report := ⟨⟨⟨10, 1, 1, 10⟩, "00:00:00:00:00:0c"⟩, ⟨1500000001, 0⟩⟩

/-- The second machine gets its own address again. -/
def thirdReport : Report := ⟨⟨⟨10, 1, 1, 11⟩, "00:00:00:00:00:0b"⟩, ⟨1500000002, 7⟩⟩

def pairReports : List Report := [firstReport, secondReport, thirdReport]

theorem holders_of_a_wandering_address :
    pairRegistry.volume.IsTree ∧ pairRegistry.nodes = .ok pairRows ∧ NodeRow.Distinct pairRows ∧
      (∀ row ∈ pairRows, row.lastSeen.InFourDigitYear) ∧
      (∀ y ∈ pairReports, ∃ bs, y.mac = String.ofList (Text.colonHex bs)) ∧
      (∀ y ∈ pairReports, y.now.IsWritable) ∧
      ∃ table, (pairRegistry.recordReports pairReports).nodes = .ok table ∧
        (∀ x, ¬ NodeRow.Holds table "00:00:00:00:00:0a" x) ∧
        NodeRow.Holds table "00:00:00:00:00:0b" ⟨10, 1, 1, 11⟩ ∧
        NodeRow.Holds table "00:00:00:00:00:0c" ⟨10, 1, 1, 10⟩ := by
  have htree : pairRegistry.volume.IsTree := by decide
  have hnodes : pairRegistry.nodes = .ok pairRows := by decide +kernel
  have hdistinct : NodeRow.Distinct pairRows := ⟨by decide +kernel, by decide +kernel⟩
  have hyears : ∀ row ∈ pairRows, row.lastSeen.InFourDigitYear := by decide +kernel
  have hmacs : ∀ y ∈ pairReports, ∃ bs, y.mac = String.ofList (Text.colonHex bs) := by
    simp only [pairReports, List.forall_mem_cons, List.not_mem_nil, false_implies, implies_true,
      and_true]
    exact ⟨⟨[0, 0, 0, 0, 0, 0x0a], by decide +kernel⟩, ⟨[0, 0, 0, 0, 0, 0x0c], by decide +kernel⟩,
      ⟨[0, 0, 0, 0, 0, 0x0b], by decide +kernel⟩⟩
  have hnows : ∀ y ∈ pairReports, y.now.IsWritable := by decide +kernel
  obtain ⟨_, table, htable, _, hholders, _⟩ :=
    registrations_settle_holders htree hnodes hdistinct hyears hmacs hnows
  refine ⟨htree, hnodes, hdistinct, hyears, hmacs, hnows, table, htable, ?_, ?_, ?_⟩
  · intro x hx
    rcases (hholders _ x).mp hx with hlast | hleft
    · obtain ⟨hmac, _⟩ | ⟨_, hthird, hlast⟩ :=
        lastNamed_append.mp
          (show LastNamed ([firstReport, secondReport] ++ [thirdReport]) _ x from hlast)
      · exact absurd hmac (by decide)
      obtain ⟨hmac, _⟩ | ⟨_, _, hlast⟩ :=
        lastNamed_append.mp (show LastNamed ([firstReport] ++ [secondReport]) _ x from hlast)
      · exact absurd hmac (by decide)
      obtain ⟨_, hfirst⟩ | ⟨hmac, _⟩ :=
        lastNamed_append.mp (show LastNamed ([] ++ [firstReport]) _ x from hlast)
      · exact hthird hfirst
      · exact hmac rfl
    · exact hleft.2.1 firstReport (by simp [pairReports]) rfl
  · apply (hholders _ _).mpr
    exact Or.inl ⟨[firstReport, secondReport], thirdReport, [], rfl, rfl, rfl, by simp, by simp⟩
  · apply (hholders _ _).mpr
    exact Or.inl ⟨[firstReport], secondReport, [thirdReport], rfl, rfl, rfl, by decide, by decide⟩

end NetBoot
