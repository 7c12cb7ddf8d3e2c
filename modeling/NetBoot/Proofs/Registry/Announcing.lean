-- What an announcement does to the rows of the table: nobody's identity changes, and at most one
-- row comes in, of a machine that nobody has entered.
import NetBoot.Proofs.Registry.RowRoundTrip
import NetBoot.Registry.Table

namespace NetBoot.NodeRow

/-- What a row says of its machine apart from where it was seen. -/
structure Identity where
  id : NodeId
  mac : String
  discovered : Bool
  profile : String
deriving DecidableEq, Repr

def identity (r : NodeRow) : Identity := ⟨r.id, r.mac, r.discovered, r.profile⟩

/-- The identity of a machine that has only been seen. -/
def Identity.stranger (mac : String) : Identity := ⟨"", registryMac mac, false, ""⟩

variable {mac : String} {ip : Ipv4} {now : Instant} {rows : List NodeRow}

/-! ## Identities -/

theorem identity_yieldAddress (mac : String) (ip : Ipv4) (r : NodeRow) :
    (yieldAddress mac ip r).identity = r.identity := by
  unfold yieldAddress
  split
  · rfl
  · rfl

theorem lastSeen_yieldAddress (mac : String) (ip : Ipv4) (r : NodeRow) :
    (yieldAddress mac ip r).lastSeen = r.lastSeen := by
  unfold yieldAddress
  split
  · rfl
  · rfl

theorem map_identity_yieldAddress (mac : String) (ip : Ipv4) (rows : List NodeRow) :
    (rows.map (yieldAddress mac ip)).map identity = rows.map identity := by
  simp [identity_yieldAddress]

/-- The identities of rows determine their hardware addresses. -/
theorem map_mac_eq (rows : List NodeRow) :
    rows.map (·.mac) = (rows.map identity).map Identity.mac := by
  simp [identity]

theorem map_identity_takeAddress (mac : String) (ip : Ipv4) (now : Instant)
    (rows : List NodeRow) :
    (takeAddress mac ip now rows).map identity =
      rows.map identity ++ if mac ∈ rows.map (·.mac) then [] else [Identity.stranger mac] := by
  induction rows with
  | nil => rfl
  | cons r rest ih =>
    rw [takeAddress]
    by_cases hmac : r.mac = mac
    · rw [if_pos hmac, if_pos (by simp [hmac]), List.append_nil]
      rfl
    · have hmem : mac ∈ (r :: rest).map (·.mac) ↔ mac ∈ rest.map (·.mac) := by
        simp [Ne.symm hmac]
      rw [if_neg hmac, List.map_cons, ih]
      simp only [hmem]
      rfl

/-- An announcement keeps every identity in its place, and adds a stranger at the end if the
hardware address has no row. -/
theorem map_identity_announce (mac : String) (ip : Ipv4) (now : Instant) (rows : List NodeRow) :
    (announce mac ip now rows).map identity =
      rows.map identity ++ if mac ∈ rows.map (·.mac) then [] else [Identity.stranger mac] := by
  have hmacs : (rows.map (yieldAddress mac ip)).map (·.mac) = rows.map (·.mac) := by
    rw [map_mac_eq, map_identity_yieldAddress, ← map_mac_eq]
  rw [announce, map_identity_takeAddress, map_identity_yieldAddress, hmacs]

/-! ## Machines -/

/-- The machine with this identity, unless it is a stranger. -/
def Identity.node? (i : Identity) : Option Node :=
  if i.id = "" then none
  else some ⟨i.id, i.discovered, if i.profile = "" then none else some i.profile⟩

/-- Which machine is found depends on identities only. -/
theorem firstNode?_eq (fits : Identity → Bool) (rows : List NodeRow) :
    firstNode? (fun r => fits r.identity) rows =
      ((rows.map identity).filter fits).findSome? Identity.node? := by
  rw [firstNode?, List.filter_map, List.findSome?_map]
  rfl

/-- No machine is found or lost by an announcement. -/
theorem firstNode?_announce (fits : Identity → Bool) (mac : String) (ip : Ipv4) (now : Instant)
    (rows : List NodeRow) :
    firstNode? (fun r => fits r.identity) (announce mac ip now rows) =
      firstNode? (fun r => fits r.identity) rows := by
  rw [firstNode?_eq, firstNode?_eq, map_identity_announce]
  split
  · rw [List.append_nil]
  · rw [List.filter_append, List.findSome?_append]
    have hstranger : ([Identity.stranger mac].filter fits).findSome? Identity.node? = none := by
      rw [List.findSome?_eq_none_iff]
      intro i hi
      rw [List.mem_singleton.mp (List.mem_filter.mp hi).1]
      rfl
    rw [hstranger, Option.or_none]

/-- A row comes in exactly for a hardware address that has none. -/
theorem length_announce_eq (mac : String) (ip : Ipv4) (now : Instant) (rows : List NodeRow) :
    (announce mac ip now rows).length =
      rows.length + if mac ∈ rows.map (·.mac) then 0 else 1 := by
  have h := congrArg List.length (map_identity_announce mac ip now rows)
  rw [List.length_map, List.length_append, List.length_map] at h
  rw [h]
  split <;> rfl

theorem length_announce (mac : String) (ip : Ipv4) (now : Instant) (rows : List NodeRow) :
    (announce mac ip now rows).length = rows.length ∨
      (announce mac ip now rows).length = rows.length + 1 := by
  have h := length_announce_eq mac ip now rows
  split at h
  · exact Or.inl h
  · exact Or.inr h

/-! ## Instants -/

theorem forall_lastSeen_takeAddress {P : Instant → Prop} (hnow : P now) :
    (∀ r ∈ takeAddress mac ip now rows, P r.lastSeen) ↔
      ∀ r ∈ rows.eraseP (·.mac = mac), P r.lastSeen := by
  induction rows with
  | nil => simpa [takeAddress, observed] using hnow
  | cons r rest ih =>
    rw [takeAddress]
    by_cases hmac : r.mac = mac
    · simp [hmac, hnow]
    · simp [hmac, ih]

/-- An announcement renews the instant of the first row of the hardware address only. -/
theorem forall_lastSeen_announce {P : Instant → Prop} (hnow : P now) :
    (∀ r ∈ announce mac ip now rows, P r.lastSeen) ↔
      ∀ r ∈ rows.eraseP (·.mac = mac), P r.lastSeen := by
  have hmacs : ((fun r => decide (r.mac = mac)) ∘ yieldAddress mac ip) =
      fun r : NodeRow => decide (r.mac = mac) := by
    funext r
    exact congrArg (fun i => decide (Identity.mac i = mac)) (identity_yieldAddress mac ip r)
  rw [announce, forall_lastSeen_takeAddress hnow, List.eraseP_map, hmacs, List.forall_mem_map]
  simp only [lastSeen_yieldAddress]

/-! ## Storability -/

theorem isField_of_isMacText (h : IsMacText mac) : IsField mac.toList :=
  isField_of_isPlain fun c hc => ⟨(h c hc).not_comma, (h c hc).not_blank⟩

theorem isTabular_observed (hmac : IsMacText mac) (hnow : now.OnClock) :
    (observed mac ip now).IsTabular := by
  have hempty : IsField "".toList := ⟨by decide, by decide⟩
  constructor
  case id => exact hempty
  case head =>
    intro c hc
    cases hc
  case mac =>
    show IsField (registryMac mac).toList
    rw [registryMac_of_isMacText hmac]
    exact isField_of_isMacText hmac
  case macForm => exact registryMac_registryMac mac
  case profile => exact hempty
  case onClock => exact hnow

theorem IsTabular.yieldAddress {r : NodeRow} (h : r.IsTabular) (mac : String) (ip : Ipv4) :
    (r.yieldAddress mac ip).IsTabular := by
  unfold NodeRow.yieldAddress
  split
  · exact { h with }
  · exact h

theorem isTabular_takeAddress (hmac : IsMacText mac) (hnow : now.OnClock)
    (h : ∀ r ∈ rows, r.IsTabular) : ∀ r ∈ takeAddress mac ip now rows, r.IsTabular := by
  induction rows with
  | nil => simpa [takeAddress] using isTabular_observed hmac hnow
  | cons r rest ih =>
    obtain ⟨hr, hrest⟩ := List.forall_mem_cons.mp h
    rw [takeAddress]
    split
    · exact List.forall_mem_cons.mpr ⟨{ hr with onClock := hnow }, hrest⟩
    · exact List.forall_mem_cons.mpr ⟨hr, ih hrest⟩

/-- The rows make a table again after an announcement. -/
theorem isTabular_announce (hmac : IsMacText mac) (hnow : now.OnClock)
    (h : ∀ r ∈ rows, r.IsTabular) : ∀ r ∈ announce mac ip now rows, r.IsTabular := by
  apply isTabular_takeAddress hmac hnow
  intro r hr
  obtain ⟨s, hs, rfl⟩ := List.mem_map.mp hr
  exact (h s hs).yieldAddress mac ip

theorem isStorable_announce (hmac : IsMacText mac) (hnow : now.IsWritable)
    (h : ∀ r ∈ rows, r.IsStorable) : ∀ r ∈ announce mac ip now rows, r.IsStorable := by
  have hyears : ∀ r ∈ announce mac ip now rows, r.lastSeen.InFourDigitYear :=
    (forall_lastSeen_announce hnow.year).mpr fun r hr => (h r (List.mem_of_mem_eraseP hr)).year
  intro r hr
  exact ⟨isTabular_announce hmac hnow.onClock (fun s hs => (h s hs).toIsTabular) r hr, hyears r hr⟩

end NetBoot.NodeRow
