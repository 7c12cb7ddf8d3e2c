-- Recording an address in a registry whose table of machines can be read: it succeeds, the table
-- then holds the rows after the announcement, and tasks and boot profiles stay as they are.
import NetBoot.Proofs.Registry.Announcing
import NetBoot.Proofs.Registry.TableRoundTrip
import NetBoot.Proofs.Storage.FolderTree
import NetBoot.Registry.Store

namespace NetBoot.Registry

/-- A registry in a tree of folders, whose table of machines is absent or can be read. -/
structure Reads (r : Registry) (rows : List NodeRow) : Prop where
  tree : r.volume.IsTree
  nodes : r.nodes = .ok rows

/-- A registry whose table is absent or holds rows that can be written again. -/
structure Keeps (r : Registry) (rows : List NodeRow) : Prop extends r.Reads rows where
  storable : ∀ row ∈ rows, row.IsStorable

variable {r : Registry} {rows : List NodeRow} {w : Volume}

/-! ## Reading the table -/

theorem readRows_eq_ok {α : Type} {p : Path} {read : List Char → Except RowFault α} {table : List α}
    (h : r.readRows p read = .ok table) :
    (∃ content, r.volume.read p = .ok content ∧ readTable read content = .ok table) ∨
      (r.volume.read p = .error .missing ∧ table = []) := by
  unfold readRows at h
  split at h
  · next content hread => exact Or.inl ⟨content, hread, h⟩
  · next hread =>
    cases h
    exact Or.inr ⟨hread, rfl⟩
  · cases h

theorem readRows_of_missing {α : Type} {p : Path} {read : List Char → Except RowFault α}
    (h : r.volume.read p = .error .missing) : r.readRows p read = .ok [] := by
  rw [readRows, h]

/-- The rows of a table that can be read make a table again. -/
theorem Reads.isTabular (h : r.Reads rows) : ∀ row ∈ rows, row.IsTabular := by
  intro row hrow
  rcases readRows_eq_ok h.nodes with ⟨content, _, htable⟩ | ⟨_, rfl⟩
  · exact isTabular_of_readNodeTable htable hrow
  · cases hrow

/-- A table that can be read can be written again, if all its years have four digits. -/
theorem keeps_of_years (htree : r.volume.IsTree) (hnodes : r.nodes = .ok rows)
    (hyears : ∀ row ∈ rows, row.lastSeen.InFourDigitYear) : r.Keeps rows := by
  have hreads : r.Reads rows := ⟨htree, hnodes⟩
  exact ⟨hreads, fun row hrow => ⟨hreads.isTabular row hrow, hyears row hrow⟩⟩

theorem not_prefix_of_append (p : Path) (name : String) : ¬ p ++ [name] <+: p := by
  intro h
  have hlength := h.length_le
  rw [List.length_append, List.length_singleton] at hlength
  omega

theorem nodesPath_ne_nil (r : Registry) : r.nodesPath ≠ [] :=
  Volume.append_name_ne_nil r.home "nodes.txt"

theorem nodes_of_get (htree : r.volume.IsTree) {content : Bytes}
    (hget : r.volume.get r.nodesPath = some (.file content)) :
    r.nodes = readNodeTable content := by
  rw [nodes, readRows, htree.read_of_get (nodesPath_ne_nil r) hget]
  rfl

theorem Reads.isOpen_home (h : r.Reads rows) : r.volume.IsOpen r.home := by
  rcases readRows_eq_ok h.nodes with ⟨content, hread, _⟩ | ⟨hread, _⟩
  · have hstands : r.volume.get (r.home ++ ["nodes.txt"]) ≠ none := by
      have hget := Volume.get_of_read (nodesPath_ne_nil r) hread
      rw [nodesPath] at hget
      simp [hget]
    exact h.tree.isOpen_of_get hstands
  · have hmissing := Volume.read_eq_missing.mp hread
    obtain ⟨_, hopen⟩ := (h.tree.find_eq_missing_iff (nodesPath_ne_nil r)).mp hmissing
    exact hopen.of_prefix (List.prefix_append r.home ["nodes.txt"])

theorem Reads.not_isFolder_nodesPath (h : r.Reads rows) :
    r.volume.get r.nodesPath ≠ some .folder := by
  rcases readRows_eq_ok h.nodes with ⟨content, hread, _⟩ | ⟨hread, _⟩
  · rw [Volume.get_of_read (nodesPath_ne_nil r) hread]
    simp
  · have hmissing := Volume.read_eq_missing.mp hread
    rw [((h.tree.find_eq_missing_iff (nodesPath_ne_nil r)).mp hmissing).1]
    simp

/-! ## Changing the volume -/

/-- What changes of the table of machines leave of the volume: the folder of the registry stands,
and where it stood before nothing else has changed. -/
structure Tended (r : Registry) (w : Volume) : Prop where
  tree : w.IsTree
  folders : ∀ q, q <+: r.home → w.isFolder q = true
  table : w.get r.nodesPath ≠ some .folder
  others : ∀ q, q ≠ r.nodesPath → ¬ q <+: r.home → w.get q = r.volume.get q
  kept : r.volume.isFolder r.home = true →
    ∀ q, q ≠ [] → q ≠ r.nodesPath → w.get q = r.volume.get q

theorem Reads.tended (h : r.Reads rows) (hmade : r.volume.MadeFolder w r.home) : r.Tended w where
  tree := hmade.isTree h.tree
  folders := hmade.folders
  table := by
    rw [hmade.others r.nodesPath (not_prefix_of_append r.home "nodes.txt")]
    exact h.not_isFolder_nodesPath
  others := fun q _ hq => hmade.others q hq
  kept := fun hfolder _ hq _ => hmade.get_of_isFolder h.tree hfolder hq

theorem Tended.folder (h : r.Tended w) : w.isFolder r.home = true := h.folders _ List.prefix_rfl

theorem Tended.put (h : r.Tended w) (content : Bytes) :
    r.Tended (w.put r.nodesPath (.file content)) where
  tree := h.tree.put_file h.folder h.table content
  folders := by
    intro q hq
    have hne : q ≠ r.nodesPath := by
      rintro rfl
      exact not_prefix_of_append r.home "nodes.txt" hq
    rw [Volume.isFolder_congr (Volume.get_put_ne _ _ hne)]
    exact h.folders q hq
  table := by
    rw [Volume.get_put_self]
    simp
  others := by
    intro q hq hhome
    rw [Volume.get_put_ne _ _ hq]
    exact h.others q hq hhome
  kept := by
    intro hfolder q hroot hq
    rw [Volume.get_put_ne _ _ hq]
    exact h.kept hfolder q hroot hq

theorem Tended.writeNodes (h : r.Tended w) (content : Bytes) :
    writeNodes { r with volume := w } content =
      ({ r with volume := w.put r.nodesPath (.file content) }, .ok ()) := by
  have hwrite : w.write r.nodesPath content = .ok (w.put r.nodesPath (.file content)) :=
    h.tree.write_of_isFolder h.folder h.table content
  unfold Registry.writeNodes
  rw [show nodesPath { r with volume := w } = r.nodesPath from rfl]
  dsimp only
  rw [hwrite]

/-- A table that can be read is opened, or made. -/
theorem Reads.openNodes (h : r.Reads rows) :
    ∃ u content, r.openNodes = ({ r with volume := u }, .ok content) ∧ r.Tended u ∧
      readNodeTable content = .ok rows := by
  obtain ⟨u, hmake, hmade⟩ := Volume.makeFolder_of_isOpen h.isOpen_home
  have htended := h.tended hmade
  have hhome : r.ensureHome = ({ r with volume := u }, .ok ()) := by rw [ensureHome, hmake]
  unfold Registry.openNodes
  rw [hhome]
  dsimp only
  rw [show nodesPath { r with volume := u } = r.nodesPath from rfl]
  rcases readRows_eq_ok h.nodes with ⟨content, hread, htable⟩ | ⟨hread, rfl⟩
  · have hget := Volume.get_of_read (nodesPath_ne_nil r) hread
    have hkept : u.get r.nodesPath = some (.file content) := by
      rw [hmade.kept _ (by simp [hget]), hget]
    rw [htended.tree.read_of_get (nodesPath_ne_nil r) hkept]
    exact ⟨u, content, rfl, htended, htable⟩
  · have hmissing := Volume.read_eq_missing.mp hread
    obtain ⟨hnone, hopen⟩ := (h.tree.find_eq_missing_iff (nodesPath_ne_nil r)).mp hmissing
    have hnone' : u.get r.nodesPath = none := by
      rw [hmade.others r.nodesPath (not_prefix_of_append r.home "nodes.txt"), hnone]
    have hopen' : u.IsOpen r.nodesPath := by
      intro q hq
      rcases List.prefix_concat_iff.mp hq with rfl | hq
      · exact Or.inr hnone'
      · exact Or.inl (hmade.folders q hq)
    have hread' : u.read r.nodesPath = .error .missing :=
      Volume.read_eq_missing.mpr (Volume.find_eq_missing (nodesPath_ne_nil r) hopen' hnone')
    rw [hread', htended.writeNodes]
    exact ⟨u.put r.nodesPath (.file []), [], rfl, htended.put [], rfl⟩

/-! ## Recording -/

/-- Recording an address succeeds, and writes the rows after the announcement. -/
theorem Reads.recordAddress (h : r.Reads rows) (now : Instant) (ip : Ipv4) (mac : String) :
    ∃ u, r.recordAddress now ip mac = ({ r with volume := u }, .ok ()) ∧ r.Tended u ∧
      u.get r.nodesPath =
        some (.file (writeNodeTable (NodeRow.announce (registryMac mac) ip now rows))) := by
  obtain ⟨u, content, hopen, htended, htable⟩ := h.openNodes
  refine ⟨_, ?_, htended.put _, Volume.get_put_self _ _ _⟩
  unfold Registry.recordAddress updateNodes
  rw [hopen]
  dsimp only
  rw [htable]
  exact htended.writeNodes _

/-- After an address was recorded, reading the table is reading the file of the rows after the
announcement. -/
theorem Reads.nodes_recordAddress (h : r.Reads rows) (now : Instant) (ip : Ipv4) (mac : String) :
    (r.recordAddress now ip mac).2 = .ok () ∧ (r.recordAddress now ip mac).1.volume.IsTree ∧
      (r.recordAddress now ip mac).1.nodes =
        readNodeTable (writeNodeTable (NodeRow.announce (registryMac mac) ip now rows)) := by
  obtain ⟨u, hrecord, htended, hget⟩ := h.recordAddress now ip mac
  rw [hrecord]
  exact ⟨rfl, htended.tree, nodes_of_get htended.tree hget⟩

/-- The table can be read and written again after an address was recorded for a hardware address
that is written in digits and colons. -/
theorem Keeps.recordAddress_keeps (h : r.Keeps rows) {now : Instant} (hnow : now.IsWritable)
    (ip : Ipv4) {mac : String} (hmac : IsMacText mac) :
    (r.recordAddress now ip mac).2 = .ok () ∧
      (r.recordAddress now ip mac).1.Keeps (NodeRow.announce mac ip now rows) := by
  obtain ⟨hdone, htree, hnodes⟩ := h.nodes_recordAddress now ip mac
  have hstorable : ∀ row ∈ NodeRow.announce mac ip now rows, row.IsStorable :=
    NodeRow.isStorable_announce hmac hnow h.storable
  rw [registryMac_of_isMacText hmac, readNodeTable_writeNodeTable hstorable] at hnodes
  exact ⟨hdone, ⟨htree, hnodes⟩, hstorable⟩

/-! ## Tasks and boot profiles -/

theorem tasksPath_ne_nodesPath (r : Registry) : r.tasksPath ≠ r.nodesPath := by
  intro h
  have := (List.append_inj' h rfl).2
  revert this
  decide

theorem not_prefix_of_ne {p : Path} {name other : String} (h : name ≠ other) {q : Path}
    (hq : q <+: p ++ [name]) : q ≠ p ++ [other] := by
  rintro rfl
  rcases List.prefix_concat_iff.mp hq with heq | hq
  · exact h (by simpa using heq.symm)
  · exact not_prefix_of_append p other hq

/-- Where the folder of the registry does not stand, there are no tasks. -/
theorem Reads.tasks_of_not_isFolder (h : r.Reads rows) (hhome : r.volume.isFolder r.home ≠ true) :
    r.volume.get r.tasksPath = none ∧ r.tasks = .ok [] := by
  have hne : r.tasksPath ≠ [] := Volume.append_name_ne_nil r.home "tasks.txt"
  have hnone : r.volume.get r.tasksPath = none :=
    h.tree.get_below hhome _ (List.cons_ne_nil "tasks.txt" [])
  have hopen : r.volume.IsOpen r.tasksPath := by
    intro q hq
    rcases List.prefix_concat_iff.mp hq with rfl | hq
    · exact Or.inr hnone
    · exact h.isOpen_home q hq
  exact ⟨hnone, readRows_of_missing (Volume.read_eq_missing.mpr
    (Volume.find_eq_missing hne hopen hnone))⟩

theorem Reads.agreesBut (h : r.Reads rows) (htended : r.Tended w)
    (hhome : r.volume.isFolder r.home = true) : r.volume.AgreesBut w r.nodesPath where
  ne_nil := nodesPath_ne_nil r
  before := h.not_isFolder_nodesPath
  after := htended.table
  others := htended.kept hhome

theorem Reads.tasks_eq (h : r.Reads rows) (htended : r.Tended w) :
    tasks { r with volume := w } = r.tasks := by
  by_cases hhome : r.volume.isFolder r.home = true
  · have hread : w.read r.tasksPath = r.volume.read r.tasksPath := by
      apply Volume.read_congr
      intro q hq hroot
      apply htended.kept hhome q hroot
      exact not_prefix_of_ne (by decide) hq
    show readRows { r with volume := w } r.tasksPath TaskRow.read = _
    rw [tasks]
    simp only [readRows, hread]
  · obtain ⟨hnone, htasks⟩ := h.tasks_of_not_isFolder hhome
    have hhere := not_prefix_of_append r.home "tasks.txt"
    have hnone' : w.get r.tasksPath = none := by
      rw [htended.others _ (tasksPath_ne_nodesPath r) hhere, hnone]
    have hopen : w.IsOpen r.tasksPath := by
      intro q hq
      rcases List.prefix_concat_iff.mp hq with rfl | hq
      · exact Or.inr hnone'
      · exact Or.inl (htended.folders q hq)
    rw [htasks]
    exact readRows_of_missing (Volume.read_eq_missing.mpr
      (Volume.find_eq_missing (Volume.append_name_ne_nil r.home "tasks.txt") hopen hnone'))

/-- A text that ends in the ending of boot profiles is neither the table's name nor a step that
stays or climbs. -/
theorem append_ipxe_ne (start : String) :
    start ++ ".ipxe" ≠ "nodes.txt" ∧ start ++ ".ipxe" ≠ "" ∧ start ++ ".ipxe" ≠ "." ∧
      start ++ ".ipxe" ≠ ".." := by
  have hend : (start ++ ".ipxe").toList.getLast? = some 'e' := by
    rw [String.toList_append, List.getLast?_append]
    rfl
  have hne : ∀ other : String, other.toList.getLast? ≠ some 'e' → start ++ ".ipxe" ≠ other := by
    rintro other hother rfl
    exact hother hend
  exact ⟨hne _ (by decide), hne _ (by decide), hne _ (by decide), hne _ (by decide)⟩

theorem Reads.hasProfile_eq (h : r.Reads rows) (htended : r.Tended w)
    (hhome : r.volume.isFolder r.home = true) (profile : String) :
    hasProfile { r with volume := w } profile = r.hasProfile profile := by
  apply (h.agreesBut htended hhome).holds_eq (by decide)
  intro start
  obtain ⟨hnodes, hstep⟩ := append_ipxe_ne start
  refine ⟨?_, hstep⟩
  rw [nodesPath, List.getLast?_concat]
  simpa using hnodes.symm

theorem Reads.activeProfile_eq (h : r.Reads rows) (htended : r.Tended w) (id : NodeId) :
    activeProfile { r with volume := w } id = r.activeProfile id := by
  rw [activeProfile, h.tasks_eq htended]
  rfl

theorem Reads.bootProfile_eq (h : r.Reads rows) (htended : r.Tended w) (id : NodeId) :
    bootProfile { r with volume := w } id = r.bootProfile id := by
  simp only [bootProfile, h.activeProfile_eq htended]
  by_cases hhome : r.volume.isFolder r.home = true
  · simp only [h.hasProfile_eq htended hhome]
  · have hnotask : r.activeProfile id = .error (.notFound s!"active task for {id}") := by
      rw [activeProfile, (h.tasks_of_not_isFolder hhome).2]
      rfl
    rw [hnotask]
    rfl

end NetBoot.Registry
