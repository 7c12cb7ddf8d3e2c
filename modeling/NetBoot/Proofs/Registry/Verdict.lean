-- The stages of a decision over the tables of a registry, as one table of verdicts.
import NetBoot.Proofs.Boot.Agreement
import NetBoot.Proofs.Net.AddressText
import NetBoot.Proofs.Packet.RoundTrip
import NetBoot.Proofs.Registry.TableRoundTrip
import NetBoot.Registry.Store

namespace NetBoot

/-! ## First rows -/

namespace NodeRow

/-- The first row of a machine that has been entered with this hardware address. Rows without an
identifier are observations, which do not count. -/
def firstEntered? (mac : String) (rows : List NodeRow) : Option NodeRow :=
  rows.find? fun row => row.id ≠ "" ∧ row.mac = mac

/-- The machine of a row that has been entered. -/
def node (r : NodeRow) : Node := ⟨r.id, r.discovered, if r.profile = "" then none else some r.profile⟩

theorem isSome_profile_node (r : NodeRow) : r.node.profile.isSome = true ↔ r.profile ≠ "" := by
  unfold node
  by_cases h : r.profile = "" <;> simp [h]

/-- The first machine among the rows that fit is that of the first row that fits and has been
entered. -/
theorem firstNode?_eq_find? (fits : NodeRow → Bool) (rows : List NodeRow) :
    firstNode? fits rows = (rows.find? fun row => row.id ≠ "" ∧ fits row = true).map node := by
  unfold firstNode?
  induction rows with
  | nil => rfl
  | cons r rest ih =>
    by_cases hfits : fits r = true
    · by_cases hid : r.id = ""
      · simpa [hfits, hid, node?] using ih
      · simp [hfits, hid, node?, node]
    · simpa [hfits] using ih

theorem id_ne_of_firstEntered? {mac : String} {rows : List NodeRow} {row : NodeRow}
    (h : firstEntered? mac rows = some row) : row.id ≠ "" := by
  have := List.find?_some h
  simp only [decide_eq_true_eq] at this
  exact this.1

/-- Observations do not hide a machine that has been entered. -/
theorem firstEntered?_filter (mac : String) (rows : List NodeRow) :
    firstEntered? mac (rows.filter fun row => row.id ≠ "") = firstEntered? mac rows := by
  unfold firstEntered?
  rw [List.find?_filter]
  congr 1
  funext row
  by_cases h : row.id = "" <;> simp [h]

theorem find?_id_filter {id : NodeId} (hid : id ≠ "") (rows : List NodeRow) :
    (rows.filter fun row => row.id ≠ "").find? (fun row => row.id = id) =
      rows.find? fun row => row.id = id := by
  rw [List.find?_filter]
  congr 1
  funext row
  by_cases h : row.id = id <;> simp [h, hid]

end NodeRow

/-! ## Faults of tables -/

section Faults

variable {α : Type} {read : List Char → Except RowFault α} {e : ServiceError}

theorem isNotFound_of_readRowLine {line : Bytes} (h : readRowLine read line = .error e) :
    e.isNotFound = false := by
  unfold readRowLine at h
  split at h
  · cases h
    rfl
  · split at h
    · cases h
    · split at h
      · cases h
      · cases h
        rfl

theorem isNotFound_of_readRowLines {lines : List Bytes} (h : readRowLines read lines = .error e) :
    e.isNotFound = false := by
  obtain ⟨_, _, _, _, _, hline⟩ := readRowLines_eq_error.mp h
  exact isNotFound_of_readRowLine hline

end Faults

namespace Registry

variable {r : Registry} {mac : String} {rows : List NodeRow} {row : NodeRow}

/-- A table that cannot be read is a failure of the registry. It never counts as a machine or a
task that is not there. -/
theorem isNotFound_of_readRows {α : Type} {p : Path} {read : List Char → Except RowFault α}
    {e : ServiceError} (h : r.readRows p read = .error e) : e.isNotFound = false := by
  unfold readRows at h
  split at h
  · exact isNotFound_of_readRowLines h
  · cases h
  · cases h
    rfl

/-! ## The table of verdicts -/

/-- This is the first task of the machine, in a table of tasks that can be read. -/
def FirstTask (r : Registry) (id : NodeId) (task : TaskRow) : Prop :=
  ∃ tasks, r.tasks = .ok tasks ∧ tasks.find? (fun t => t.id = id) = some task

/-- This row is the first one with the hardware address that has been entered, and its machine is
catalogued. -/
structure Catalogued (r : Registry) (mac : String) (rows : List NodeRow) (row : NodeRow) :
    Prop where
  nodes : r.nodes = .ok rows
  first : NodeRow.firstEntered? mac rows = some row
  discovered : row.discovered = true

/-- How a decision ends for a hardware address, as the tables of the registry have it: one row of
the table of verdicts for each constructor. -/
inductive Verdict (r : Registry) (mac : String) : Resolution → Prop
  | unreadable (e : ServiceError) (h : r.nodes = .error e) : Verdict r mac .ignore
  | unknown (rows : List NodeRow) (h : r.nodes = .ok rows)
      (hnone : NodeRow.firstEntered? mac rows = none) : Verdict r mac .discover
  | uncatalogued (rows : List NodeRow) (row : NodeRow) (h : r.nodes = .ok rows)
      (hfirst : NodeRow.firstEntered? mac rows = some row) (hd : row.discovered = false) :
      Verdict r mac .discover
  | task (rows : List NodeRow) (row : NodeRow) (task : TaskRow) (h : r.Catalogued mac rows row)
      (htask : r.FirstTask row.id task) (hprofile : r.hasProfile task.profile = true) :
      Verdict r mac (.customFile (task.profile ++ ".ipxe"))
  | taskWithoutProfile (rows : List NodeRow) (row : NodeRow) (task : TaskRow)
      (h : r.Catalogued mac rows row) (htask : r.FirstTask row.id task)
      (hprofile : r.hasProfile task.profile = false) : Verdict r mac .defaultFile
  | ownProfile (rows : List NodeRow) (row stored : NodeRow) (h : r.Catalogued mac rows row)
      (hnotask : ∀ task, ¬r.FirstTask row.id task)
      (hstored : rows.find? (fun other => other.id = row.id) = some stored)
      (hprofile : stored.profile ≠ "") : Verdict r mac .defaultFile
  | nothing (rows : List NodeRow) (row stored : NodeRow) (h : r.Catalogued mac rows row)
      (hnotask : ∀ task, ¬r.FirstTask row.id task)
      (hstored : rows.find? (fun other => other.id = row.id) = some stored)
      (hprofile : stored.profile = "") : Verdict r mac .ignore

/-- The table says something about every registry and hardware address. -/
theorem exists_verdict (r : Registry) (mac : String) : ∃ x, r.Verdict mac x := by
  cases hnodes : r.nodes with
  | error e => exact ⟨_, .unreadable e hnodes⟩
  | ok rows =>
    cases hfirst : NodeRow.firstEntered? mac rows with
    | none => exact ⟨_, .unknown rows hnodes hfirst⟩
    | some row =>
      cases hd : row.discovered with
      | false => exact ⟨_, .uncatalogued rows row hnodes hfirst hd⟩
      | true =>
        have hrow : r.Catalogued mac rows row := ⟨hnodes, hfirst, hd⟩
        by_cases htask : ∃ task, r.FirstTask row.id task
        · obtain ⟨task, htask⟩ := htask
          cases hprofile : r.hasProfile task.profile with
          | false => exact ⟨_, .taskWithoutProfile rows row task hrow htask hprofile⟩
          | true => exact ⟨_, .task rows row task hrow htask hprofile⟩
        · rw [not_exists] at htask
          have hmem : row ∈ rows := List.mem_of_find?_eq_some hfirst
          cases hstored : rows.find? (fun other => other.id = row.id) with
          | none => simpa using List.find?_eq_none.mp hstored row hmem
          | some stored =>
            by_cases hprofile : stored.profile = ""
            · exact ⟨_, .nothing rows row stored hrow htask hstored hprofile⟩
            · exact ⟨_, .ownProfile rows row stored hrow htask hstored hprofile⟩

/-! ## The answers of the registry -/

theorem nodeByMac_of_error {e : ServiceError} (h : r.nodes = .error e) :
    r.nodeByMac mac = .error e := by
  rw [nodeByMac, h]
  rfl

theorem nodeByMac_eq_firstEntered? (mac : String) (h : r.nodes = .ok rows) :
    r.nodeByMac mac =
      match NodeRow.firstEntered? (registryMac mac) rows with
      | some row => .ok row.node
      | none => .error (.notFound (registryMac mac)) := by
  have hfirst : NodeRow.firstNode? (fun row => row.mac = registryMac mac) rows =
      (NodeRow.firstEntered? (registryMac mac) rows).map NodeRow.node := by
    simp only [NodeRow.firstNode?_eq_find?, NodeRow.firstEntered?, decide_eq_true_eq]
  rw [nodeByMac, h]
  simp only [bind, Except.bind, hfirst]
  cases NodeRow.firstEntered? (registryMac mac) rows <;> rfl

theorem nodeById_eq_find? {id : NodeId} (hid : id ≠ "") (h : r.nodes = .ok rows) {stored : NodeRow}
    (hstored : rows.find? (fun other => other.id = id) = some stored) :
    r.nodeById id = .ok stored.node := by
  have hfits : (fun other : NodeRow => decide (other.id ≠ "" ∧ decide (other.id = id) = true)) =
      fun other => decide (other.id = id) := by
    funext other
    by_cases he : other.id = id
    · simp [he, hid]
    · simp [he]
  rw [nodeById, h]
  simp only [bind, Except.bind, NodeRow.firstNode?_eq_find?, hfits, hstored]
  rfl

theorem activeProfile_of_firstTask {id : NodeId} {task : TaskRow} (h : r.FirstTask id task) :
    r.activeProfile id = .ok task.profile := by
  obtain ⟨tasks, htasks, hfind⟩ := h
  rw [activeProfile, htasks]
  simp only [bind, Except.bind, hfind]
  rfl

theorem exists_error_of_no_task {id : NodeId} (h : ∀ task, ¬r.FirstTask id task) :
    ∃ e, r.activeProfile id = .error e := by
  unfold activeProfile
  cases htasks : r.tasks with
  | error e => exact ⟨e, rfl⟩
  | ok tasks =>
    cases hfind : tasks.find? (fun t => t.id = id) with
    | some task => exact absurd ⟨tasks, htasks, hfind⟩ (h task)
    | none =>
      simp only [bind, Except.bind, hfind]
      exact ⟨_, rfl⟩

/-! ## The decision -/

section Decision

open NetBoot.Decision

variable {now : Instant}

theorem goesOn_of_firstTask {id : NodeId} {task : TaskRow} (h : r.FirstTask id task) :
    GoesOn (r.services now) id := by
  left
  show (r.activeProfile id).map (fun _ => ()) = .ok ()
  rw [activeProfile_of_firstTask h]
  rfl

theorem bootProfile_of_firstTask {id : NodeId} {task : TaskRow} (h : r.FirstTask id task) :
    r.bootProfile id =
      if r.hasProfile task.profile then .ok (profileFile task.profile)
      else .error (.notFound s!"profile {task.profile}") := by
  rw [bootProfile, activeProfile_of_firstTask h]
  dsimp only [bind, Except.bind]
  rfl

theorem bootProfile_of_no_task {id : NodeId} (h : ∀ task, ¬r.FirstTask id task) :
    ∃ e, r.bootProfile id = .error e := by
  obtain ⟨e, he⟩ := exists_error_of_no_task h
  refine ⟨e, ?_⟩
  rw [bootProfile, he]
  rfl

/-- Without a task, a machine goes on exactly if the record under its identifier has a boot
profile. -/
theorem goesOn_iff_of_no_task {id : NodeId} (hid : id ≠ "") (h : r.nodes = .ok rows)
    (htask : ∀ task, ¬r.FirstTask id task) {stored : NodeRow}
    (hstored : rows.find? (fun other => other.id = id) = some stored) :
    GoesOn (r.services now) id ↔ stored.profile ≠ "" := by
  obtain ⟨e, he⟩ := exists_error_of_no_task htask
  have hactive : (r.services now).activeTask id = .error e := by
    show (r.activeProfile id).map (fun _ => ()) = .error e
    rw [he]
    rfl
  have hnode : (r.services now).nodeById id = .ok stored.node := nodeById_eq_find? hid h hstored
  rw [GoesOn, hactive, hnode, ← NodeRow.isSome_profile_node]
  simp

theorem nodeByMac_of_firstEntered? (h : r.nodes = .ok rows)
    (hfirst : NodeRow.firstEntered? (registryMac mac) rows = some row) :
    (r.services now).nodeByMac mac = .ok row.node := by
  show r.nodeByMac mac = _
  rw [nodeByMac_eq_firstEntered? mac h, hfirst]

theorem Catalogued.nodeByMac (h : r.Catalogued (registryMac mac) rows row) :
    (r.services now).nodeByMac mac = .ok row.node :=
  nodeByMac_of_firstEntered? h.nodes h.first

/-- With a task, the stages send the boot file of its profile, or the default file without that. -/
theorem Catalogued.run_of_firstTask {task : TaskRow} (h : r.Catalogued (registryMac mac) rows row)
    (htask : r.FirstTask row.id task) :
    (Decision.run (r.services now) mac {}).value.2 =
      if r.hasProfile task.profile then .customFile (profileFile task.profile)
      else .defaultFile := by
  rw [run_of_goesOn h.nodeByMac h.discovered (goesOn_of_firstTask htask)]
  show lastResolution (r.bootProfile row.id) = _
  rw [bootProfile_of_firstTask htask]
  split <;> rfl

/-- Without a task, the stages send the default file to a machine whose record has a boot profile,
and ignore any other one. -/
theorem Catalogued.run_of_no_task {stored : NodeRow} (h : r.Catalogued (registryMac mac) rows row)
    (htask : ∀ task, ¬r.FirstTask row.id task)
    (hstored : rows.find? (fun other => other.id = row.id) = some stored) :
    (Decision.run (r.services now) mac {}).value.2 =
      if stored.profile = "" then .ignore else .defaultFile := by
  have hid : row.id ≠ "" := NodeRow.id_ne_of_firstEntered? h.first
  have hgoes : GoesOn (r.services now) row.id ↔ stored.profile ≠ "" :=
    goesOn_iff_of_no_task hid h.nodes htask hstored
  by_cases hprofile : stored.profile = ""
  · rw [if_pos hprofile]
    exact run_of_not_goesOn h.nodeByMac h.discovered fun hgo => hgoes.mp hgo hprofile
  · obtain ⟨e, he⟩ := bootProfile_of_no_task htask
    rw [if_neg hprofile, run_of_goesOn h.nodeByMac h.discovered (hgoes.mpr hprofile)]
    show lastResolution (r.bootProfile row.id) = _
    rw [he]
    rfl

/-- The verdict for the form of a hardware address that is compared is how the decision ends. -/
theorem run_of_verdict {x : Resolution} (h : r.Verdict (registryMac mac) x) :
    (Decision.run (r.services now) mac {}).value.2 = x := by
  cases h with
  | unreadable e h =>
    have hnode : (r.services now).nodeByMac mac = .error e := nodeByMac_of_error h
    rw [run_of_error hnode, isNotFound_of_readRows h]
    rfl
  | unknown rows h hnone =>
    have hnode : (r.services now).nodeByMac mac = .error (.notFound (registryMac mac)) := by
      show r.nodeByMac mac = _
      rw [nodeByMac_eq_firstEntered? mac h, hnone]
    rw [run_of_error hnode]
    rfl
  | uncatalogued rows row h hfirst hd =>
    exact run_of_uncatalogued (nodeByMac_of_firstEntered? h hfirst) hd
  | task rows row task h htask hprofile =>
    rw [h.run_of_firstTask htask, if_pos hprofile]
    rfl
  | taskWithoutProfile rows row task h htask hprofile =>
    rw [h.run_of_firstTask htask, hprofile]
    rfl
  | ownProfile rows row stored h hnotask hstored hprofile =>
    rw [h.run_of_no_task hnotask hstored, if_neg hprofile]
  | nothing rows row stored h hnotask hstored hprofile =>
    rw [h.run_of_no_task hnotask hstored, if_pos hprofile]

end Decision

/-! ## Observations -/

/-- The second registry has the tables of the first one without the observations of machines that
nobody has entered, and the same boot profiles. -/
structure DropsObservations (r s : Registry) : Prop where
  nodes : s.nodes = r.nodes.map (·.filter fun row => row.id ≠ "")
  tasks : s.tasks = r.tasks
  profiles : ∀ profile, s.hasProfile profile = r.hasProfile profile

section Observations

variable {s : Registry} (h : r.DropsObservations s)

include h

theorem DropsObservations.nodes_of_ok (hnodes : r.nodes = .ok rows) :
    s.nodes = .ok (rows.filter fun row => row.id ≠ "") := by
  rw [h.nodes, hnodes]
  rfl

theorem DropsObservations.catalogued (hrow : r.Catalogued mac rows row) :
    s.Catalogued mac (rows.filter fun row => row.id ≠ "") row where
  nodes := h.nodes_of_ok hrow.nodes
  first := (NodeRow.firstEntered?_filter mac rows).trans hrow.first
  discovered := hrow.discovered

theorem DropsObservations.firstTask_iff {id : NodeId} {task : TaskRow} :
    s.FirstTask id task ↔ r.FirstTask id task := by
  rw [FirstTask, FirstTask, h.tasks]

theorem DropsObservations.verdict {x : Resolution} (hx : r.Verdict mac x) : s.Verdict mac x := by
  cases hx with
  | unreadable e he =>
    refine .unreadable e ?_
    rw [h.nodes, he]
    rfl
  | unknown rows hnodes hnone =>
    exact .unknown _ (h.nodes_of_ok hnodes) ((NodeRow.firstEntered?_filter mac rows).trans hnone)
  | uncatalogued rows row hnodes hfirst hd =>
    exact .uncatalogued _ row (h.nodes_of_ok hnodes)
      ((NodeRow.firstEntered?_filter mac rows).trans hfirst) hd
  | task rows row task hrow htask hprofile =>
    exact .task _ row task (h.catalogued hrow) (h.firstTask_iff.mpr htask)
      ((h.profiles _).trans hprofile)
  | taskWithoutProfile rows row task hrow htask hprofile =>
    exact .taskWithoutProfile _ row task (h.catalogued hrow) (h.firstTask_iff.mpr htask)
      ((h.profiles _).trans hprofile)
  | ownProfile rows row stored hrow hnotask hstored hprofile =>
    have hid : row.id ≠ "" := NodeRow.id_ne_of_firstEntered? hrow.first
    exact .ownProfile _ row stored (h.catalogued hrow)
      (fun task ht => hnotask task (h.firstTask_iff.mp ht))
      ((NodeRow.find?_id_filter hid rows).trans hstored) hprofile
  | nothing rows row stored hrow hnotask hstored hprofile =>
    have hid : row.id ≠ "" := NodeRow.id_ne_of_firstEntered? hrow.first
    exact .nothing _ row stored (h.catalogued hrow)
      (fun task ht => hnotask task (h.firstTask_iff.mp ht))
      ((NodeRow.find?_id_filter hid rows).trans hstored) hprofile

end Observations

/-- The decision for a client with a canonical hardware address, taken by the registry alone, ends
as its tables have it. So a boot file of its own is only offered to a machine with a task, and
observations play no part. -/
theorem tables_decide {m : Message} (hmac : m.chaddr.IsCanonical) (r : Registry) (now : Instant) :
    (∀ x, (Decision.run (r.services now) m.chaddr.text {}).value.2 = x ↔
      r.Verdict m.chaddr.text x) ∧
    (∀ name, (Decision.run (r.services now) m.chaddr.text {}).value.2 = .customFile name →
      ∃ rows row task, r.Catalogued m.chaddr.text rows row ∧ r.FirstTask row.id task ∧
        name = task.profile ++ ".ipxe") ∧
    ∀ s, r.DropsObservations s →
      (Decision.run (s.services now) m.chaddr.text {}).value.2 =
        (Decision.run (r.services now) m.chaddr.text {}).value.2 := by
  obtain ⟨bs, _, htext⟩ := hmac
  have hform : registryMac m.chaddr.text = m.chaddr.text := by
    rw [htext]
    exact registryMac_of_isMacText (isMacText_colonHex bs)
  have hrun : ∀ (s : Registry) {x : Resolution}, s.Verdict m.chaddr.text x →
      (Decision.run (s.services now) m.chaddr.text {}).value.2 = x := by
    intro s x hx
    rw [← hform] at hx
    exact run_of_verdict hx
  obtain ⟨x, hx⟩ := exists_verdict r m.chaddr.text
  rw [hrun r hx]
  refine ⟨fun y => ⟨fun h => h ▸ hx, fun hy => ?_⟩, ?_, ?_⟩
  · rw [← hrun r hx, hrun r hy]
  · rintro name rfl
    cases hx with
    | task rows row task hrow htask _ => exact ⟨rows, row, task, hrow, htask, rfl⟩
  · intro s hs
    exact hrun s (hs.verdict hx)

/-- The rows of a machine that was seen before it was entered, and of a second machine that was
entered with its hardware address. -/
def shelfRows : List NodeRow :=
  [⟨"", "00:00:00:00:00:0a", false, "", some ⟨10, 1, 1, 9⟩, ⟨1429565092, 0⟩⟩,
    ⟨"n1", "00:00:00:00:00:0a", true, "", none, ⟨1429565092, 0⟩⟩,
    ⟨"n2", "00:00:00:00:00:0a", false, "rescue", none, ⟨1429565092, 0⟩⟩]

/-- A registry with these rows, two tasks of the machine, and the boot profile of the first one. -/
def shelfRegistry : Registry where
  home := ["data"]
  volume :=
    ⟨[(["data"], .folder), (["data", "profiles"], .folder),
      (["data", "profiles", "rocky.ipxe"], .file []),
      (["data", "tasks.txt"], .file (utf8 "n1,rocky\nn1,debian\n")),
      (["data", "nodes.txt"], .file (utf8
        (",00:00:00:00:00:0a,false,,10.1.1.9,2015-04-20T21:24:52Z\n\n" ++
          " n1, 00:00:00:00:00:0A ,true,,,2015-04-20T23:24:52+02:00\n" ++
          "n2,00:00:00:00:00:0a,false,rescue,,2015-04-20T21:24:52Z\n")))]⟩

theorem observed_machine_boots_its_task :
    (Message.request 1 [0, 0, 0, 0, 0, 0x0a]).chaddr.IsCanonical ∧
      shelfRegistry.nodes = .ok shelfRows ∧
      (Decision.run (shelfRegistry.services ⟨0, 0⟩)
        (Message.request 1 [0, 0, 0, 0, 0, 0x0a]).chaddr.text {}).value.2 =
          .customFile "rocky.ipxe" := by
  have hmac : (Message.request 1 [0, 0, 0, 0, 0, 0x0a]).chaddr.IsCanonical :=
    HardwareAddress.isCanonical_ofBytes _ _
  have hnodes : shelfRegistry.nodes = .ok shelfRows := by decide +kernel
  have hrow : shelfRegistry.Catalogued (Message.request 1 [0, 0, 0, 0, 0, 0x0a]).chaddr.text
      shelfRows ⟨"n1", "00:00:00:00:00:0a", true, "", none, ⟨1429565092, 0⟩⟩ :=
    ⟨hnodes, by decide +kernel, rfl⟩
  have htask : shelfRegistry.FirstTask "n1" ⟨"n1", "rocky"⟩ :=
    ⟨[⟨"n1", "rocky"⟩, ⟨"n1", "debian"⟩], by decide +kernel, by decide +kernel⟩
  have hverdict := Verdict.task shelfRows _ _ hrow htask (by decide +kernel)
  obtain ⟨hdecides, _⟩ := tables_decide hmac shelfRegistry ⟨0, 0⟩
  exact ⟨hmac, hnodes, (hdecides _).mpr hverdict⟩

end Registry

end NetBoot
