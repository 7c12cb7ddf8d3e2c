-- The check before a decision and the stages of the decision are two procedures over the same
-- services. They agree on who gets a boot file, but for one case: a task without a boot file.
import NetBoot.Boot.Responder

namespace NetBoot

namespace Decision

variable {s : Services} {mac : String} {node : Node}

/-! ## The stages as a table -/

/-- A stage that hands a machine on leaves the rest of the decision to the stages after it. -/
theorem runStages_of_next {c c' : Context} {stage : Stage} {rest : List Stage} {id : NodeId}
    (h : (stage.run s mac c).value = (c', .next id)) :
    (runStages s mac c (stage :: rest)).value =
      (runStages s mac { c' with node := some id } rest).value := by
  rw [runStages, Asked.value_bind, h]

theorem runStages_of_done {c c' : Context} {stage : Stage} {rest : List Stage} {r : Resolution}
    (h : (stage.run s mac c).value = (c', .done r)) :
    (runStages s mac c (stage :: rest)).value = (c', r) := by
  rw [runStages, Asked.value_bind, h]
  rfl

theorem run_of_error {e : ServiceError} (h : s.nodeByMac mac = .error e) :
    (run s mac {}).value.2 = if e.isNotFound then .discover else .ignore := by
  have hfirst : (Stage.run s mac {} .resolveNode).value =
      ({}, .done (if e.isNotFound then .discover else .ignore)) := by
    simp [Stage.run, Stage.runResolveNode, Services.askNodeByMac, h]
  rw [run, Stage.order, runStages_of_done hfirst]

theorem run_of_uncatalogued (h : s.nodeByMac mac = .ok node) (hd : node.discovered = false) :
    (run s mac {}).value.2 = .discover := by
  have hfirst : (Stage.run s mac {} .resolveNode).value = ({}, .done .discover) := by
    simp [Stage.run, Stage.runResolveNode, Services.askNodeByMac, h, hd]
  rw [run, Stage.order, runStages_of_done hfirst]

/-- How the last stage ends the decision. -/
def lastResolution : Except ServiceError String → Resolution
  | .ok name => .customFile name
  | .error _ => .defaultFile

theorem lastResolution_ne_ignore (answer : Except ServiceError String) :
    lastResolution answer ≠ .ignore := by
  cases answer <;> simp [lastResolution]

/-- The second stage hands on a machine with an active task, and without one it hands on a machine
with a boot profile of its own. -/
def GoesOn (s : Services) (id : NodeId) : Prop :=
  s.activeTask id = .ok () ∨ ∃ stored, s.nodeById id = .ok stored ∧ stored.profile.isSome = true

theorem runKnownNode_of_goesOn {id : NodeId} (h : GoesOn s id) :
    (Stage.runKnownNode s ⟨some id, true⟩).value = .next id := by
  rcases ht : s.activeTask id with e | ⟨⟩
  · rcases h with h | ⟨stored, hstored, hprofile⟩
    · rw [ht] at h
      cases h
    · simp [Stage.runKnownNode, Services.askActiveTask, Services.askNodeById, ht, hstored, hprofile]
  · simp [Stage.runKnownNode, Services.askActiveTask, ht]

theorem runKnownNode_of_not_goesOn {id : NodeId} (h : ¬GoesOn s id) :
    (Stage.runKnownNode s ⟨some id, true⟩).value = .done .ignore := by
  rcases ht : s.activeTask id with e | ⟨⟩
  · rcases hb : s.nodeById id with e' | stored
    · simp [Stage.runKnownNode, Services.askActiveTask, Services.askNodeById, ht, hb]
    · have hnone : ¬stored.profile.isSome = true := fun hp => h (Or.inr ⟨stored, hb, hp⟩)
      simp [Stage.runKnownNode, Services.askActiveTask, Services.askNodeById, ht, hb, hnone]
  · exact absurd (Or.inl ht) h

section Catalogued

variable (h : s.nodeByMac mac = .ok node) (hd : node.discovered = true)

include h hd

theorem run_of_catalogued :
    (run s mac {}).value =
      (runStages s mac ⟨some node.id, true⟩ [.knownNode, .taskFile]).value := by
  have hfirst : (Stage.run s mac {} .resolveNode).value = (⟨none, true⟩, .next node.id) := by
    simp [Stage.run, Stage.runResolveNode, Services.askNodeByMac, h, hd]
  rw [run, Stage.order, runStages_of_next hfirst]

theorem run_of_goesOn (hgo : GoesOn s node.id) :
    (run s mac {}).value.2 = lastResolution (s.bootProfile node.id) := by
  have hsecond : (Stage.run s mac ⟨some node.id, true⟩ .knownNode).value =
      (⟨some node.id, true⟩, .next node.id) := by
    rw [Stage.run, Asked.value_bind, runKnownNode_of_goesOn hgo]
    rfl
  have hthird : (Stage.run s mac ⟨some node.id, true⟩ .taskFile).value =
      (⟨some node.id, true⟩, .done (lastResolution (s.bootProfile node.id))) := by
    cases hb : s.bootProfile node.id <;>
      simp [Stage.run, Stage.runTaskFile, Services.askBootProfile, lastResolution, hb]
  rw [run_of_catalogued h hd, runStages_of_next hsecond, runStages_of_done hthird]

theorem run_of_not_goesOn (hgo : ¬GoesOn s node.id) : (run s mac {}).value.2 = .ignore := by
  have hsecond : (Stage.run s mac ⟨some node.id, true⟩ .knownNode).value =
      (⟨some node.id, true⟩, .done .ignore) := by
    rw [Stage.run, Asked.value_bind, runKnownNode_of_not_goesOn hgo]
    rfl
  rw [run_of_catalogued h hd, runStages_of_done hsecond]

/-! ## The check as a table -/

theorem isWarranted_of_task (ht : s.activeTask node.id = .ok ()) :
    (isWarranted s mac).value = (s.bootProfile node.id).isOk := by
  cases hb : s.bootProfile node.id <;>
    simp [isWarranted, Services.askNodeByMac, Services.askActiveTask, Services.askBootProfile, h,
      hd, ht, hb, Except.isOk, Except.toBool]

theorem isWarranted_of_no_task {e : ServiceError} (ht : s.activeTask node.id = .error e) :
    (isWarranted s mac).value = node.profile.isSome := by
  simp [isWarranted, Services.askNodeByMac, Services.askActiveTask, h, hd, ht]

end Catalogued

theorem isWarranted_of_error {e : ServiceError} (h : s.nodeByMac mac = .error e) :
    (isWarranted s mac).value = e.isNotFound := by
  simp [isWarranted, Services.askNodeByMac, h]

theorem isWarranted_of_uncatalogued (h : s.nodeByMac mac = .ok node)
    (hd : node.discovered = false) : (isWarranted s mac).value = true := by
  simp [isWarranted, Services.askNodeByMac, h, hd]

end Decision

/-! ## The agreement -/

namespace Services

/-- The machine that is looked up has a record under its identifier, which has a boot profile
exactly if the machine that was looked up has one. -/
def RecordsAgree (s : Services) (mac : String) : Prop :=
  ∀ node, s.nodeByMac mac = .ok node →
    ∃ stored, s.nodeById node.id = .ok stored ∧ stored.profile.isSome = node.profile.isSome

/-- The machine is catalogued and has an active task, and the boot file of the task cannot be
had. -/
def TaskLacksFile (s : Services) (mac : String) : Prop :=
  ∃ node, s.nodeByMac mac = .ok node ∧ node.discovered = true ∧
    s.activeTask node.id = .ok () ∧ ∃ e, s.bootProfile node.id = .error e

theorem RecordsAgree.goesOn_iff {s : Services} {mac : String} (h : s.RecordsAgree mac)
    {node : Node} (hnode : s.nodeByMac mac = .ok node) :
    Decision.GoesOn s node.id ↔ s.activeTask node.id = .ok () ∨ node.profile.isSome = true := by
  obtain ⟨stored, hstored, hprofile⟩ := h node hnode
  simp [Decision.GoesOn, hstored, hprofile]

end Services

namespace Decision

theorem run_of_taskLacksFile {s : Services} {mac : String} (h : s.TaskLacksFile mac) :
    (run s mac {}).value.2 = .defaultFile := by
  obtain ⟨node, hnode, hd, ht, e, he⟩ := h
  rw [run_of_goesOn hnode hd (Or.inl ht), he]
  rfl

/-- The check refuses a boot file where the stages ignore the client, and where a task lacks its
boot file. -/
theorem isWarranted_eq_false {s : Services} {mac : String} (h : s.RecordsAgree mac) :
    (isWarranted s mac).value = false ↔
      (run s mac {}).value.2 = .ignore ∨ s.TaskLacksFile mac := by
  rcases hnode : s.nodeByMac mac with e | node
  · have hlacks : ¬s.TaskLacksFile mac := by
      rintro ⟨node, hnode', _⟩
      rw [hnode] at hnode'
      cases hnode'
    rw [isWarranted_of_error hnode, run_of_error hnode]
    cases e.isNotFound <;> simp [hlacks]
  have hlacks : s.TaskLacksFile mac ↔ node.discovered = true ∧ s.activeTask node.id = .ok () ∧
      ∃ e, s.bootProfile node.id = .error e := by
    simp [Services.TaskLacksFile, hnode]
  rw [hlacks]
  cases hd : node.discovered with
  | false =>
    rw [isWarranted_of_uncatalogued hnode hd, run_of_uncatalogued hnode hd]
    simp
  | true =>
    have hgoesOn := h.goesOn_iff hnode
    rcases ht : s.activeTask node.id with e | ⟨⟩
    · rw [isWarranted_of_no_task hnode hd ht]
      by_cases hp : node.profile.isSome = true
      · have hgo : GoesOn s node.id := hgoesOn.mpr (Or.inr hp)
        simp [run_of_goesOn hnode hd hgo, lastResolution_ne_ignore, hp]
      · have hstop : ¬GoesOn s node.id := by
          rw [hgoesOn, ht]
          simp [hp]
        simpa [run_of_not_goesOn hnode hd hstop] using hp
    · have hgo : GoesOn s node.id := Or.inl ht
      rw [isWarranted_of_task hnode hd ht, run_of_goesOn hnode hd hgo]
      rcases hb : s.bootProfile node.id with e | name
      · simp [Except.isOk, Except.toBool]
      · simp [Except.isOk, Except.toBool, lastResolution]

end Decision

/-- Where the records agree, the check refuses a boot file exactly if the stages ignore the client
or a task lacks its boot file, for which the stages send the default file. So whoever gets a boot
file by the check gets one by the stages. -/
theorem check_agrees_with_stages {s : Services} {m : Message} (h : s.RecordsAgree m.chaddr.text) :
    ((Decision.isWarranted s m.chaddr.text).value = false ↔
      (Decision.run s m.chaddr.text {}).value.2 = .ignore ∨ s.TaskLacksFile m.chaddr.text) ∧
    (s.TaskLacksFile m.chaddr.text →
      (Decision.run s m.chaddr.text {}).value.2 = .defaultFile) ∧
    ∀ (r : Responder) (name : String),
      (Responder.decide { r with checkFirst := true } s m).value = some name →
        ∃ other, (Responder.decide { r with checkFirst := false } s m).value = some other := by
  have hiff := Decision.isWarranted_eq_false h
  refine ⟨hiff, Decision.run_of_taskLacksFile, ?_⟩
  intro r name hname
  have hchecked : (Decision.isWarranted s m.chaddr.text).value = true ∧
      r.rules.bootFile? m = some name := by
    simpa [Responder.decide] using hname
  have hne : (Decision.run s m.chaddr.text {}).value.2 ≠ .ignore := by
    intro hignore
    rw [hiff.mpr (Or.inl hignore)] at hchecked
    simp at hchecked
  have hfile : ∃ other,
      (Decision.run s m.chaddr.text {}).value.2.bootFile? r.rules m = some other := by
    rcases hres : (Decision.run s m.chaddr.text {}).value.2 with _ | _ | custom | _
    · exact ⟨name, hchecked.2⟩
    · exact ⟨name, hchecked.2⟩
    · exact ⟨custom, rfl⟩
    · exact absurd hres hne
  simpa [Responder.decide] using hfile

/-- Services that know a catalogued machine with a boot profile, and with a task whose boot file is
not there. -/
def taskWithoutFile : Services where
  nodeByMac _ := .ok ⟨"n1", true, some "rescue"⟩
  activeTask _ := .ok ()
  bootProfile _ := .error (.unavailable "no route")
  nodeById _ := .ok ⟨"n1", false, some "other"⟩
  register _ _ := .ok .recorded

theorem check_refuses_task_without_file :
    taskWithoutFile.RecordsAgree (Message.request 1 [1]).chaddr.text ∧
      (Decision.isWarranted taskWithoutFile (Message.request 1 [1]).chaddr.text).value = false ∧
      (Decision.run taskWithoutFile (Message.request 1 [1]).chaddr.text {}).value.2 =
        .defaultFile := by
  have hagree : taskWithoutFile.RecordsAgree (Message.request 1 [1]).chaddr.text := by
    rintro node ⟨⟩
    exact ⟨⟨"n1", false, some "other"⟩, rfl, rfl⟩
  have hlacks : taskWithoutFile.TaskLacksFile (Message.request 1 [1]).chaddr.text :=
    ⟨_, rfl, rfl, rfl, _, rfl⟩
  obtain ⟨hiff, hdefault, _⟩ := check_agrees_with_stages hagree
  exact ⟨hagree, hiff.mpr (Or.inr hlacks), hdefault hlacks⟩

end NetBoot
