-- A run of the stages does not depend on what an earlier run left in its context. A stage after the
-- first starts only with the machine that was just looked up, so what the stages would do without
-- one never happens in a run.
import NetBoot.Proofs.Boot.Agreement

namespace NetBoot

/-- The look-up finds this machine, and it is catalogued. -/
def Services.Finds (s : Services) (mac : String) (node : Node) : Prop :=
  s.nodeByMac mac = .ok node ∧ node.discovered = true

/-- The context in which a machine that was found is handed on. -/
def Context.ofNode (node : Node) : Context := ⟨some node.id, true⟩

namespace Decision

variable {s : Services} {mac : String} {c here there : Context} {stage : Stage}
  {stages rest : List Stage} {id : NodeId} {resolution : Resolution} {node : Node}

/-! ## The points of a run -/

/-- A run of stages from a context comes to a point where it has this context, and these stages are
left. -/
inductive Reaches (s : Services) (mac : String) (c : Context) (stages : List Stage) :
    Context → List Stage → Prop
  | start : Reaches s mac c stages c stages
  | next {here there : Context} {stage : Stage} {rest : List Stage} {id : NodeId}
    (h : Reaches s mac c stages here (stage :: rest))
    (hnext : (stage.run s mac here).value = (there, .next id)) :
    Reaches s mac c stages { there with node := some id } rest

/-- From each point the run goes on to its own end. -/
theorem Reaches.value_eq (h : Reaches s mac c stages here rest) :
    (runStages s mac here rest).value = (runStages s mac c stages).value := by
  induction h with
  | start => rfl
  | next _ hnext ih => rw [← ih, runStages_of_next hnext]

/-- What is reached after the first stage is reached from the start. -/
theorem Reaches.of_next {later : List Stage} (hnext : (stage.run s mac c).value = (there, .next id))
    (h : Reaches s mac { there with node := some id } rest here later) :
    Reaches s mac c (stage :: rest) here later := by
  induction h with
  | start => exact .next .start hnext
  | next _ hstage ih => exact .next ih hstage

/-- A run is ended by a stage that it comes to, or it comes to the end of its stages. -/
theorem reaches_end (s : Services) (mac : String) (c : Context) (stages : List Stage) :
    (∃ here, Reaches s mac c stages here []) ∨
      ∃ here stage rest, Reaches s mac c stages here (stage :: rest) ∧
        (stage.run s mac here).value =
          ((runStages s mac c stages).value.1, .done (runStages s mac c stages).value.2) := by
  induction stages generalizing c with
  | nil => exact Or.inl ⟨c, .start⟩
  | cons stage rest ih =>
    rcases hvalue : (stage.run s mac c).value with ⟨there, id | resolution⟩
    · rw [runStages_of_next hvalue]
      rcases ih { there with node := some id } with ⟨here, hend⟩ | ⟨here, last, later, hend, hdone⟩
      · exact Or.inl ⟨here, hend.of_next hvalue⟩
      · exact Or.inr ⟨here, last, later, hend.of_next hvalue, hdone⟩
    · rw [runStages_of_done hvalue]
      exact Or.inr ⟨c, stage, rest, .start, hvalue⟩

/-! ## One stage -/

theorem run_resolveNode_of_finds (h : s.Finds mac node) (c : Context) :
    Stage.run s mac c .resolveNode =
      ⟨({ c with discovered := true }, .next node.id), [.nodeByMac mac]⟩ := by
  simp [Stage.run, Stage.runResolveNode, Services.askNodeByMac, Asked.ask, h.1, h.2, bind, pure]

/-- Where no catalogued machine is found, the first stage ends the decision. -/
theorem run_resolveNode_of_not_finds (h : ¬ ∃ node, s.Finds mac node) :
    ∃ resolution, ∀ c, Stage.run s mac c .resolveNode =
      ⟨(c, .done resolution), [.nodeByMac mac]⟩ := by
  rcases hnode : s.nodeByMac mac with e | node
  · refine ⟨if e.isNotFound then .discover else .ignore, fun c => ?_⟩
    simp [Stage.run, Stage.runResolveNode, Services.askNodeByMac, Asked.ask, hnode, bind, pure]
  · have hd : node.discovered = false := by
      rw [← Bool.not_eq_true]
      exact fun hd => h ⟨node, hnode, hd⟩
    refine ⟨.discover, fun c => ?_⟩
    simp [Stage.run, Stage.runResolveNode, Services.askNodeByMac, Asked.ask, hnode, hd, bind, pure]

theorem value_knownNode (s : Services) (mac : String) (c : Context) :
    (Stage.run s mac c .knownNode).value = (c, (Stage.runKnownNode s c).value) := rfl

/-- The second stage hands on the machine that it was given, or ends the decision. -/
theorem runKnownNode_cases (s : Services) (node : Node) :
    (Stage.runKnownNode s (.ofNode node)).value = .next node.id ∨
      (Stage.runKnownNode s (.ofNode node)).value = .done .ignore := by
  by_cases hgo : GoesOn s node.id
  · exact Or.inl (runKnownNode_of_goesOn hgo)
  · exact Or.inr (runKnownNode_of_not_goesOn hgo)

theorem queries_knownNode_of_task (h : s.activeTask node.id = .ok ()) :
    (Stage.run s mac (.ofNode node) .knownNode).queries = [.activeTask node.id] := by
  simp [Stage.run, Stage.runKnownNode, Services.askActiveTask, Context.ofNode, h]

theorem queries_knownNode_of_no_task {e : ServiceError} (h : s.activeTask node.id = .error e) :
    (Stage.run s mac (.ofNode node) .knownNode).queries =
      [.activeTask node.id, .nodeById node.id] := by
  rcases hstored : s.nodeById node.id with e' | stored <;>
    simp [Stage.run, Stage.runKnownNode, Services.askActiveTask, Services.askNodeById,
      Context.ofNode, h, hstored]

theorem run_taskFile (s : Services) (mac : String) (node : Node) :
    Stage.run s mac (.ofNode node) .taskFile =
      ⟨(.ofNode node, .done (lastResolution (s.bootProfile node.id))), [.bootProfile node.id]⟩ := by
  rcases hfile : s.bootProfile node.id with e | name <;>
    simp [Stage.run, Stage.runTaskFile, Services.askBootProfile, Asked.ask, Context.ofNode, hfile,
      lastResolution, bind, pure]

/-! ## The stages of a run -/

theorem runStages_eq_of_next (h : (stage.run s mac c).value = (there, .next id)) :
    runStages s mac c (stage :: rest) =
      ⟨(runStages s mac { there with node := some id } rest).value,
        (stage.run s mac c).queries ++
          (runStages s mac { there with node := some id } rest).queries⟩ := by
  simp [runStages, bind, h]

theorem runStages_eq_of_done (h : (stage.run s mac c).value = (there, .done resolution)) :
    runStages s mac c (stage :: rest) = ⟨(there, resolution), (stage.run s mac c).queries⟩ := by
  simp [runStages, bind, pure, h]

theorem run_of_not_finds (h : ¬ ∃ node, s.Finds mac node) :
    ∃ resolution, ∀ c, run s mac c = ⟨(c, resolution), [.nodeByMac mac]⟩ := by
  obtain ⟨resolution, hfirst⟩ := run_resolveNode_of_not_finds h
  refine ⟨resolution, fun c => ?_⟩
  rw [run, Stage.order, runStages_eq_of_done (congrArg Asked.value (hfirst c)), hfirst]

/-- After a machine was found, the context that the run began in plays no part. -/
theorem run_of_finds (h : s.Finds mac node) (c : Context) :
    run s mac c =
      ⟨(runStages s mac (.ofNode node) [.knownNode, .taskFile]).value,
        .nodeByMac mac :: (runStages s mac (.ofNode node) [.knownNode, .taskFile]).queries⟩ := by
  have hfirst := run_resolveNode_of_finds h c
  rw [run, Stage.order, runStages_eq_of_next (congrArg Asked.value hfirst), hfirst]
  rfl

theorem runStages_of_handed_on
    (h : (Stage.runKnownNode s (.ofNode node)).value = .next node.id) :
    runStages s mac (.ofNode node) [.knownNode, .taskFile] =
      ⟨(.ofNode node, lastResolution (s.bootProfile node.id)),
        (Stage.run s mac (.ofNode node) .knownNode).queries ++ [.bootProfile node.id]⟩ := by
  have hsecond : (Stage.run s mac (.ofNode node) .knownNode).value =
      (.ofNode node, .next node.id) := (value_knownNode s mac _).trans (by rw [h])
  have hthird := run_taskFile s mac node
  have hrest : runStages s mac { Context.ofNode node with node := some node.id } [.taskFile] =
      ⟨(.ofNode node, lastResolution (s.bootProfile node.id)), [.bootProfile node.id]⟩ :=
    (runStages_eq_of_done (congrArg Asked.value hthird)).trans (by rw [hthird])
  rw [runStages_eq_of_next hsecond, hrest]

theorem runStages_of_stopped
    (h : (Stage.runKnownNode s (.ofNode node)).value = .done .ignore) :
    runStages s mac (.ofNode node) [.knownNode, .taskFile] =
      ⟨(.ofNode node, .ignore), (Stage.run s mac (.ofNode node) .knownNode).queries⟩ :=
  runStages_eq_of_done ((value_knownNode s mac _).trans (by rw [h]))

/-- The stages after the first leave the context as they find it. -/
theorem context_of_finds (h : s.Finds mac node) (c : Context) :
    (run s mac c).value.1 = .ofNode node := by
  rw [run_of_finds h]
  rcases runKnownNode_cases s node with hnext | hdone
  · rw [runStages_of_handed_on hnext]
  · rw [runStages_of_stopped hdone]

/-- A run is at its start, or it has found a machine and one or two stages are left. -/
theorem Reaches.cases_order (h : Reaches s mac c Stage.order here rest) :
    (here = c ∧ rest = Stage.order) ∨
      ∃ node, s.Finds mac node ∧ here = .ofNode node ∧
        (rest = [.knownNode, .taskFile] ∨ rest = [.taskFile]) := by
  induction h with
  | start => exact Or.inl ⟨rfl, rfl⟩
  | next _ hnext ih =>
    right
    rcases ih with ⟨rfl, hrest⟩ | ⟨node, hnode, rfl, hrest | hrest⟩
    · obtain ⟨rfl, rfl⟩ := List.cons.inj hrest
      by_cases hfinds : ∃ node, s.Finds mac node
      · obtain ⟨node, hnode⟩ := hfinds
        rw [run_resolveNode_of_finds hnode] at hnext
        cases hnext
        exact ⟨node, hnode, rfl, Or.inl rfl⟩
      · obtain ⟨_, hrun⟩ := run_resolveNode_of_not_finds hfinds
        rw [hrun] at hnext
        cases hnext
    · obtain ⟨rfl, rfl⟩ := List.cons.inj hrest
      rw [value_knownNode] at hnext
      rcases runKnownNode_cases s node with hhands | hdone
      · rw [hhands] at hnext
        cases hnext
        exact ⟨node, hnode, rfl, Or.inr rfl⟩
      · rw [hdone] at hnext
        cases hnext
    · obtain ⟨rfl, rfl⟩ := List.cons.inj hrest
      rw [run_taskFile] at hnext
      cases hnext

/-! ## The questions of a run -/

/-- The questions of a run, in their order. After the look-up they are about the machine that was
found: whether it has a task, its record if that fails, and the boot file of its task if the second
stage hands it on. -/
inductive AsksInTurn (s : Services) (mac : String) : List Query → Prop
  | lookUp (h : ¬ ∃ node, s.Finds mac node) : AsksInTurn s mac [.nodeByMac mac]
  | task {node : Node} (hnode : s.Finds mac node) (htask : s.activeTask node.id = .ok ())
    (hstage : (Stage.runKnownNode s (.ofNode node)).value = .next node.id) :
    AsksInTurn s mac [.nodeByMac mac, .activeTask node.id, .bootProfile node.id]
  | record {node : Node} {e : ServiceError} (hnode : s.Finds mac node)
    (htask : s.activeTask node.id = .error e)
    (hstage : (Stage.runKnownNode s (.ofNode node)).value = .next node.id) :
    AsksInTurn s mac
      [.nodeByMac mac, .activeTask node.id, .nodeById node.id, .bootProfile node.id]
  | stopped {node : Node} {e : ServiceError} (hnode : s.Finds mac node)
    (htask : s.activeTask node.id = .error e)
    (hstage : (Stage.runKnownNode s (.ofNode node)).value = .done .ignore) :
    AsksInTurn s mac [.nodeByMac mac, .activeTask node.id, .nodeById node.id]

theorem asksInTurn_run (s : Services) (mac : String) (c : Context) :
    AsksInTurn s mac (run s mac c).queries := by
  by_cases hfinds : ∃ node, s.Finds mac node
  · obtain ⟨node, hnode⟩ := hfinds
    rw [run_of_finds hnode]
    rcases htask : s.activeTask node.id with e | ⟨⟩
    · rcases runKnownNode_cases s node with hnext | hdone
      · rw [runStages_of_handed_on hnext, queries_knownNode_of_no_task htask]
        exact .record hnode htask hnext
      · rw [runStages_of_stopped hdone, queries_knownNode_of_no_task htask]
        exact .stopped hnode htask hdone
    · have hnext : (Stage.runKnownNode s (.ofNode node)).value = .next node.id :=
        runKnownNode_of_goesOn (Or.inl htask)
      rw [runStages_of_handed_on hnext, queries_knownNode_of_task htask]
      exact .task hnode htask hnext
  · obtain ⟨_, hrun⟩ := run_of_not_finds hfinds
    rw [hrun]
    exact .lookUp hfinds

end Decision

open Decision

/-- A run ends in the same way, after the same questions in their turn, whatever context it is
given. It never comes to the second stage but with the machine that it looked up and found
catalogued, nor to the third; a stage ends it, not the end of the stages; and on its end the context
holds that machine, or is as it was given if none was found. -/
theorem leftovers_play_no_part (s : Services) (m : Message) (c : Context) :
    (∀ c', (Decision.run s m.chaddr.text c).value.2 = (Decision.run s m.chaddr.text c').value.2 ∧
      (Decision.run s m.chaddr.text c).queries = (Decision.run s m.chaddr.text c').queries) ∧
    AsksInTurn s m.chaddr.text (Decision.run s m.chaddr.text c).queries ∧
    (∀ here rest, Reaches s m.chaddr.text c Stage.order here rest →
      (runStages s m.chaddr.text here rest).value = (Decision.run s m.chaddr.text c).value ∧
      rest ≠ [] ∧
      ∀ stage later, rest = stage :: later → stage ≠ .resolveNode →
        ∃ node, s.Finds m.chaddr.text node ∧ here = ⟨some node.id, true⟩) ∧
    (∃ here stage rest, Reaches s m.chaddr.text c Stage.order here (stage :: rest) ∧
      (stage.run s m.chaddr.text here).value =
        ((Decision.run s m.chaddr.text c).value.1,
          .done (Decision.run s m.chaddr.text c).value.2)) ∧
    (∀ node, s.Finds m.chaddr.text node →
      (Decision.run s m.chaddr.text c).value.1 = ⟨some node.id, true⟩) ∧
    ((¬ ∃ node, s.Finds m.chaddr.text node) → (Decision.run s m.chaddr.text c).value.1 = c) := by
  generalize m.chaddr.text = mac
  have hpoints : ∀ here rest, Reaches s mac c Stage.order here rest → rest ≠ [] := by
    intro here rest h
    rcases h.cases_order with ⟨_, rfl⟩ | ⟨_, _, _, rfl | rfl⟩ <;> simp [Stage.order]
  refine ⟨?_, asksInTurn_run s mac c, ?_, ?_, fun node h => context_of_finds h c, ?_⟩
  · intro c'
    by_cases hfinds : ∃ node, s.Finds mac node
    · obtain ⟨node, hnode⟩ := hfinds
      rw [run_of_finds hnode c, run_of_finds hnode c']
      exact ⟨rfl, rfl⟩
    · obtain ⟨resolution, hrun⟩ := run_of_not_finds hfinds
      rw [hrun c, hrun c']
      exact ⟨rfl, rfl⟩
  · intro here rest h
    refine ⟨h.value_eq, hpoints here rest h, ?_⟩
    rintro stage later rfl hstage
    rcases h.cases_order with ⟨_, hrest⟩ | ⟨node, hnode, hhere, _⟩
    · exact absurd (List.cons.inj hrest).1 hstage
    · exact ⟨node, hnode, hhere⟩
  · rcases reaches_end s mac c Stage.order with ⟨here, hend⟩ | hend
    · exact absurd rfl (hpoints here [] hend)
    · exact hend
  · intro hfinds
    obtain ⟨_, hrun⟩ := run_of_not_finds hfinds
    rw [hrun]

/-- Services that know one machine, which is catalogued and has a boot profile of its own. -/
def oneMachine : Services where
  nodeByMac mac := if mac = "01" then .ok ⟨"n1", true, none⟩ else .error (.notFound mac)
  activeTask _ := .error (.unavailable "no route")
  bootProfile _ := .ok "rescue.ipxe"
  nodeById _ := .ok ⟨"n1", false, some "rescue"⟩
  register _ _ := .ok .recorded

/-- The machine takes the place of the one that the context held, which stays for a client that is
not known. -/
theorem leftover_machine_is_replaced :
    oneMachine.Finds (Message.request 1 [1]).chaddr.text ⟨"n1", true, none⟩ ∧
      (¬ ∃ node, oneMachine.Finds (Message.request 1 [2]).chaddr.text node) ∧
      Reaches oneMachine (Message.request 1 [1]).chaddr.text ⟨some "n0", false⟩ Stage.order
        ⟨some "n1", true⟩ [.knownNode, .taskFile] ∧
      (∃ node, oneMachine.Finds (Message.request 1 [1]).chaddr.text node ∧ node.id = "n1") ∧
      (Decision.run oneMachine (Message.request 1 [1]).chaddr.text ⟨some "n0", false⟩).value.1 =
        ⟨some "n1", true⟩ ∧
      (Decision.run oneMachine (Message.request 1 [2]).chaddr.text ⟨some "n0", false⟩).value.1 =
        ⟨some "n0", false⟩ := by
  have htext : (Message.request 1 [1]).chaddr.text = "01" := by decide +kernel
  have htext' : (Message.request 1 [2]).chaddr.text = "02" := by decide +kernel
  have hfinds : oneMachine.Finds (Message.request 1 [1]).chaddr.text ⟨"n1", true, none⟩ := by
    rw [htext]
    exact ⟨rfl, rfl⟩
  have hmisses : ¬ ∃ node, oneMachine.Finds (Message.request 1 [2]).chaddr.text node := by
    rw [htext']
    rintro ⟨node, hnode, _⟩
    cases hnode
  have hreaches : Reaches oneMachine (Message.request 1 [1]).chaddr.text ⟨some "n0", false⟩
      Stage.order ⟨some "n1", true⟩ [.knownNode, .taskFile] := by
    rw [htext]
    exact @Reaches.next _ _ _ _ _ ⟨some "n0", true⟩ .resolveNode _ "n1" .start rfl
  obtain ⟨_, _, hpoints, _, hfound, _⟩ :=
    leftovers_play_no_part oneMachine (Message.request 1 [1]) ⟨some "n0", false⟩
  obtain ⟨_, _, _, _, _, hkept⟩ :=
    leftovers_play_no_part oneMachine (Message.request 1 [2]) ⟨some "n0", false⟩
  obtain ⟨_, _, hstages⟩ := hpoints _ _ hreaches
  obtain ⟨node, hnode, hhere⟩ := hstages .knownNode [.taskFile] rfl (by decide)
  have hid : node.id = "n1" := (Option.some.inj (congrArg Context.node hhere)).symm
  exact ⟨hfinds, hmisses, hreaches, ⟨node, hnode, hid⟩, hfound _ hfinds, hkept hmisses⟩

end NetBoot
