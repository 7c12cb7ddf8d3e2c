-- What comes of every packet: the result, the questions that the services are asked, and the
-- address that is registered.
import NetBoot.Proofs.Boot.Agreement
import NetBoot.Proofs.Boot.Reply

namespace NetBoot

/-! ## The questions of a decision -/

/-- What is asked about a hardware address after it was looked up: nothing if no machine was found,
and else these questions about that machine. -/
def Services.questionsAbout (s : Services) (mac : String) : List Query :=
  match s.nodeByMac mac with
  | .ok node => [.activeTask node.id, .nodeById node.id, .bootProfile node.id]
  | .error _ => []

/-- The hardware address is looked up once, and then each question about the machine that was found
is asked at most once. -/
def Services.AskedOnce (s : Services) (mac : String) (queries : List Query) : Prop :=
  ∃ rest, queries = .nodeByMac mac :: rest ∧ rest.Sublist (s.questionsAbout mac)

namespace Decision

variable {s : Services} {mac : String}

/-- What a stage may ask about a machine that was found. -/
def stageQuestions (id : NodeId) : Stage → List Query
  | .resolveNode => []
  | .knownNode => [.activeTask id, .nodeById id]
  | .taskFile => [.bootProfile id]

theorem queries_runKnownNode (id : NodeId) (discovered : Bool) :
    (Stage.runKnownNode s ⟨some id, discovered⟩).queries.Sublist [.activeTask id, .nodeById id] := by
  cases discovered with
  | false => simp [Stage.runKnownNode]
  | true =>
    rcases ht : s.activeTask id with e | ⟨⟩
    · rcases hb : s.nodeById id with e' | stored <;>
        simp [Stage.runKnownNode, Services.askActiveTask, Services.askNodeById, ht, hb]
    · simp [Stage.runKnownNode, Services.askActiveTask, ht]

/-- The second stage hands on the machine that it was given. -/
theorem runKnownNode_next {id next : NodeId} {discovered : Bool}
    (h : (Stage.runKnownNode s ⟨some id, discovered⟩).value = .next next) : next = id := by
  cases discovered with
  | false => simp [Stage.runKnownNode] at h
  | true =>
    by_cases hgo : GoesOn s id
    · rw [runKnownNode_of_goesOn hgo] at h
      cases h
      rfl
    · rw [runKnownNode_of_not_goesOn hgo] at h
      cases h

/-- A stage after the first asks its own questions about the machine in the context, and hands on
that machine. -/
theorem run_stage_about (s : Services) (mac : String) (id : NodeId) (discovered : Bool)
    {stage : Stage} (hstage : stage ≠ .resolveNode) :
    (stage.run s mac ⟨some id, discovered⟩).queries.Sublist (stageQuestions id stage) ∧
      ∀ c next, (stage.run s mac ⟨some id, discovered⟩).value = (c, .next next) → next = id := by
  cases stage with
  | resolveNode => exact absurd rfl hstage
  | knownNode =>
    refine ⟨?_, ?_⟩
    · simpa [Stage.run, stageQuestions] using queries_runKnownNode id discovered
    · intro c next h
      simp only [Stage.run, Asked.value_bind, Asked.value_pure, Prod.mk.injEq] at h
      exact runKnownNode_next h.2
  | taskFile =>
    cases hb : s.bootProfile id <;>
      simp [Stage.run, Stage.runTaskFile, Services.askBootProfile, hb, stageQuestions]

/-- Stages after the first ask about the machine in the context only, each stage once. -/
theorem queries_runStages {id : NodeId} {discovered : Bool} {stages : List Stage}
    (hstages : .resolveNode ∉ stages) :
    (runStages s mac ⟨some id, discovered⟩ stages).queries.Sublist
      (stages.flatMap (stageQuestions id)) := by
  induction stages generalizing discovered with
  | nil => exact List.Sublist.refl []
  | cons stage rest ih =>
    rw [List.mem_cons, not_or] at hstages
    obtain ⟨hasked, hnext⟩ := run_stage_about s mac id discovered (Ne.symm hstages.1)
    rw [runStages, Asked.queries_bind, List.flatMap_cons]
    apply List.Sublist.append hasked
    rcases hvalue : (stage.run s mac ⟨some id, discovered⟩).value with ⟨c, next | resolution⟩
    · obtain rfl := hnext c next hvalue
      exact ih hstages.2
    · exact List.nil_sublist _

theorem askedOnce_run : s.AskedOnce mac (run s mac {}).queries := by
  unfold Services.AskedOnce Services.questionsAbout run Stage.order
  rw [runStages, Asked.queries_bind]
  rcases hnode : s.nodeByMac mac with e | node
  · refine ⟨[], ?_, List.Sublist.refl []⟩
    simp [Stage.run, Stage.runResolveNode, Services.askNodeByMac, hnode]
  · cases hd : node.discovered with
    | false =>
      refine ⟨[], ?_, List.nil_sublist _⟩
      simp [Stage.run, Stage.runResolveNode, Services.askNodeByMac, hnode, hd]
    | true =>
      refine ⟨(runStages s mac ⟨some node.id, true⟩ [.knownNode, .taskFile]).queries, ?_, ?_⟩
      · simp [Stage.run, Stage.runResolveNode, Services.askNodeByMac, hnode, hd]
      · exact queries_runStages (by decide)

theorem askedOnce_isWarranted : s.AskedOnce mac (isWarranted s mac).queries := by
  unfold Services.AskedOnce Services.questionsAbout
  rcases hnode : s.nodeByMac mac with e | node
  · exact ⟨[], by simp [isWarranted, Services.askNodeByMac, hnode], List.Sublist.refl []⟩
  · cases hd : node.discovered with
    | false =>
      exact ⟨[], by simp [isWarranted, Services.askNodeByMac, hnode, hd], List.nil_sublist _⟩
    | true =>
      rcases ht : s.activeTask node.id with e | ⟨⟩
      · refine ⟨[.activeTask node.id], ?_, by simp⟩
        simp [isWarranted, Services.askNodeByMac, Services.askActiveTask, hnode, hd, ht]
      · refine ⟨[.activeTask node.id, .bootProfile node.id], ?_, by simp⟩
        cases hb : s.bootProfile node.id <;>
          simp [isWarranted, Services.askNodeByMac, Services.askActiveTask, Services.askBootProfile,
            hnode, hd, ht, hb]

end Decision

/-! ## The outcome -/

namespace Responder

variable {r : Responder} {s : Services} {m : Message}

theorem askedOnce_decide : s.AskedOnce m.chaddr.text (r.decide s m).queries := by
  unfold decide
  cases r.checkFirst with
  | false => simpa using Decision.askedOnce_run
  | true => simpa using Decision.askedOnce_isWarranted

/-- What comes of a request from a client with both its addresses. -/
structure Serves (r : Responder) (s : Services) (m : Message) (ip : Ipv4) (response : Response) :
    Prop where
  /-- The address is registered once, whatever is decided. -/
  registered : response.announcements = [⟨ip, m.chaddr.text⟩]
  asked : s.AskedOnce m.chaddr.text response.queries
  /-- Of the services only the registration can fail the request. -/
  failed : ∀ e, response.result = .error (.service e) ↔ s.register ip m.chaddr.text = .error e
  suppressed : s.register ip m.chaddr.text = .ok .suppressed → response.result = .ok none
  ignored : s.register ip m.chaddr.text = .ok .recorded → (r.decide s m).value = none →
    response.result = .ok none
  answered : ∀ name, s.register ip m.chaddr.text = .ok .recorded →
    (r.decide s m).value = some name →
      response.result = ((m.ack name r.gateway).map some).mapError .unsendable

theorem replyTo_recorded (name : String) :
    r.replyTo m (.ok .recorded) (some name) =
      ((m.ack name r.gateway).map some).mapError .unsendable := by
  cases h : m.ack name r.gateway <;> simp [replyTo, h, Except.map, Except.mapError]

/-- The reply fails with a failure of a service exactly if the registration failed so. -/
theorem replyTo_eq_service {registered : Except ServiceError Registration}
    {bootFile : Option String} {e : ServiceError} :
    r.replyTo m registered bootFile = .error (.service e) ↔ registered = .error e := by
  rcases registered with e' | _ | _
  · simp [replyTo]
  · cases bootFile with
    | none => simp [replyTo]
    | some name =>
      rw [replyTo_recorded]
      cases m.ack name r.gateway <;> simp [Except.map, Except.mapError]
  · simp [replyTo]

theorem serves_respondToRequest {ip : Ipv4} (htext : m.chaddr.text ≠ "")
    (hip : m.ciaddr = some ip) : r.Serves s m ip (r.respondToRequest s m) := by
  unfold respondToRequest
  rw [if_neg htext, hip]
  dsimp only
  constructor
  case registered => rfl
  case asked => exact askedOnce_decide
  case failed => exact fun e => replyTo_eq_service
  case suppressed =>
    intro hregister
    rw [hregister]
    rfl
  case ignored =>
    intro hregister hdecide
    rw [hregister, hdecide]
    rfl
  case answered =>
    intro name hregister hdecide
    rw [hregister, hdecide]
    exact replyTo_recorded name

end Responder

/-- The hardware address of a message that was read is empty exactly if the packet gives it no
length. -/
theorem Message.IsRead.text_eq_empty (h : Message.IsRead m) : m.chaddr.text = "" ↔ m.hlen = 0 := by
  obtain ⟨bs, hlen, htext⟩ := h.chaddr
  rw [htext, ← String.toList_inj, String.toList_ofList, String.toList_empty, Text.colonHex_eq_nil,
    ← List.length_eq_zero_iff, hlen, ← UInt8.toNat_inj]
  rfl

/-- A packet that is malformed, no request, or a request without one of its addresses touches no
service. Every other request registers its address once, asks each question at most once and only
about the machine that was looked up, and fails with a service only where the registration does;
else its result is what was decided. -/
theorem outcome_of_every_packet (r : Responder) (s : Services) (packet : Bytes) :
    (∀ e, Message.decode packet = .error e →
      r.respond s packet = ⟨.error (.malformed e), [], []⟩) ∧
    ∀ m, Message.decode packet = .ok m →
      (m.op ≠ some .request → r.respond s packet = ⟨.ok none, [], []⟩) ∧
      (m.op = some .request → m.hlen = 0 →
        r.respond s packet = ⟨.error (.lacks .chaddr), [], []⟩) ∧
      (m.op = some .request → m.hlen ≠ 0 → m.ciaddr = none →
        r.respond s packet = ⟨.error (.lacks .ciaddr), [], []⟩) ∧
      ∀ ip, m.op = some .request → m.hlen ≠ 0 → m.ciaddr = some ip →
        r.Serves s m ip (r.respond s packet) := by
  refine ⟨?_, ?_⟩
  · intro e hread
    rw [Responder.respond, hread]
  intro m hread
  have hempty := (Message.isRead_of_decode hread).text_eq_empty
  have hrequest : m.op = some .request → r.respond s packet = r.respondToRequest s m := by
    intro hop
    have hyes : m.isRequest = true := by simpa [Message.isRequest] using hop
    unfold Responder.respond
    rw [hread]
    exact if_pos hyes
  refine ⟨Responder.respond_of_not_request hread, ?_, ?_, ?_⟩
  · intro hop hzero
    rw [hrequest hop, Responder.respondToRequest, if_pos (hempty.mpr hzero)]
  · intro hop hlen hnone
    rw [hrequest hop, Responder.respondToRequest, if_neg (mt hempty.mp hlen), hnone]
  · intro ip hop hlen hip
    rw [hrequest hop]
    exact Responder.serves_respondToRequest (mt hempty.mp hlen) hip

/-- Services of which only the registration works. -/
def onlyRegistration : Services where
  nodeByMac _ := .error (.unavailable "no route")
  activeTask _ := .error (.unavailable "no route")
  bootProfile _ := .error (.unavailable "no route")
  nodeById _ := .error (.unavailable "no route")
  register _ _ := .ok .recorded

/-- A client that cannot be looked up is registered and gets no answer. -/
theorem registered_without_answer :
    Message.decode efiRequestPacket = .ok efiRequest ∧
      (labResponder.respond onlyRegistration efiRequestPacket).announcements =
        [⟨⟨10, 1, 1, 50⟩, "08:00:27:9b:d9:be"⟩] ∧
      (labResponder.respond onlyRegistration efiRequestPacket).queries =
        [.nodeByMac "08:00:27:9b:d9:be"] ∧
      (labResponder.respond onlyRegistration efiRequestPacket).result = .ok none := by
  have hread : Message.decode efiRequestPacket = .ok efiRequest := by decide +kernel
  obtain ⟨_, hok⟩ := outcome_of_every_packet labResponder onlyRegistration efiRequestPacket
  have hserves := (hok efiRequest hread).2.2.2 ⟨10, 1, 1, 50⟩ (by decide) (by decide) (by decide)
  obtain ⟨rest, hqueries, hrest⟩ := hserves.asked
  have hnone : rest = [] := List.sublist_nil.mp hrest
  have htext : efiRequest.chaddr.text = "08:00:27:9b:d9:be" := by decide +kernel
  refine ⟨hread, ?_, ?_, ?_⟩
  · rw [hserves.registered, htext]
  · rw [hqueries, hnone, htext]
  · exact hserves.ignored rfl rfl

end NetBoot
