-- Answering a packet: read it, decide on the boot file, register the client's address, and build
-- the reply.
import NetBoot.Packet.Decode
import NetBoot.Boot.Decision
import NetBoot.Boot.Ack
import NetBoot.Settings

namespace NetBoot

/-- The parts that a request needs before it can be answered. -/
inductive RequestPart where
  | chaddr
  | ciaddr
deriving DecidableEq, Repr

def RequestPart.name : RequestPart → String
  | chaddr => "chaddr"
  | ciaddr => "ciaddr"

/-- Why a packet gets no reply, other than by decision. -/
inductive RespondError where
  | malformed (cause : DecodeError)
  | lacks (part : RequestPart)
  | unsendable (cause : EncodeError)
  | service (cause : ServiceError)
deriving DecidableEq, Repr

def RespondError.message : RespondError → String
  | malformed cause => s!"malformed packet: {cause.message}"
  | lacks part => s!"malformed packet: invalid {part.name}: missing"
  | unsendable cause => s!"failed to build reply: {cause.message}"
  | service cause => s!"collaborator failure: {cause.message}"

/-- What comes of a packet: the result, the questions asked and the addresses registered. -/
structure Response where
  result : Except RespondError (Option Ack)
  queries : List Query := []
  announcements : List Announcement := []

/-- How packets are answered. -/
structure Responder where
  rules : BootRules
  /-- The address that replies name as the server to load from. -/
  gateway : Ipv4
  /-- Whether a client gets the default boot file if one is warranted. Otherwise the stages
  decide. -/
  checkFirst : Bool
deriving DecidableEq, Repr

namespace Responder

def ofSettings (c : Settings) : Responder where
  rules := ⟨c.userClass, c.apiHost, c.apiPort⟩
  gateway := c.gateway
  checkFirst := c.checkFirst

/-- The boot file for a client, if it gets one. -/
def decide (r : Responder) (s : Services) (m : Message) : Asked (Option String) := do
  if r.checkFirst then
    return if ← Decision.isWarranted s m.chaddr.text then r.rules.bootFile? m else none
  else
    let (_, resolution) ← Decision.run s m.chaddr.text {}
    return resolution.bootFile? r.rules m

/-- The reply to a client that has been registered with this answer. -/
def replyTo (r : Responder) (m : Message) (registered : Except ServiceError Registration)
    (bootFile : Option String) : Except RespondError (Option Ack) :=
  match registered, bootFile with
  | .error e, _ => .error (.service e)
  | .ok .suppressed, _ => .ok none
  | .ok .recorded, none => .ok none
  | .ok .recorded, some name =>
    match m.ack name r.gateway with
    | .ok ack => .ok (some ack)
    | .error e => .error (.unsendable e)

/-- Answers a request. The client's address is registered whatever is decided. -/
def respondToRequest (r : Responder) (s : Services) (m : Message) : Response :=
  if m.chaddr.text = "" then { result := .error (.lacks .chaddr) }
  else
    match m.ciaddr with
    | none => { result := .error (.lacks .ciaddr) }
    | some ip =>
      let decision := r.decide s m
      { result := r.replyTo m (s.register ip m.chaddr.text) decision.value
        queries := decision.queries
        announcements := [⟨ip, m.chaddr.text⟩] }

/-- Answers a packet. Only a request gets a reply. -/
def respond (r : Responder) (s : Services) (packet : Bytes) : Response :=
  match Message.decode packet with
  | .error e => { result := .error (.malformed e) }
  | .ok m => if m.isRequest then r.respondToRequest s m else { result := .ok none }

end Responder

/-- The reply that is sent. Errors are not told to the network. -/
def Response.reply (r : Response) : Option Ack :=
  match r.result with
  | .ok ack => ack
  | .error _ => none

end NetBoot
