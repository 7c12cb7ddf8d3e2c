-- A registry at work: it answers the questions of a responder, and hears of addresses from the
-- packets of clients and from a lease file.
import NetBoot.Registry.Store
import NetBoot.Boot.Responder
import NetBoot.Lease.Poller

namespace NetBoot.Registry

/-- Records an announcement. -/
def hear (now : Instant) : Listener Registry := fun r a =>
  let (r, done) := r.recordAddress now a.address a.mac
  (r, done.map fun _ => .recorded)

/-- The registry after announcements. -/
def recordAll (r : Registry) (now : Instant) (l : List Announcement) : Registry :=
  (Listener.tell (hear now) r l).1

/-- Answers a packet by the registry, which then has heard of the client's address. -/
def respond (r : Registry) (responder : Responder) (now : Instant) (packet : Bytes) :
    Registry × Response :=
  let response := responder.respond (r.services now) packet
  (r.recordAll now response.announcements, response)

/-- Looks at a lease file once and records the leases that are new in it. -/
def followLeases (r : Registry) (tail : LeaseTail) (source : LeaseSource) (now : Instant) :
    Registry × LeaseTail × Except FileFault (List Lease) :=
  let look := Poller.look (hear now) now ⟨tail, r⟩ source
  (look.after.known, look.after.tail, look.found)

end NetBoot.Registry
