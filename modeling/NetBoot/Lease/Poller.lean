-- The poller: it looks at the lease file again and again, and tells a listener of the leases that
-- it finds.
import NetBoot.Boot.Services
import NetBoot.Lease.Tail

namespace NetBoot

def Lease.announcement (l : Lease) : Announcement := ⟨l.address, l.mac⟩

/-- How an announcement is heard by someone with a state: the state after it, and the answer. -/
abbrev Listener (σ : Type) := σ → Announcement → σ × Except ServiceError Registration

/-- An announcement that was made, with the answer to it. -/
structure Call where
  announcement : Announcement
  answer : Except ServiceError Registration

variable {σ : Type}

/-- Makes announcements one after the other. One that fails does not stop those after it. -/
def Listener.tell (hear : Listener σ) (state : σ) : List Announcement → σ × List Call
  | [] => (state, [])
  | a :: rest =>
    let (state, answer) := hear state a
    let (state, calls) := Listener.tell hear state rest
    (state, ⟨a, answer⟩ :: calls)

/-- A poller and its listener. -/
structure Poller (σ : Type) where
  tail : LeaseTail := {}
  /-- What the listener knows. -/
  known : σ
deriving DecidableEq

/-- One look at the lease file. -/
structure Look (σ : Type) where
  source : LeaseSource
  before : Poller σ
  after : Poller σ
  found : Except FileFault (List Lease)
  calls : List Call

/-- What a look reports: how many leases were found. -/
def Look.report (l : Look σ) : Except FileFault Nat := l.found.map List.length

namespace Poller

/-- Looks at the file once. -/
def look (hear : Listener σ) (now : Instant) (p : Poller σ) (source : LeaseSource) : Look σ :=
  match p.tail.poll source now with
  | (tail, .error fault) => ⟨source, p, { p with tail }, .error fault, []⟩
  | (tail, .ok leases) =>
    let (known, calls) := Listener.tell hear p.known (leases.map Lease.announcement)
    ⟨source, p, ⟨tail, known⟩, .ok leases, calls⟩

/-- Looks at the file time after time, and finds these things there. -/
def run (hear : Listener σ) (now : Instant) (p : Poller σ) : List LeaseSource → List (Look σ)
  | [] => []
  | source :: rest =>
    let look := p.look hear now source
    look :: run hear now look.after rest

end Poller

end NetBoot
