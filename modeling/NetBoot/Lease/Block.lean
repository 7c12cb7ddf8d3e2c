-- The leases of a lease file. A header opens a block, the lines in it say until when and to whom
-- the address is leased, and a brace closes it.
import NetBoot.Lease.Line

namespace NetBoot

/-- An address that is leased to a hardware address. -/
structure Lease where
  address : Ipv4
  /-- Six pairs of hexadecimal digits in lower case, with colons between them. -/
  mac : String
deriving DecidableEq, Repr

/-- A block as far as it has been read. -/
structure LeaseBlock where
  address : Option Ipv4
  /-- The last end in the block. Without one the lease counts as over. -/
  ends : LeaseEnd := .noDate
  mac : Option String := none
deriving DecidableEq, Repr

namespace LeaseBlock

/-- The lease of a whole block, if it is not over and has both addresses. -/
def lease? (now : Instant) (b : LeaseBlock) : Option Lease :=
  if b.ends.isOver now then none
  else
    match b.address, b.mac with
    | some address, some mac => some ⟨address, mac⟩
    | _, _ => none

/-- The block that is open after a line, and the lease that the line completes. A header opens a
new block and drops one that is not closed. -/
def step (now : Instant) (open? : Option LeaseBlock) :
    LeaseLine → Option LeaseBlock × Option Lease
  | .header address => (some { address }, none)
  | .ends e => (open?.map fun b => { b with ends := e }, none)
  | .hardware mac => (open?.map fun b => { b with mac }, none)
  | .close => (none, open?.bind (lease? now))
  | .other => (open?, none)

end LeaseBlock

namespace Lease

/-- The leases of lines, where a block may be open before the first. -/
def ofLines (now : Instant) (open? : Option LeaseBlock) : List LeaseLine → List Lease
  | [] => []
  | line :: rest =>
    let (open?, lease) := LeaseBlock.step now open? line
    lease.toList ++ ofLines now open? rest

/-- The leases of a text that are not over. -/
def ofChars (text : List Char) (now : Instant) : List Lease :=
  ofLines now none ((Text.lines text).map LeaseLine.ofChars)

def ofText (text : String) (now : Instant) : List Lease := ofChars text.toList now

end Lease

end NetBoot
