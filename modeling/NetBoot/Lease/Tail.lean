-- Following a lease file that grows: each look reads what was appended, and takes out the leases
-- of the blocks that are whole.
import NetBoot.Lease.Block
import NetBoot.Storage.Volume

namespace NetBoot

/-- What is found where the lease file should be. -/
inductive LeaseSource where
  | missing
  /-- Something that cannot be opened. -/
  | closed (fault : FileFault)
  /-- A folder, which opens and reports a length, and cannot be read. -/
  | folder (length : Nat)
  | content (bytes : Bytes)
deriving DecidableEq, Repr

/-- The length that a folder reports. -/
def folderLength : Nat := 4096

/-- What is found at a path of a volume. -/
def LeaseSource.ofVolume (v : Volume) (p : Path) : LeaseSource :=
  match v.find p with
  | .ok (.file bytes) => .content bytes
  | .ok .folder => .folder folderLength
  | .error .missing => .missing
  | .error fault => .closed fault

/-- How far a lease file has been read. -/
structure LeaseTail where
  /-- The number of bytes that have been read. -/
  offset : Nat := 0
  /-- The text after the last brace that was read. -/
  pending : List Char := []
deriving DecidableEq, Repr

namespace LeaseTail

/-- The text up to its last closing brace, and the text after it. -/
def cutAfterBrace? : List Char → Option (List Char × List Char)
  | [] => none
  | c :: rest =>
    match cutAfterBrace? rest with
    | some (whole, others) => some (c :: whole, others)
    | none => if c = '}' then some ([c], rest) else none

/-- The place to read on from in something of this length. What is shorter than before was
written anew and is read from its start. -/
def resume (t : LeaseTail) (length : Nat) : LeaseTail := if length < t.offset then {} else t

/-- Takes in appended bytes, and gives the leases of the blocks that are whole now. The bytes of
one look are turned into text by themselves. -/
def take (t : LeaseTail) (appended : Bytes) (now : Instant) : LeaseTail × List Lease :=
  let pending := t.pending ++ Utf8.decodeLossy appended
  let offset := t.offset + appended.length
  if appended = [] then (t, [])
  else
    match cutAfterBrace? pending with
    | some (whole, rest) => (⟨offset, rest⟩, Lease.ofChars whole now)
    | none => (⟨offset, pending⟩, [])

/-- Looks at the file once. A file that is missing has no leases yet. -/
def poll (t : LeaseTail) (source : LeaseSource) (now : Instant) :
    LeaseTail × Except FileFault (List Lease) :=
  match source with
  | .missing => (t, .ok [])
  | .closed fault => (t, .error fault)
  | .folder length => (t.resume length, .error .isFolder)
  | .content bytes =>
    let t := t.resume bytes.length
    let (t, leases) := t.take (bytes.drop t.offset) now
    (t, .ok leases)

end LeaseTail

end NetBoot
