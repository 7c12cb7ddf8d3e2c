-- From a packet to its message.
import NetBoot.Packet.Message
import NetBoot.Packet.OptionValue

namespace NetBoot

/-- What the options of a packet say: the table of those with a meaning, and the skipped ones. -/
structure ReadOptions where
  options : Options := Options.empty
  skipped : List SkippedOption := []

namespace ReadOptions

/-- Takes in one more triple. A later value of an option replaces an earlier one. -/
def add (r : ReadOptions) (t : Triple) : Except DecodeError ReadOptions :=
  match OptionName.ofCode? t.code with
  | none => .ok { r with skipped := r.skipped ++ [⟨t.code, UInt8.ofNat t.value.length⟩] }
  | some o =>
    match OptionValue.read o.kind t.value with
    | .ok value => .ok { r with options := r.options.set o value }
    | .error fault => .error (.option t.offset t.code fault)

end ReadOptions

/-- The fault of the option area, as a reason to refuse the packet. -/
def AreaEnd.decodeError (e : AreaEnd) : DecodeError :=
  .option e.offset e.code
    (match e.fault with
    | .lengthMissing => .lengthMissing
    | .cutShort declared available => .cutShort declared available)

/-- Reads the options of an area. The first fault in the order of the packet counts. -/
def Area.options (area : Area) : Except DecodeError ReadOptions := do
  let r ← area.triples.foldlM ReadOptions.add {}
  match area.fault with
  | some e => throw e.decodeError
  | none => return r

namespace Bytes

/-- The byte at a place, or 0 past the end. -/
def byteAt (packet : Bytes) (start : Nat) : UInt8 := (packet[start]?).getD 0

/-- The address in the four bytes at a place, unless it is 0.0.0.0. -/
def addressAt (packet : Bytes) (start : Nat) : Option Ipv4 :=
  (Ipv4.ofOctets? (packet.slice start 4)).bind Ipv4.unlessUnspecified

/-- The text in a field at a place, up to the first zero byte. -/
def textAt (packet : Bytes) (start width : Nat) : String :=
  lossy (packet.slice start width).untilZero

end Bytes

/-- The message of a packet's fixed header, without options. -/
def Message.ofHeader (packet : Bytes) : Message where
  op := BootpOp.ofCode? (packet.byteAt 0)
  hlen := packet.byteAt 2
  hops := packet.byteAt 3
  xid := UInt32.ofNat (packet.slice 4 4).toNat
  secs := UInt16.ofNat (packet.slice 8 2).toNat
  flags := UInt16.ofNat (packet.slice 10 2).toNat
  ciaddr := packet.addressAt 12
  yiaddr := packet.addressAt 16
  siaddr := packet.addressAt 20
  giaddr := packet.addressAt 24
  chaddr := .ofBytes (HardwareType.ofCode? (packet.byteAt 1))
    (packet.slice 28 (packet.byteAt 2).toNat)
  sname := packet.textAt 44 64
  fname := packet.textAt 108 128
  magic := UInt32.ofNat (packet.slice 236 4).toNat

/-- The message of a packet. The cookie is read and not checked. -/
def Message.decode (packet : Bytes) : Except DecodeError Message := do
  if packet.length < headerLength then throw (.tooShort packet.length)
  if hardwareFieldLength < (packet.byteAt 2).toNat then throw (.hardwareLength (packet.byteAt 2))
  let r ← (Area.read headerLength (packet.drop headerLength)).options
  return { Message.ofHeader packet with options := r.options, skipped := r.skipped }

end NetBoot
