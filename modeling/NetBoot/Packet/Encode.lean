-- From a message to its packet.
import NetBoot.Packet.Message
import NetBoot.Packet.OptionValue

namespace NetBoot

/-- The smallest packet that old clients and relays take. -/
def shortestPacket : Nat := 300

/-- The six bytes of an Ethernet address. -/
def HardwareAddress.sixBytes (a : HardwareAddress) : Except EncodeError Bytes :=
  match a.bytes? with
  | some bs => if bs.length = 6 then .ok bs else .error (.hardwareAddress a.text)
  | none => .error (.hardwareAddress a.text)

/-- The bytes of a text in a part of the packet with a greatest length. -/
def BoundedPart.fit (part : BoundedPart) (s : String) : Except EncodeError Bytes :=
  if (utf8 s).length ≤ part.limit then .ok (utf8 s) else .error (.tooLong part (utf8 s).length)

namespace Options

/-- The triple of one option, or nothing where the message does not carry it. -/
def writeOne (t : Options) (o : OptionName) : Except EncodeError Bytes :=
  match t.get o with
  | none => .ok []
  | some value => do
    let bs ← OptionValue.write o.code o.kind value
    OptionValue.writeTriple o.code o.code bs

/-- The triples of some of the options, in the order given. -/
def writeAll (t : Options) : List OptionName → Except EncodeError Bytes
  | [] => .ok []
  | o :: rest => do
    let triple ← t.writeOne o
    let others ← t.writeAll rest
    return triple ++ others

/-- The triples of all options that the message carries, in ascending order of the codes. -/
def write (t : Options) : Except EncodeError Bytes := t.writeAll OptionName.all

end Options

/-- The length rounded up to an even number, and to that of the smallest packet. -/
def paddedLength (n : Nat) : Nat := max shortestPacket (n + n % 2)

/-- The address in a header field, where 0.0.0.0 stands for none. -/
def addressOctets (ip : Option Ipv4) : Bytes := (ip.getD Ipv4.unspecified).octets

/-- The fixed header with the cookie. -/
def Message.header (m : Message) (chaddr sname fname : Bytes) : Bytes :=
  [(m.op.map BootpOp.code).getD 0, m.chaddr.typeCode, m.hlen, m.hops] ++
    Bytes.ofNat 4 m.xid.toNat ++ Bytes.ofNat 2 m.secs.toNat ++ Bytes.ofNat 2 m.flags.toNat ++
    addressOctets m.ciaddr ++ addressOctets m.yiaddr ++ addressOctets m.siaddr ++
    addressOctets m.giaddr ++ Bytes.padTo hardwareFieldLength chaddr ++
    Bytes.padTo BoundedPart.sname.limit sname ++ Bytes.padTo BoundedPart.fname.limit fname ++
    Bytes.ofNat 4 magicCookie.toNat

/-- The packet of a message. It ends with the end code and then zeros up to an even length of at
least 300 bytes. The cookie is written whatever the message holds in its place. -/
def Message.encode (m : Message) : Except EncodeError Bytes := do
  let chaddr ← m.chaddr.sixBytes
  let sname ← BoundedPart.sname.fit m.sname
  let fname ← BoundedPart.fname.fit m.fname
  let options ← m.options.write
  let whole := m.header chaddr sname fname ++ options ++ [endCode]
  let packet := Bytes.padTo (paddedLength whole.length) whole
  if packet.length ≤ BoundedPart.packet.limit then return packet
  else throw (.tooLong .packet packet.length)

end NetBoot
