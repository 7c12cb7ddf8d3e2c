-- The reply that names a boot file to a client, and where it is sent.
import NetBoot.Packet.Encode

namespace NetBoot

/-- A reply as a packet, with the address of the client it goes to. -/
structure Ack where
  packet : Bytes
  destination : Ipv4
  /-- Whether the client is EFI firmware, which listens on a port of its own. -/
  isEfi : Bool
deriving DecidableEq, Repr

/-- The name of the boot file in option 67. EFI firmware reads it up to a zero byte. -/
def bootFileOption (isEfi : Bool) (bootFile : String) : String :=
  if isEfi then bootFile ++ "\x00" else bootFile

/-- The reply to a client, as a message. The header is the client's, apart from the fields that
name the boot file and the gateway. Of the options only two are left. -/
def Message.reply (client : Message) (bootFile : String) (gateway : Ipv4) : Message :=
  { client with
    op := some .reply
    chaddr := { client.chaddr with kind := some .ethernet }
    fname := bootFile
    siaddr := some gateway
    sname := gateway.text
    skipped := []
    options :=
      (Options.empty.set .messageType .ack).set .bootFileName
        (bootFileOption client.isEfiClient bootFile) }

/-- The acknowledgement that tells a client to boot a file. -/
def Message.ack (client : Message) (bootFile : String) (gateway : Ipv4) :
    Except EncodeError Ack := do
  let destination ← (match client.ciaddr with
    | some ip => .ok ip
    | none => .error .noClientAddress)
  let packet ← (client.reply bootFile gateway).encode
  return { packet, destination, isEfi := client.isEfiClient }

/-- The ports that clients listen on. -/
structure ReplyPorts where
  legacy : UInt16
  efi : UInt16
deriving DecidableEq, Repr

/-- The port for a reply. -/
def ReplyPorts.port (p : ReplyPorts) (ack : Ack) : UInt16 := if ack.isEfi then p.efi else p.legacy

/-- Where a reply goes, as the text of an address and a port. -/
def ReplyPorts.endpoint (p : ReplyPorts) (ack : Ack) : String :=
  s!"{ack.destination.text}:{(p.port ack).toNat}"

end NetBoot
