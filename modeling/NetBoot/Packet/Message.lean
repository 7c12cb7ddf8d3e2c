-- BOOTP and DHCP messages as values.
import NetBoot.Packet.Options
import NetBoot.Packet.ClientArch

namespace NetBoot

/-- The number that marks the options of a DHCP message. -/
def magicCookie : UInt32 := 0x63825363

/-- An option that was skipped: its code and the length of its value. -/
structure SkippedOption where
  code : UInt8
  length : UInt8
deriving DecidableEq, Repr

/-- A message. The fields have their names of RFC 951 and RFC 2131. -/
structure Message where
  /-- Absent where the packet has a code that is neither a request nor a reply. -/
  op : Option BootpOp := none
  hlen : UInt8 := 0
  hops : UInt8 := 0
  xid : UInt32 := 0
  secs : UInt16 := 0
  flags : UInt16 := 0
  ciaddr : Option Ipv4 := none
  yiaddr : Option Ipv4 := none
  siaddr : Option Ipv4 := none
  giaddr : Option Ipv4 := none
  /-- The hardware address of the client, with the hardware type of the packet. -/
  chaddr : HardwareAddress := {}
  sname : String := ""
  fname : String := ""
  magic : UInt32 := 0
  options : Options := Options.empty
  /-- The options without a meaning here, in the order of the packet. -/
  skipped : List SkippedOption := []
deriving DecidableEq, Inhabited

namespace Message

/-- A request of an Ethernet client with nothing else in it. -/
def request (xid : UInt32) (mac : Bytes) : Message where
  op := some .request
  hlen := 6
  xid := xid
  chaddr := .ofBytes (some .ethernet) mac
  magic := magicCookie

def isRequest (m : Message) : Bool := m.op = some .request

def vendorClass (m : Message) : Option String := m.options.get .vendorClass

def userClass (m : Message) : Option String := m.options.get .userClass

def arch (m : Message) : Option ClientArch :=
  (show Option UInt16 from m.options.get .clientArch).map ClientArch.ofCode

/-- Whether the message comes straight from x86 EFI firmware. A client with a user class is a boot
loader that is already running. -/
def isEfiClient (m : Message) : Bool :=
  m.userClass.isNone && (m.arch.map ClientArch.isX86Efi).getD false

end Message

end NetBoot
