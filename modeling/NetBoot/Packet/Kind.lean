-- The closed value sets of a packet: the direction of a BOOTP message and the type of a DHCP
-- message.

namespace NetBoot

/-- The direction of a message (RFC 951, field `op`). -/
inductive BootpOp where
  | request
  | reply
deriving DecidableEq, Repr

namespace BootpOp

def code : BootpOp → UInt8
  | request => 1
  | reply => 2

def ofCode? (n : UInt8) : Option BootpOp := [request, reply].find? (·.code = n)

def name : BootpOp → String
  | request => "BOOTPREQUEST"
  | reply => "BOOTPREPLY"

@[simp] theorem ofCode?_code (op : BootpOp) : ofCode? op.code = some op := by cases op <;> rfl

end BootpOp

/-- The types of DHCP messages (RFC 2131, option 53). -/
inductive MessageType where
  | discover
  | offer
  | request
  | decline
  | ack
  | nak
  | release
  | inform
deriving DecidableEq, Repr

namespace MessageType

def code : MessageType → UInt8
  | discover => 1
  | offer => 2
  | request => 3
  | decline => 4
  | ack => 5
  | nak => 6
  | release => 7
  | inform => 8

def all : List MessageType := [discover, offer, request, decline, ack, nak, release, inform]

def ofCode? (n : UInt8) : Option MessageType := all.find? (·.code = n)

def name : MessageType → String
  | discover => "DHCPDISCOVER"
  | offer => "DHCPOFFER"
  | request => "DHCPREQUEST"
  | decline => "DHCPDECLINE"
  | ack => "DHCPACK"
  | nak => "DHCPNAK"
  | release => "DHCPRELEASE"
  | inform => "DHCPINFORM"

@[simp] theorem ofCode?_code (t : MessageType) : ofCode? t.code = some t := by cases t <;> rfl

end MessageType

end NetBoot
