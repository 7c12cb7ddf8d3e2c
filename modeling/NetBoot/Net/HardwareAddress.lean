-- Hardware addresses of network cards, kept as the text in which they are compared and printed.
import NetBoot.Text.Hex
import NetBoot.Text.LowerCase

namespace NetBoot

/-- The hardware types of RFC 1700. -/
inductive HardwareType where
  | ethernet
  | experimentalEthernet
  | amateurRadio
  | tokenRing
  | chaos
  | ieee802
  | arcnet
  | hyperchannel
  | lanstar
deriving DecidableEq, Repr

namespace HardwareType

def code : HardwareType → UInt8
  | ethernet => 1
  | experimentalEthernet => 2
  | amateurRadio => 3
  | tokenRing => 4
  | chaos => 5
  | ieee802 => 6
  | arcnet => 7
  | hyperchannel => 8
  | lanstar => 9

def all : List HardwareType :=
  [ethernet, experimentalEthernet, amateurRadio, tokenRing, chaos, ieee802, arcnet, hyperchannel,
    lanstar]

/-- The type with this code. -/
def ofCode? (n : UInt8) : Option HardwareType := all.find? (·.code = n)

def name : HardwareType → String
  | ethernet => "HW_ETHERNET"
  | experimentalEthernet => "HW_EXPERIMENTAL_ETHERNET"
  | amateurRadio => "HW_AMATEUR_RADIO_AX_25"
  | tokenRing => "HW_PROTEON_TOKEN_RING"
  | chaos => "HW_CHAOS"
  | ieee802 => "HW_IEEE_802_NETWORKS"
  | arcnet => "HW_ARCNET"
  | hyperchannel => "HW_HYPERCHANNEL"
  | lanstar => "HW_LANSTAR"

@[simp] theorem ofCode?_code (t : HardwareType) : ofCode? t.code = some t := by
  cases t <;> rfl

end HardwareType

/-- A hardware address. The type is absent where its code is not in the table. The text of an
address from a packet is lower-case hexadecimal with colons. -/
structure HardwareAddress where
  kind : Option HardwareType := none
  text : String := ""
deriving DecidableEq, Repr, Inhabited

namespace HardwareAddress

/-- An address given as text, in lower case. -/
def ofText (kind : Option HardwareType) (s : String) : HardwareAddress :=
  ⟨kind, String.ofList (Text.lower s.toList)⟩

def ofBytes (kind : Option HardwareType) (bs : Bytes) : HardwareAddress :=
  ⟨kind, String.ofList (Text.colonHex bs)⟩

/-- The bytes that the text stands for. -/
def bytes? (a : HardwareAddress) : Option Bytes := Text.readColonHex? a.text.toList

/-- The code of the type, or 0 where there is none. -/
def typeCode (a : HardwareAddress) : UInt8 := (a.kind.map HardwareType.code).getD 0

end HardwareAddress

end NetBoot
