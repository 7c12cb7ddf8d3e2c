-- The boot file of a client about which nothing more is known: an ordered table of rules over its
-- user class, vendor class, hardware address and architecture.
import NetBoot.Packet.Message
import NetBoot.Text.Split
import NetBoot.Text.LowerCase

namespace NetBoot

structure BootRules where
  /-- The user class of the boot loader that these rules hand out. -/
  userClass : String
  apiHost : String
  apiPort : UInt16
deriving DecidableEq, Repr

namespace BootRules

/-- The address bytes of cards whose firmware asks for the profiles itself. -/
def mellanoxLead : String := "00:02:c9"

/-- The address bytes of small computers that need a loader of their own. -/
def nucLead : String := "ec:a8:6b"

def nucFile : String := "monorail.intel.ipxe"
def efi64File : String := "monorail-efi64-snponly.efi"
def efi32File : String := "monorail-efi32-snponly.efi"
def undiFile : String := "monorail-undionly.kpxe"
def ipxeFile : String := "monorail.ipxe"

/-- Where the boot profiles are served. -/
def profilesUrl (r : BootRules) : String :=
  s!"http://{r.apiHost}:{r.apiPort.toNat}/api/current/profiles"

/-- The boot loader for an architecture. -/
def loader (vendorClass : String) : Option ClientArch → String
  | some .efiByteCode | some .efiX64 => efi64File
  | some .efiIa32 => efi32File
  | some .x86Bios =>
    if Text.contains "UNDI".toList vendorClass.toList then undiFile else ipxeFile
  | _ => ipxeFile

/-- The boot file of the first rule that fits, if one does. -/
def bootFile? (r : BootRules) (m : Message) : Option String :=
  let mac := Text.lower m.chaddr.text.toList
  if m.userClass = some r.userClass then some r.profilesUrl
  else if (m.vendorClass.map fun v => Text.startsWith "Arista".toList v.toList) = some true then
    some (r.profilesUrl ++ "?macs=" ++ String.ofList mac)
  else if Text.startsWith mellanoxLead.toList mac then some r.profilesUrl
  else if Text.startsWith nucLead.toList mac then some nucFile
  else m.vendorClass.map fun v => loader v m.arch

end BootRules

end NetBoot
