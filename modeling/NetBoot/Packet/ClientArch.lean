-- The system architecture of a boot client (RFC 4578), from option 93 or from the vendor class.
import NetBoot.Text.Split
import NetBoot.Text.Decimal

namespace NetBoot

inductive ClientArch where
  | x86Bios
  | necPc98
  | efiItanium
  | decAlpha
  | arcX86
  | leanClient
  | efiIa32
  | efiByteCode
  | efiXscale
  | efiX64
  | efiArm32
  | efiArm64
  /-- A code that has no name. -/
  | unknown (code : UInt16)
deriving DecidableEq, Repr

namespace ClientArch

/-- The architectures that have a name, in the order of their codes. -/
def named : List ClientArch :=
  [x86Bios, necPc98, efiItanium, decAlpha, arcX86, leanClient, efiIa32, efiByteCode, efiXscale,
    efiX64, efiArm32, efiArm64]

/-- The architecture of a code. Every code has one. -/
def ofCode (n : UInt16) : ClientArch := (named[n.toNat]?).getD (unknown n)

def code : ClientArch → UInt16
  | x86Bios => 0
  | necPc98 => 1
  | efiItanium => 2
  | decAlpha => 3
  | arcX86 => 4
  | leanClient => 5
  | efiIa32 => 6
  | efiByteCode => 7
  | efiXscale => 8
  | efiX64 => 9
  | efiArm32 => 10
  | efiArm64 => 11
  | unknown code => code

def name : ClientArch → String
  | x86Bios => "x86 BIOS"
  | necPc98 => "NEC/PC98"
  | efiItanium => "EFI Itanium"
  | decAlpha => "DEC Alpha"
  | arcX86 => "Arc x86"
  | leanClient => "Intel Lean Client"
  | efiIa32 => "EFI IA32"
  | efiByteCode => "EFI BC"
  | efiXscale => "EFI Xscale"
  | efiX64 => "EFI x86-64"
  | efiArm32 => "EFI ARM32"
  | efiArm64 => "EFI ARM64"
  | unknown code => s!"Unknown({code.toNat})"

def isEfi : ClientArch → Bool
  | efiItanium | efiIa32 | efiByteCode | efiXscale | efiX64 | efiArm32 | efiArm64 => true
  | _ => false

/-- The x86 firmware that loads the network-protocol-only boot loaders and listens on the EFI
reply port. -/
def isX86Efi : ClientArch → Bool
  | efiIa32 | efiByteCode | efiX64 => true
  | _ => false

def isBios (a : ClientArch) : Bool := a = x86Bios

/-- The architecture that a vendor class such as `PXEClient:Arch:00007:UNDI:003016` names: the
number after the first `Arch:`, up to a colon, a space or the end. -/
def ofVendorClass? (vendorClass : String) : Option ClientArch := do
  let text := vendorClass.toList
  let _ ← Text.after? "PXEClient".toList text
  let rest ← Text.afterFirst? "Arch:".toList text
  let number ← Text.readUpTo? 65535 (rest.takeWhile fun c => c ≠ ':' ∧ c ≠ ' ')
  return ofCode (UInt16.ofNat number)

/-- The codes of x86 EFI firmware. -/
theorem isX86Efi_ofCode (n : UInt16) : (ofCode n).isX86Efi = true ↔ n = 6 ∨ n = 7 ∨ n = 9 := by
  have hnamed : ∀ i : Fin named.length,
      named[i].isX86Efi = true ↔ i.val = 6 ∨ i.val = 7 ∨ i.val = 9 := by decide
  rw [← UInt16.toNat_inj, ← UInt16.toNat_inj, ← UInt16.toNat_inj]
  unfold ofCode
  by_cases h : n.toNat < named.length
  · rw [List.getElem?_eq_getElem h, Option.getD_some]
    exact hnamed ⟨n.toNat, h⟩
  · have h12 : 12 ≤ n.toNat := Nat.le_of_not_lt h
    rw [List.getElem?_eq_none h12, Option.getD_none]
    simp only [isX86Efi, Bool.false_eq_true, UInt16.reduceToNat, false_iff]
    omega

end ClientArch

end NetBoot
