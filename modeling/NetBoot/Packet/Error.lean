-- Why a packet cannot be read, and why a message cannot be written.
import NetBoot.Bytes

namespace NetBoot

instance decidableEqResult {ε α : Type} [DecidableEq ε] [DecidableEq α] :
    DecidableEq (Except ε α)
  | .ok a, .ok b => decidable_of_iff (a = b) ⟨congrArg _, Except.ok.inj⟩
  | .error e, .error f => decidable_of_iff (e = f) ⟨congrArg _, Except.error.inj⟩
  | .ok _, .error _ => isFalse nofun
  | .error _, .ok _ => isFalse nofun

/-- Two steps, one after the other, succeed where the first does and then the second does. -/
theorem bind_eq_ok {ε α β : Type} {x : Except ε α} {f : α → Except ε β} {b : β} :
    (x >>= f) = .ok b ↔ ∃ a, x = .ok a ∧ f a = .ok b := by
  cases x with
  | error e =>
    refine ⟨?_, ?_⟩
    · intro h
      cases h
    · rintro ⟨a, h, _⟩
      cases h
  | ok a =>
    refine ⟨?_, ?_⟩
    · intro h
      exact ⟨a, rfl, h⟩
    · rintro ⟨_, h, hf⟩
      cases h
      exact hf

/-- What is wrong with one option. -/
inductive OptionFault where
  | lengthMissing
  | cutShort (declared available : Nat)
  | wrongLength (expected actual : Nat)
  | addressListLength (actual : Nat)
  | unknownMessageType (code : UInt8)
  | emptyClientId
  | shortClientName (actual : Nat)
  | vendorLengthMissing (code : UInt8)
  | vendorCutShort (code : UInt8) (declared available : Nat)
deriving DecidableEq, Repr

def OptionFault.message : OptionFault → String
  | lengthMissing => "option length missing"
  | cutShort declared available =>
    s!"option data truncated: expected {declared} bytes, have {available}"
  | wrongLength expected actual => s!"expected length {expected}, got {actual}"
  | addressListLength actual => s!"address list length {actual} is not a multiple of 4"
  | unknownMessageType code => s!"unknown DHCP message type {code.toNat}"
  | emptyClientId => "client identifier is empty"
  | shortClientName actual => s!"client FQDN needs at least 3 bytes, got {actual}"
  | vendorLengthMissing code => s!"vendor sub-option {code.toNat} length missing"
  | vendorCutShort code declared available =>
    s!"vendor sub-option {code.toNat} overruns option: expected {declared} bytes, have {available}"

/-- The length of the fixed header with the cookie, which every packet has. -/
def headerLength : Nat := 240

/-- The longest hardware address that the header has room for. -/
def hardwareFieldLength : Nat := 16

/-- Why a packet is no message. -/
inductive DecodeError where
  | tooShort (actual : Nat)
  | hardwareLength (hlen : UInt8)
  | option (offset : Nat) (code : UInt8) (fault : OptionFault)
deriving DecidableEq, Repr

def DecodeError.message : DecodeError → String
  | tooShort actual => s!"packet too short: expected at least {headerLength} bytes, got {actual}"
  | hardwareLength hlen =>
    s!"invalid hlen: {hlen.toNat} exceeds the {hardwareFieldLength} byte chaddr field"
  | option offset code fault =>
    s!"invalid option {code.toNat} at offset {offset}: {fault.message}"

/-- The parts of a packet with a greatest length. -/
inductive BoundedPart where
  | sname
  | fname
  | packet
deriving DecidableEq, Repr

def BoundedPart.name : BoundedPart → String
  | sname => "sname"
  | fname => "fname"
  | packet => "packet"

/-- The greatest length of a part, in bytes. -/
def BoundedPart.limit : BoundedPart → Nat
  | sname => 64
  | fname => 128
  | packet => 1500

/-- Why a message has no packet. -/
inductive EncodeError where
  /-- A reply needs the address of its client. -/
  | noClientAddress
  | hardwareAddress (text : String)
  | tooLong (part : BoundedPart) (actual : Nat)
  | optionTooLong (code : UInt8) (actual : Nat)
  | noAddresses (code : UInt8)
  | reservedVendorCode (code vendorCode : UInt8)
deriving DecidableEq, Repr

def EncodeError.message : EncodeError → String
  | noClientAddress => "ciaddr is required"
  | hardwareAddress text => s!"malformed hardware address '{text}': need exactly 6 octets"
  | tooLong part actual =>
    s!"{part.name} field too long ({part.limit} bytes max): {actual} bytes"
  | optionTooLong code actual =>
    s!"option {code.toNat} too long: {actual} bytes does not fit a one-byte length"
  | noAddresses code => s!"option {code.toNat} needs at least one address"
  | reservedVendorCode code vendorCode =>
    s!"option {code.toNat}: sub-option code {vendorCode.toNat} is reserved for pad/end"

end NetBoot
