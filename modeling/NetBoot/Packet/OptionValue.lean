-- The values of options as bytes, kind by kind.
import NetBoot.Packet.Triple
import NetBoot.Packet.Error
import NetBoot.Text.Utf8

namespace NetBoot

namespace OptionValue

/-! ## Reading -/

/-- The bytes, if there are exactly `width` of them. -/
def exactly (width : Nat) (bs : Bytes) : Except OptionFault Bytes :=
  if bs.length = width then .ok bs else .error (.wrongLength width bs.length)

/-- The value of a one-byte field. -/
def readByte (bs : Bytes) : Except OptionFault UInt8 :=
  match bs with
  | [b] => .ok b
  | _ => .error (.wrongLength 1 bs.length)

def readAddress (bs : Bytes) : Except OptionFault Ipv4 :=
  match Ipv4.ofOctets? bs with
  | some ip => .ok ip
  | none => .error (.wrongLength 4 bs.length)

def readAddresses (bs : Bytes) : Except OptionFault (List Ipv4) :=
  if bs = [] ∨ bs.length % 4 ≠ 0 then .error (.addressListLength bs.length)
  else .ok (Ipv4.listOfOctets bs)

def readMessageType (bs : Bytes) : Except OptionFault MessageType := do
  let code ← readByte bs
  match MessageType.ofCode? code with
  | some t => return t
  | none => throw (.unknownMessageType code)

/-- The type of the address in the first byte, and the address in the others. -/
def readClientId : Bytes → Except OptionFault HardwareAddress
  | [] => .error .emptyClientId
  | code :: address => .ok (.ofBytes (HardwareType.ofCode? code) address)

/-- The flags in the first byte and the name after the third. The two bytes between are not
used. -/
def readClientName (bs : Bytes) : Except OptionFault ClientName :=
  match bs with
  | flags :: _ :: _ :: name => .ok ⟨flags, lossy name⟩
  | _ => .error (.shortClientName bs.length)

/-- The fault of a vendor table, as a fault of the option that holds it. -/
def vendorFault (e : AreaEnd) : OptionFault :=
  match e.fault with
  | .lengthMissing => .vendorLengthMissing e.code
  | .cutShort declared available => .vendorCutShort e.code declared available

/-- A table laid out like the options themselves. A later value replaces an earlier one of the
same code. -/
def readVendorTable (bs : Bytes) : Except OptionFault VendorTable :=
  let area := Area.read 0 bs
  match area.fault with
  | some e => .error (vendorFault e)
  | none => .ok (.ofList (area.triples.map fun t => (t.code, t.value)))

/-- The value of an option of kind `k` from its bytes. -/
def read : (k : OptionKind) → Bytes → Except OptionFault k.Value
  | .address, bs => readAddress bs
  | .addresses, bs => readAddresses bs
  | .word32, bs => (exactly 4 bs).map fun bs => UInt32.ofNat bs.toNat
  | .word16, bs => (exactly 2 bs).map fun bs => UInt16.ofNat bs.toNat
  | .word8, bs => readByte bs
  | .text, bs => .ok (lossy bs)
  | .bytes, bs => .ok bs
  | .messageType, bs => readMessageType bs
  | .clientId, bs => readClientId bs
  | .clientName, bs => readClientName bs
  | .vendorTable, bs => readVendorTable bs

/-! ## Writing -/

/-- The triple of a code and a value, whose length has to fit one byte. The error names the
option `owner`, which for a triple in a vendor table is the option that holds the table. -/
def writeTriple (owner code : UInt8) (value : Bytes) : Except EncodeError Bytes :=
  if value.length ≤ 255 then .ok (tripleBytes code value)
  else .error (.optionTooLong owner value.length)

def writeAddresses (owner : UInt8) (ips : List Ipv4) : Except EncodeError Bytes :=
  if ips = [] then .error (.noAddresses owner) else .ok (ips.flatMap Ipv4.octets)

def writeClientId (id : HardwareAddress) : Except EncodeError Bytes :=
  match id.bytes? with
  | some address => .ok (id.typeCode :: address)
  | none => .error (.hardwareAddress id.text)

/-- The triples of a vendor table. The codes for padding and for the end cannot be written. -/
def writeVendorEntries (owner : UInt8) : List (UInt8 × Bytes) → Except EncodeError Bytes
  | [] => .ok []
  | (code, value) :: rest => do
    if code = padCode ∨ code = endCode then throw (.reservedVendorCode owner code)
    let triple ← writeTriple owner code value
    let others ← writeVendorEntries owner rest
    return triple ++ others

/-- The bytes of a value of kind `k`. The errors name the option `owner`. -/
def write (owner : UInt8) : (k : OptionKind) → k.Value → Except EncodeError Bytes
  | .address, ip => .ok ip.octets
  | .addresses, ips => writeAddresses owner ips
  | .word32, n => .ok (Bytes.ofNat 4 n.toNat)
  | .word16, n => .ok (Bytes.ofNat 2 n.toNat)
  | .word8, n => .ok [n]
  | .text, s => .ok (utf8 s)
  | .bytes, bs => .ok bs
  | .messageType, t => .ok [t.code]
  | .clientId, id => writeClientId id
  | .clientName, n => .ok (n.flags :: 0 :: 0 :: utf8 n.name)
  | .vendorTable, t => writeVendorEntries owner t.entries

end OptionValue

end NetBoot
