-- The DHCP options that this library gives a meaning to, and the table of those that a message
-- carries. Each option has a kind, and the kind fixes what values it takes.
import NetBoot.Net.Ipv4
import NetBoot.Net.HardwareAddress
import NetBoot.Packet.Kind

namespace NetBoot

/-- The code of the byte that fills up space, and of the byte that ends the options. Neither has
a length or a value. -/
def padCode : UInt8 := 0

def endCode : UInt8 := 255

/-- A table of byte strings by code, as option 43 carries it. -/
structure VendorTable where
  get : UInt8 → Option Bytes

namespace VendorTable

@[ext] theorem ext {t u : VendorTable} (h : ∀ code, t.get code = u.get code) : t = u := by
  cases t; cases u; congr; exact funext h

def empty : VendorTable := ⟨fun _ => none⟩

/-- The table with `value` at `code` instead of what stood there. -/
def set (t : VendorTable) (code : UInt8) (value : Bytes) : VendorTable :=
  ⟨fun c => if c = code then some value else t.get c⟩

/-- Every code, in ascending order. -/
def codes : List UInt8 := (List.range 256).map UInt8.ofNat

/-- What the table holds, in ascending order of the codes. -/
def entries (t : VendorTable) : List (UInt8 × Bytes) :=
  codes.filterMap fun code => (t.get code).map fun value => (code, value)

/-- The table of a list in which a later value replaces an earlier one of the same code. -/
def ofList (l : List (UInt8 × Bytes)) : VendorTable :=
  l.foldl (fun t e => t.set e.1 e.2) empty

@[simp] theorem get_empty (code : UInt8) : empty.get code = none := rfl

@[simp] theorem get_set_self (t : VendorTable) (code : UInt8) (value : Bytes) :
    (t.set code value).get code = some value := by simp [set]

theorem get_set_ne (t : VendorTable) {code other : UInt8} (value : Bytes) (h : other ≠ code) :
    (t.set code value).get other = t.get other := by simp [set, h]

theorem mem_codes (code : UInt8) : code ∈ codes := by
  refine List.mem_map.2 ⟨code.toNat, List.mem_range.2 code.toNat_lt, by simp⟩

/-- Two tables are equal if they hold the same at every code. -/
instance : DecidableEq VendorTable := fun t u =>
  letI := List.decidableBAll (fun code => t.get code = u.get code) codes
  decidable_of_iff (∀ code ∈ codes, t.get code = u.get code)
    ⟨fun h => ext fun code => h code (mem_codes code), fun h _ _ => h ▸ rfl⟩

end VendorTable

/-- The fully qualified domain name of a client (RFC 4702). -/
structure ClientName where
  flags : UInt8
  name : String
deriving DecidableEq, Repr

/-- The shapes that option values have. -/
inductive OptionKind where
  | address
  | addresses
  | word32
  | word16
  | word8
  | text
  | bytes
  | messageType
  | clientId
  | clientName
  | vendorTable
deriving DecidableEq, Repr

/-- The values of a kind. -/
@[reducible] def OptionKind.Value : OptionKind → Type
  | address => Ipv4
  | addresses => List Ipv4
  | word32 => UInt32
  | word16 => UInt16
  | word8 => UInt8
  | text => String
  | bytes => Bytes
  | messageType => MessageType
  | clientId => HardwareAddress
  | clientName => ClientName
  | vendorTable => VendorTable

instance (k : OptionKind) : DecidableEq k.Value := by
  cases k <;> infer_instance

/-- The options that have a meaning here. -/
inductive OptionName where
  | subnetMask
  | timeOffset
  | routers
  | timeServers
  | nameServers
  | hostName
  | domainName
  | broadcastAddress
  | vendorOptions
  | requestedAddress
  | leaseTime
  | overload
  | messageType
  | serverId
  | parameterRequests
  | maxMessageSize
  | renewalTime
  | rebindingTime
  | vendorClass
  | clientId
  | bootFileName
  | userClass
  | clientName
  | clientArch
  | subnetSelection
deriving DecidableEq, Repr

namespace OptionName

def code : OptionName → UInt8
  | subnetMask => 1
  | timeOffset => 2
  | routers => 3
  | timeServers => 4
  | nameServers => 6
  | hostName => 12
  | domainName => 15
  | broadcastAddress => 28
  | vendorOptions => 43
  | requestedAddress => 50
  | leaseTime => 51
  | overload => 52
  | messageType => 53
  | serverId => 54
  | parameterRequests => 55
  | maxMessageSize => 57
  | renewalTime => 58
  | rebindingTime => 59
  | vendorClass => 60
  | clientId => 61
  | bootFileName => 67
  | userClass => 77
  | clientName => 81
  | clientArch => 93
  | subnetSelection => 118

@[reducible] def kind : OptionName → OptionKind
  | subnetMask => .address
  | timeOffset => .word32
  | routers => .addresses
  | timeServers => .addresses
  | nameServers => .addresses
  | hostName => .text
  | domainName => .text
  | broadcastAddress => .address
  | vendorOptions => .vendorTable
  | requestedAddress => .address
  | leaseTime => .word32
  | overload => .word8
  | messageType => .messageType
  | serverId => .address
  | parameterRequests => .bytes
  | maxMessageSize => .word16
  | renewalTime => .word32
  | rebindingTime => .word32
  | vendorClass => .text
  | clientId => .clientId
  | bootFileName => .text
  | userClass => .text
  | clientName => .clientName
  | clientArch => .word16
  | subnetSelection => .address

/-- Every option, in ascending order of the codes. -/
def all : List OptionName :=
  [subnetMask, timeOffset, routers, timeServers, nameServers, hostName, domainName,
    broadcastAddress, vendorOptions, requestedAddress, leaseTime, overload, messageType, serverId,
    parameterRequests, maxMessageSize, renewalTime, rebindingTime, vendorClass, clientId,
    bootFileName, userClass, clientName, clientArch, subnetSelection]

/-- The option with this code. -/
def ofCode? (n : UInt8) : Option OptionName := all.find? (·.code = n)

theorem mem_all (o : OptionName) : o ∈ all := by cases o <;> decide

@[simp] theorem ofCode?_code (o : OptionName) : ofCode? o.code = some o := by cases o <;> rfl

theorem code_of_ofCode? {n : UInt8} {o : OptionName} (h : ofCode? n = some o) : o.code = n := by
  simpa using List.find?_some h

theorem code_injective {o p : OptionName} (h : o.code = p.code) : o = p := by
  have := ofCode?_code o
  rw [h, ofCode?_code p] at this
  exact (Option.some.inj this).symm

/-- The codes of `all` ascend. -/
theorem pairwise_all : all.Pairwise (fun o p => o.code < p.code) := by decide

end OptionName

/-- The values that a message carries, by option. -/
structure Options where
  get : (o : OptionName) → Option o.kind.Value

namespace Options

@[ext] theorem ext {s t : Options} (h : ∀ o, s.get o = t.get o) : s = t := by
  cases s; cases t; congr; exact funext h

def empty : Options := ⟨fun _ => none⟩

instance : Inhabited Options := ⟨empty⟩

/-- The table with `value` at the option `o` instead of what stood there. -/
def set (t : Options) (o : OptionName) (value : o.kind.Value) : Options :=
  ⟨fun p => if h : p = o then some (h ▸ value) else t.get p⟩

@[simp] theorem get_empty (o : OptionName) : empty.get o = none := rfl

@[simp] theorem get_set_self (t : Options) (o : OptionName) (value : o.kind.Value) :
    (t.set o value).get o = some value := by simp [set]

theorem get_set_ne (t : Options) {o p : OptionName} (value : o.kind.Value) (h : p ≠ o) :
    (t.set o value).get p = t.get p := by simp [set, h]

/-- Two tables are equal if they hold the same at every option. -/
instance : DecidableEq Options := fun s t =>
  decidable_of_iff (∀ o ∈ OptionName.all, s.get o = t.get o)
    ⟨fun h => ext fun o => h o o.mem_all, fun h _ _ => h ▸ rfl⟩

end Options

end NetBoot
