-- IPv4 addresses: four bytes, and the dotted text of them.
import NetBoot.Bytes
import NetBoot.Text.Split
import NetBoot.Text.Decimal

namespace NetBoot

structure Ipv4 where
  a : UInt8
  b : UInt8
  c : UInt8
  d : UInt8
deriving DecidableEq, Repr, Inhabited

namespace Ipv4

/-- The address 0.0.0.0, which stands for "not set" in a packet header. -/
def unspecified : Ipv4 := ⟨0, 0, 0, 0⟩

def octets (ip : Ipv4) : Bytes := [ip.a, ip.b, ip.c, ip.d]

/-- The address of exactly four bytes. -/
def ofOctets? : Bytes → Option Ipv4
  | [a, b, c, d] => some ⟨a, b, c, d⟩
  | _ => none

/-- The addresses of bytes that come in groups of four. A last group that is not whole is
left out. -/
def listOfOctets : Bytes → List Ipv4
  | a :: b :: c :: d :: rest => ⟨a, b, c, d⟩ :: listOfOctets rest
  | _ => []

/-- One to three digits, at most 255, without a zero in front of another digit. -/
def readOctet? (s : List Char) : Option UInt8 :=
  if s.length ≤ 3 ∧ (s.length ≤ 1 ∨ s.head? ≠ some '0') then
    ((Text.readNat? s).filter (· ≤ 255)).map UInt8.ofNat
  else none

/-- Four numbers with dots between them. -/
def ofChars? (s : List Char) : Option Ipv4 :=
  ((Text.fields '.' s).mapM readOctet?).bind ofOctets?

def ofText? (s : String) : Option Ipv4 := ofChars? s.toList

def chars (ip : Ipv4) : List Char :=
  List.intercalate ['.'] (ip.octets.map fun b => Text.showNat b.toNat)

def text (ip : Ipv4) : String := String.ofList ip.chars

/-- The address of a header field, where 0.0.0.0 means that there is none. -/
def unlessUnspecified (ip : Ipv4) : Option Ipv4 := if ip = unspecified then none else some ip

@[simp] theorem ofOctets?_octets (ip : Ipv4) : ofOctets? ip.octets = some ip := rfl

@[simp] theorem length_octets (ip : Ipv4) : ip.octets.length = 4 := rfl

/-- The addresses of a list of addresses written one after the other. -/
theorem listOfOctets_flatMap (ips : List Ipv4) : listOfOctets (ips.flatMap octets) = ips := by
  induction ips with
  | nil => rfl
  | cons ip ips ih =>
    show listOfOctets (ip.a :: ip.b :: ip.c :: ip.d :: ips.flatMap octets) = ip :: ips
    rw [listOfOctets, ih]

theorem mem_chars {ip : Ipv4} {c : Char} (h : c ∈ ip.chars) : c.isDigit = true ∨ c = '.' := by
  have hdigit : ∀ b : UInt8, c ∈ Text.showNat b.toNat → c.isDigit = true := fun b hb =>
    Nat.isDigit_of_mem_toDigits (by decide) (by decide) hb
  simp only [chars, octets, List.map_cons, List.map_nil, List.intercalate,
    List.intersperse_cons_cons, List.intersperse_singleton, List.flatten_cons, List.flatten_nil,
    List.append_nil, List.mem_append, List.mem_singleton] at h
  rcases h with ha | hdot | hb | hdot | hc | hdot | hd
  · exact Or.inl (hdigit _ ha)
  · exact Or.inr hdot
  · exact Or.inl (hdigit _ hb)
  · exact Or.inr hdot
  · exact Or.inl (hdigit _ hc)
  · exact Or.inr hdot
  · exact Or.inl (hdigit _ hd)

end Ipv4

end NetBoot
