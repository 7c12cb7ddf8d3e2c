-- Hexadecimal digits, and byte strings as pairs of them between colons.
import NetBoot.Bytes
import NetBoot.Text.Split

namespace NetBoot.Text

/-- The lower-case digit for a number below sixteen. -/
def hexDigit (n : Nat) : Char := Nat.digitChar n

/-- The value of a hexadecimal digit in either case. -/
def hexValue? (c : Char) : Option Nat :=
  if '0' ≤ c ∧ c ≤ '9' then some (c.toNat - '0'.toNat)
  else if 'a' ≤ c ∧ c ≤ 'f' then some (c.toNat - 'a'.toNat + 10)
  else if 'A' ≤ c ∧ c ≤ 'F' then some (c.toNat - 'A'.toNat + 10)
  else none

/-- A byte as two digits. -/
def hexPair (b : UInt8) : List Char := [hexDigit (b.toNat / 16), hexDigit (b.toNat % 16)]

/-- A byte written as one or two digits, or as a plus sign and one digit. -/
def readHexByte? : List Char → Option UInt8
  | [c] => (hexValue? c).map UInt8.ofNat
  | [c, d] =>
    if c = '+' then (hexValue? d).map UInt8.ofNat
    else
      match hexValue? c, hexValue? d with
      | some m, some n => some (UInt8.ofNat (m * 16 + n))
      | _, _ => none
  | _ => none

/-- Bytes as pairs of digits with colons between them. -/
def colonHex (bs : Bytes) : List Char := List.intercalate [':'] (bs.map hexPair)

/-- The bytes between the colons. No text at all stands for no bytes. -/
def readColonHex? (s : List Char) : Option Bytes :=
  if s = [] then some [] else (fields ':' s).mapM readHexByte?

end NetBoot.Text
