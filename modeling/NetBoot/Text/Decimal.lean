-- Decimal numerals in ASCII digits.

namespace NetBoot.Text

/-- The value of an ASCII digit. -/
def digit? (c : Char) : Option Nat :=
  if '0' ≤ c ∧ c ≤ '9' then some (c.toNat - '0'.toNat) else none

/-- The number that the digits continue from `n`. -/
def continueNat? (n : Nat) : List Char → Option Nat
  | [] => some n
  | c :: rest => (digit? c).bind fun d => continueNat? (n * 10 + d) rest

/-- A number written as one or more digits. Zeros may stand in front. -/
def readNat? : List Char → Option Nat
  | [] => none
  | c :: rest => continueNat? 0 (c :: rest)

/-- The text without a plus sign in front. -/
def withoutPlus : List Char → List Char
  | [] => []
  | c :: rest => if c = '+' then rest else c :: rest

/-- A number of at most `largest`, with or without a plus sign in front. -/
def readUpTo? (largest : Nat) (s : List Char) : Option Nat :=
  (readNat? (withoutPlus s)).filter (· ≤ largest)

/-- The digits of a number, without zeros in front. -/
def showNat (n : Nat) : List Char := Nat.toDigits 10 n

/-- The digits of a number, with zeros in front up to `width` characters. -/
def showNatPadded (width n : Nat) : List Char :=
  List.replicate (width - (showNat n).length) '0' ++ showNat n

end NetBoot.Text
