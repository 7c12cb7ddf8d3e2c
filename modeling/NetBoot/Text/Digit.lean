-- Decimal digits of any script.
import NetBoot.Text.DigitTable

namespace NetBoot.Text

/-- The decimal digits of all scripts, of which only those of ASCII have a value here. -/
def isDigit (c : Char) : Bool :=
  digitRanges.any fun r => r.1 ≤ c.toNat && c.toNat ≤ r.2

/-- The digits at the front of a text, at most `limit` of them, and the rest. -/
def takeDigits : (limit : Nat) → List Char → List Char × List Char
  | 0, s => ([], s)
  | _ + 1, [] => ([], [])
  | limit + 1, c :: rest =>
    if isDigit c then
      let (digits, others) := takeDigits limit rest
      (c :: digits, others)
    else ([], c :: rest)

end NetBoot.Text
