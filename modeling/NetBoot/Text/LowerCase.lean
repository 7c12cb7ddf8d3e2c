-- Full lower-casing of Unicode text. One rule looks at its neighbours: a capital sigma at the
-- end of a word becomes the final form.
import NetBoot.Text.LowerCaseTable
import NetBoot.Text.CasedTable
import NetBoot.Text.CaseIgnorableTable

namespace NetBoot.Text

def inRanges (ranges : List (Nat × Nat)) (c : Char) : Bool :=
  ranges.any fun r => r.1 ≤ c.toNat && c.toNat ≤ r.2

/-- The letters that have a case. -/
def isCased (c : Char) : Bool := inRanges casedRanges c

/-- The marks that stand within a word without being a letter of it. -/
def isCaseIgnorable (c : Char) : Bool := inRanges caseIgnorableRanges c

/-- Whether the letter stands in the run. -/
def LowerRun.covers (r : LowerRun) (c : Char) : Bool :=
  r.first ≤ c.toNat && c.toNat ≤ r.last && (c.toNat - r.first) % r.stride == 0

/-- The lower-case letter of a letter that has exactly one, and every other character itself. -/
def lowerChar (c : Char) : Char :=
  if c.toNat < 0x80 then c.toLower
  else
    match lowerRuns.find? (·.covers c) with
    | some r => Char.ofNat (r.lower + (c.toNat - r.first))
    | none => c

/-- Whether the first character that is no mark is a letter with a case. -/
def meetsCased (s : List Char) : Bool :=
  match s.dropWhile isCaseIgnorable with
  | [] => false
  | c :: _ => isCased c

/-- The lower-case form of one character between the characters before it, nearest first, and
those after it. -/
def lowerBetween (before : List Char) (c : Char) (after : List Char) : List Char :=
  if c = 'Σ' then
    [if meetsCased before && !meetsCased after then 'ς' else 'σ']
  else if c = 'İ' then ['i', '\u0307']
  else [lowerChar c]

/-- The lower-case form of the text that follows `before`, which is nearest first. -/
def lowerAfter (before : List Char) : List Char → List Char
  | [] => []
  | c :: rest => lowerBetween before c rest ++ lowerAfter (c :: before) rest

/-- The lower-case form of a text. -/
def lower (s : List Char) : List Char := lowerAfter [] s

end NetBoot.Text
