-- Instants as text (RFC 3339): read with any offset from UTC, and written in UTC.
import NetBoot.Time.Instant
import NetBoot.Text.Decimal
import NetBoot.Text.Split

namespace NetBoot.Timestamp

open Text

/-! ## Reading -/

/-- A number of exactly `width` digits at the front, and the rest. -/
def number? (width : Nat) (s : List Char) : Option (Nat × List Char) :=
  let digits := s.take width
  if digits.length = width then (readNat? digits).map fun n => (n, s.drop width) else none

/-- The rest after the character `c`. -/
def skip? (c : Char) : List Char → Option (List Char)
  | [] => none
  | d :: rest => if d = c then some rest else none

/-- The rest after the mark between the day and the time. -/
def skipMark? : List Char → Option (List Char)
  | [] => none
  | c :: rest => if c = 'T' ∨ c = 't' ∨ c = ' ' then some rest else none

/-- The nanoseconds that digits after a point write. Digits past the ninth do not count. -/
def nanosOfDigits (digits : List Char) : Nat :=
  let counted := digits.take 9
  (readNat? counted).getD 0 * Nat.pow 10 (9 - counted.length)

/-- A point with one or more digits at the front as nanoseconds, and the rest. Without a point
there are none. -/
def fraction? : List Char → Option (Nat × List Char)
  | [] => some (0, [])
  | c :: rest =>
    if c = '.' then
      let digits := rest.takeWhile fun d => (digit? d).isSome
      if digits = [] then none else some (nanosOfDigits digits, rest.drop digits.length)
    else some (0, c :: rest)

/-- Hours and minutes with a colon between them, as minutes, where nothing follows. -/
def offsetMinutes? (s : List Char) : Option Nat := do
  let (hours, s) ← number? 2 s
  let s ← skip? ':' s
  let (minutes, s) ← number? 2 s
  if s = [] ∧ hours ≤ 23 ∧ minutes ≤ 59 then some (hours * 60 + minutes) else none

/-- The offset from UTC in minutes, to the east. The minus sign may be a hyphen or the character
of mathematics. -/
def offset? : List Char → Option Int
  | [] => none
  | c :: rest =>
    if c = 'Z' ∨ c = 'z' then (if rest = [] then some 0 else none)
    else if c = '+' then (offsetMinutes? rest).map fun n => (n : Int)
    else if c = '-' ∨ c = '−' then (offsetMinutes? rest).map fun n => -(n : Int)
    else none

/-- The instant of a text such as `1999-12-31T23:59:59.5+01:00`. -/
def read? (s : List Char) : Option Instant := do
  let (year, s) ← number? 4 s
  let s ← skip? '-' s
  let (month, s) ← number? 2 s
  let s ← skip? '-' s
  let (day, s) ← number? 2 s
  let s ← skipMark? s
  let (hour, s) ← number? 2 s
  let s ← skip? ':' s
  let (minute, s) ← number? 2 s
  let s ← skip? ':' s
  let (second, s) ← number? 2 s
  let (nanos, s) ← fraction? s
  let offset ← offset? s
  let i ← ClockTime.toInstant? ⟨⟨year, month, day⟩, hour, minute, second, nanos⟩
  return { i with seconds := i.seconds - offset * 60 }

/-! ## Writing -/

/-- Four digits for the years 0 to 9999. The others have a sign and at least four digits, which
`read?` does not take. -/
def yearText (year : Int) : List Char :=
  if 0 ≤ year ∧ year ≤ 9999 then showNatPadded 4 year.toNat
  else (if year < 0 then '-' else '+') :: showNatPadded 4 year.natAbs

/-- A point and three, six or nine digits, as few as are exact, and nothing for no fraction. -/
def fractionText (nanos : Nat) : List Char :=
  if nanos = 0 then []
  else if nanos % 1000000 = 0 then '.' :: showNatPadded 3 (nanos / 1000000)
  else if nanos % 1000 = 0 then '.' :: showNatPadded 6 (nanos / 1000)
  else '.' :: showNatPadded 9 nanos

/-- The text of an instant in UTC. -/
def write (i : Instant) : List Char :=
  let t := ClockTime.ofInstant i
  yearText t.date.year ++ '-' :: showNatPadded 2 t.date.month ++ '-' :: showNatPadded 2 t.date.day ++
    'T' :: showNatPadded 2 t.hour ++ ':' :: showNatPadded 2 t.minute ++
    ':' :: showNatPadded 2 t.second ++ fractionText t.nanos ++ "+00:00".toList

end NetBoot.Timestamp
