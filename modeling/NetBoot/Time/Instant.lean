-- Instants of UTC with nanoseconds. A leap second belongs to the second before it, with a
-- fraction of one second or more.
import NetBoot.Time.Calendar

namespace NetBoot

structure Instant where
  /-- The seconds since 1970 began, leap seconds left out. -/
  seconds : Int
  /-- The part of a second after it. Within a leap second it is a thousand million or more. -/
  nanos : Nat
deriving DecidableEq, Repr, Inhabited

def nanosPerSecond : Nat := 1000000000

namespace Instant

/-- An instant is earlier by its seconds, and within a second by its fraction. -/
def isAtMost (s t : Instant) : Bool :=
  s.seconds < t.seconds ∨ (s.seconds = t.seconds ∧ s.nanos ≤ t.nanos)

instance : LE Instant := ⟨fun s t => s.isAtMost t = true⟩

instance (s t : Instant) : Decidable (s ≤ t) := inferInstanceAs (Decidable (s.isAtMost t = true))

end Instant

/-- A reading of a clock on a day. -/
structure ClockTime where
  date : Date
  hour : Nat
  minute : Nat
  second : Nat
  nanos : Nat := 0
deriving DecidableEq, Repr

namespace ClockTime

/-- Every minute may have a leap second, number 60. -/
def isValid (t : ClockTime) : Bool :=
  t.date.isValid ∧ t.hour ≤ 23 ∧ t.minute ≤ 59 ∧ t.second ≤ 60

/-- The instant of a reading in UTC, if it is one. -/
def toInstant? (t : ClockTime) : Option Instant :=
  if t.isValid then
    let leap := t.second = 60
    some
      { seconds :=
          t.date.toDays * 86400 +
            (t.hour * 3600 + t.minute * 60 + (if leap then 59 else t.second) : Nat)
        nanos := if leap then t.nanos + nanosPerSecond else t.nanos }
  else none

/-- The reading of a clock in UTC at an instant. -/
def ofInstant (i : Instant) : ClockTime :=
  let second := (i.seconds % 86400).toNat
  let leap := nanosPerSecond ≤ i.nanos
  { date := Date.ofDays (i.seconds / 86400)
    hour := second / 3600
    minute := second / 60 % 60
    second := second % 60 + (if leap then 1 else 0)
    nanos := if leap then i.nanos - nanosPerSecond else i.nanos }

end ClockTime

end NetBoot
