-- When a lease goes on after an instant, said by the digits of the date that a line names and by
-- the calendar. An end that is read is over exactly where the line names no such date.
import NetBoot.Proofs.Lease.LineForms
import NetBoot.Proofs.Time.DayCount

namespace NetBoot.LeaseLine

open Text

/-! ## The reading that digits show -/

/-- The ASCII digits of a valid reading of a clock to the second. -/
structure DateDigits.Shows (d : DateDigits) (t : ClockTime) : Prop where
  year : ∃ year, readNat? d.year = some year ∧ t.date.year = year
  month : readNat? d.month = some t.date.month
  day : readNat? d.day = some t.date.day
  hour : readNat? d.hour = some t.hour
  minute : readNat? d.minute = some t.minute
  second : readNat? d.second = some t.second
  nanos : t.nanos = 0
  valid : t.isValid = true

theorem DateDigits.Shows.leaseEnd_eq {d : DateDigits} {t : ClockTime} (h : d.Shows t) :
    ∃ i, t.toInstant? = some i ∧ d.leaseEnd = .at i := by
  obtain ⟨year, hyear, hdate⟩ := h.year
  have hinstant : instantOf? d.year d.month d.day d.hour d.minute d.second = t.toInstant? := by
    obtain ⟨⟨_, month, day⟩, hour, minute, second, nanos⟩ := t
    obtain rfl := hdate
    obtain rfl := h.nanos
    simp only [instantOf?, hyear, h.month, h.day, h.hour, h.minute, h.second, Option.bind_eq_bind,
      Option.bind_some]
  obtain ⟨i, hi⟩ : ∃ i, t.toInstant? = some i := ⟨_, if_pos h.valid⟩
  refine ⟨i, hi, ?_⟩
  rw [DateDigits.leaseEnd, hinstant, hi]

/-! ## Ends that lie ahead -/

variable {now : Instant}

/-- The lease goes on after this instant: the line says that it never ends, or the ASCII digits of
its date show a day of the calendar and a time of day that begins later. -/
def NamedEnd.IsAfter (now : Instant) : NamedEnd → Prop
  | never => True
  | date d => ∃ t, d.Shows t ∧ t.BeginsAfter now

/-- Digits of a date that is not over show a reading. -/
theorem DateDigits.exists_shows {d : DateDigits} (h : d.leaseEnd.isOver now = false) :
    ∃ t, d.Shows t := by
  cases hinstant : instantOf? d.year d.month d.day d.hour d.minute d.second with
  | none =>
    rw [leaseEnd, hinstant] at h
    cases h
  | some i =>
    unfold instantOf? at hinstant
    simp only [Option.bind_eq_bind, Option.bind_eq_some_iff] at hinstant
    obtain ⟨year, hyear, month, hmonth, day, hday, hour, hhour, minute, hminute, second, hsecond,
      hi⟩ := hinstant
    exact ⟨_, ⟨year, hyear, rfl⟩, hmonth, hday, hhour, hminute, hsecond, rfl,
      ClockTime.isValid_of_toInstant? hi⟩

theorem DateDigits.Shows.isOver_eq_false {d : DateDigits} {t : ClockTime} (h : d.Shows t) :
    d.leaseEnd.isOver now = false ↔ t.BeginsAfter now := by
  obtain ⟨i, hi, hend⟩ := h.leaseEnd_eq
  obtain ⟨year, _, hyear⟩ := h.year
  rw [hend, LeaseEnd.isOver, ClockTime.isAtMost_eq_false hi (by omega) h.nanos]

/-- A lease is not over exactly if the end that a line names lies ahead. -/
theorem NamedEnd.isOver_eq_false {named : NamedEnd} :
    named.leaseEnd.isOver now = false ↔ named.IsAfter now := by
  cases named with
  | never => exact ⟨fun _ => trivial, fun _ => rfl⟩
  | date d =>
    refine ⟨?_, ?_⟩
    · intro hahead
      obtain ⟨t, hshows⟩ := DateDigits.exists_shows hahead
      exact ⟨t, hshows, hshows.isOver_eq_false.mp hahead⟩
    · rintro ⟨t, hshows, hafter⟩
      exact hshows.isOver_eq_false.mpr hafter

end NetBoot.LeaseLine
