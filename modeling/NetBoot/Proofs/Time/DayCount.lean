-- The count of days as a calendar gives it: the lengths of the years and of the months before a
-- day, added up. The formula that counts from March gives the same, and with it the seconds of a
-- clock.
import Mathlib.Algebra.GroupWithZero.Nat
import NetBoot.Proofs.Time.ClockOrder

namespace NetBoot

namespace Date

/-- The lengths of the months of a year, from January on. -/
def monthLengths (year : Int) : List Nat :=
  [31, if 4 ∣ year ∧ (100 ∣ year → 400 ∣ year) then 29 else 28, 31, 30, 31, 30, 31, 31, 30, 31, 30,
    31]

/-- The days of the years from year 0 on that are over before this one begins. -/
def daysOfYearsBefore (year : Nat) : Nat :=
  ((List.range year).map fun y : Nat => (monthLengths y).sum).sum

/-- The days from the first of January of year 0 up to a day that does not lie before it. -/
def daysFromYear0 (d : Date) : Nat :=
  daysOfYearsBefore d.year.toNat + ((monthLengths d.year).take (d.month - 1)).sum + (d.day - 1)

theorem monthLengths_getElem? (year : Int) {m : Nat} (h : m < 12) :
    (monthLengths year)[m]? = some (daysInMonth year (m + 1)) := by
  by_cases hfebruary : m = 1
  · subst hfebruary
    have hleap : (4 ∣ year ∧ (100 ∣ year → 400 ∣ year)) ↔ isLeapYear year = true := by
      rw [isLeapYear, decide_eq_true_eq]
      omega
    simp only [monthLengths, hleap, daysInMonth, ↓reduceIte, List.getElem?_cons_succ,
      List.getElem?_cons_zero]
  · have hother : ∀ k < 12, k ≠ 1 → (monthLengths 0)[k]? = some (daysInMonth 0 (k + 1)) := by
      decide
    have hsame : (monthLengths year)[m]? = (monthLengths 0)[m]? := by
      rcases m with _ | _ | m
      · rfl
      · exact absurd rfl hfebruary
      · rfl
    rw [hsame, hother m h hfebruary, daysInMonth_of_ne_february (by omega) year]

/-- The months up to one are those before it and this one. -/
theorem sum_take_monthLengths (year : Int) {m : Nat} (h : m < 12) :
    ((monthLengths year).take (m + 1)).sum =
      ((monthLengths year).take m).sum + daysInMonth year (m + 1) := by
  rw [List.take_add_one, monthLengths_getElem? year h, List.sum_append]
  rfl

/-- The first day of a month comes after the months before it. -/
theorem firstOf_eq_add (year : Int) {m : Nat} (h : m < 12) :
    firstOf year (m + 1) = firstOf year 1 + ((monthLengths year).take m).sum := by
  induction m with
  | zero => exact (Int.add_zero _).symm
  | succ m ih =>
    rw [firstOf_succ year (Nat.le_add_left 1 m) h, ih (Nat.lt_of_succ_lt h),
      sum_take_monthLengths year (Nat.lt_of_succ_lt h)]
    omega

/-- A year begins when the months of the year before it are over. -/
theorem firstOf_year_succ (year : Int) :
    firstOf (year + 1) 1 = firstOf year 1 + (monthLengths year).sum := by
  have hdecember : firstOf year 12 = firstOf year 1 + ((monthLengths year).take 11).sum :=
    firstOf_eq_add year (show 11 < 12 by decide)
  have hall : (monthLengths year).sum = ((monthLengths year).take 11).sum + daysInMonth year 12 :=
    sum_take_monthLengths year (show 11 < 12 by decide)
  rw [firstOf_nextYear, hdecember, hall]
  omega

theorem firstOf_eq_sum (year : Nat) : firstOf year 1 = daysOfYearsBefore year - 719528 := by
  induction year with
  | zero => decide
  | succ year ih =>
    have hsum : daysOfYearsBefore (year + 1) =
        daysOfYearsBefore year + (monthLengths year).sum := by
      rw [daysOfYearsBefore, List.range_succ, List.map_append, List.sum_append]
      rfl
    rw [Int.natCast_succ, firstOf_year_succ, ih, hsum]
    omega

/-- The formula of the count of days adds up the years and months from year 0 on. -/
theorem toDays_eq_sum {d : Date} (hvalid : d.isValid = true) (hyear : 0 ≤ d.year) :
    d.toDays = d.daysFromYear0 - 719528 := by
  obtain ⟨hfirst, hlast, hday, _⟩ := isValid_iff.mp hvalid
  have hmonth := firstOf_eq_add d.year (show d.month - 1 < 12 by omega)
  have hsum := firstOf_eq_sum d.year.toNat
  rw [Int.toNat_of_nonneg hyear] at hsum
  rw [Nat.sub_add_cancel hfirst, hsum] at hmonth
  rw [toDays_eq, hmonth, daysFromYear0]
  omega

/-- The count of days from 1970 on is the difference of those from year 0 on. -/
theorem toDays_eq_sub {d : Date} (hvalid : d.isValid = true) (hyear : 0 ≤ d.year) :
    d.toDays = d.daysFromYear0 - (⟨1970, 1, 1⟩ : Date).daysFromYear0 := by
  have hepoch : (0 : Int) = (⟨1970, 1, 1⟩ : Date).daysFromYear0 - 719528 :=
    toDays_eq_sum (d := ⟨1970, 1, 1⟩) (by decide) (by decide)
  rw [toDays_eq_sum hvalid hyear]
  omega

example : (⟨2024, 2, 29⟩ : Date).daysFromYear0 = (⟨1970, 1, 1⟩ : Date).daysFromYear0 + 19782 := by
  decide +kernel

end Date

namespace ClockTime

/-- The seconds from 1970 on up to the second that a clock shows, leap seconds left out. The second
numbered 60 has those of the second before it. -/
def secondsFrom1970 (t : ClockTime) : Int :=
  ((t.date.daysFromYear0 : Int) - (⟨1970, 1, 1⟩ : Date).daysFromYear0) * 86400 +
    (t.hour * 3600 + t.minute * 60 + min t.second 59 : Nat)

/-- The second that a clock shows begins after this instant. The second numbered 60 begins when the
thousand million nanoseconds of the second before it are over. -/
def BeginsAfter (t : ClockTime) (now : Instant) : Prop :=
  now.seconds < t.secondsFrom1970 ∨
    now.seconds = t.secondsFrom1970 ∧ t.second = 60 ∧ now.nanos < 1000000000

theorem isAtMost_eq_false {t : ClockTime} {i : Instant} (h : t.toInstant? = some i)
    (hyear : 0 ≤ t.date.year) (hnanos : t.nanos = 0) (now : Instant) :
    i.isAtMost now = false ↔ t.BeginsAfter now := by
  obtain ⟨hdate, _, _, hsecond⟩ := isValid_iff.mp (isValid_of_toInstant? h)
  obtain ⟨hseconds, hleap⟩ := of_toInstant? h
  rw [Date.toDays_eq_sub hdate hyear] at hseconds
  rw [Instant.isAtMost, decide_eq_false_iff_not, BeginsAfter, secondsFrom1970, ← hseconds]
  unfold nanosPerSecond at hleap
  omega

end ClockTime

end NetBoot
