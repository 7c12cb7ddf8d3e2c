-- A clock that shows a later reading shows a later instant: readings are compared by their numbers,
-- from the year down to the second, and the calendar keeps that order over months of every length,
-- leap years and leap seconds.
import NetBoot.Proofs.Time.CalendarRoundTrip
import NetBoot.Time.Instant

namespace NetBoot

namespace Date

/-! ## The first days of months -/

/-- The year that a month lies in when years are counted from March. -/
def marchYear (year : Int) (month : Nat) : Int := if month ≤ 2 then year - 1 else year

/-- The days before the March of a year, up to a number that is the same for all years. -/
def daysBeforeMarch (year : Int) : Int := 365 * year + year / 4 - year / 100 + year / 400

/-- The count of days of the first day of a month. -/
def firstOf (year : Int) (month : Nat) : Int :=
  daysBeforeMarch (marchYear year month) + daysBeforeMonth ((month + 9) % 12) - 719468

theorem toDays_eq (d : Date) : d.toDays = firstOf d.year d.month + d.day - 1 := by
  simp only [firstOf, toDays, daysBeforeMarch, marchYear, daysBeforeMonth]
  omega

theorem daysBeforeMarch_eq (year : Int) :
    daysBeforeMarch year =
      daysBeforeMarch (year - 1) + 365 + (if isLeapYear year then 1 else 0) := by
  simp only [daysBeforeMarch, isLeapYear, decide_eq_true_eq]
  split <;> omega

theorem daysBeforeMonth_succ : ∀ m < 12, 1 ≤ m → m ≠ 2 →
    daysBeforeMonth ((m + 1 + 9) % 12) = daysBeforeMonth ((m + 9) % 12) + daysInMonth 0 m := by
  decide

/-- The next month of a year begins when the days of a month are over. -/
theorem firstOf_succ (year : Int) {month : Nat} (h1 : 1 ≤ month) (h12 : month < 12) :
    firstOf year (month + 1) = firstOf year month + daysInMonth year month := by
  by_cases h2 : month = 2
  · -- The year from March on begins after February, with the leap day if there is one.
    subst h2
    have hmarch := daysBeforeMarch_eq year
    have hfebruary : firstOf year 2 = daysBeforeMarch (year - 1) + 337 - 719468 := rfl
    have hnext : firstOf year 3 = daysBeforeMarch year + 0 - 719468 := rfl
    rw [hfebruary, hnext, daysInMonth, if_pos rfl]
    cases hleap : isLeapYear year with
    | false =>
      rw [hleap] at hmarch
      simp only [Bool.false_eq_true, ↓reduceIte] at hmarch ⊢
      omega
    | true =>
      rw [hleap] at hmarch
      simp only [↓reduceIte] at hmarch ⊢
      omega
  · have hmonth := daysBeforeMonth_succ month h12 h1 h2
    have hyear : marchYear year (month + 1) = marchYear year month := by
      unfold marchYear
      split <;> split <;> omega
    simp only [firstOf, hyear, hmonth, daysInMonth_of_ne_february h2]
    omega

theorem firstOf_nextYear (year : Int) :
    firstOf (year + 1) 1 = firstOf year 12 + daysInMonth year 12 := by
  have hjanuary : firstOf (year + 1) 1 = daysBeforeMarch (year + 1 - 1) + 306 - 719468 := rfl
  have hdecember : firstOf year 12 = daysBeforeMarch year + 275 - 719468 := rfl
  have hdays : daysInMonth year 12 = 31 := rfl
  rw [hjanuary, hdecember, hdays, Int.add_sub_cancel]
  omega

theorem firstOf_mono_month (year : Int) {m n : Nat} (h1 : 1 ≤ m) (hmn : m ≤ n) (h12 : n ≤ 12) :
    firstOf year m ≤ firstOf year n := by
  induction hmn with
  | refl => exact Int.le_refl _
  | @step n hmn ih =>
    have hnext := firstOf_succ year (Nat.le_trans h1 hmn) (Nat.lt_of_succ_le h12)
    have hle := ih (Nat.le_of_succ_le h12)
    rw [Nat.succ_eq_add_one, hnext]
    omega

theorem firstOf_mono_year {y z : Int} (h : y ≤ z) : firstOf y 1 ≤ firstOf z 1 := by
  have hy : firstOf y 1 = daysBeforeMarch (y - 1) + 306 - 719468 := rfl
  have hz : firstOf z 1 = daysBeforeMarch (z - 1) + 306 - 719468 := rfl
  rw [hy, hz]
  unfold daysBeforeMarch
  omega

/-- The days of a month are over when the next year begins. -/
theorem add_daysInMonth_le_nextYear (year : Int) {month : Nat} (h1 : 1 ≤ month)
    (h12 : month ≤ 12) :
    firstOf year month + daysInMonth year month ≤ firstOf (year + 1) 1 := by
  rcases Nat.lt_or_eq_of_le h12 with hlt | rfl
  · have hmono := firstOf_mono_month year (Nat.le_add_left 1 month) hlt (Nat.le_refl 12)
    rw [← firstOf_succ year h1 hlt, firstOf_nextYear]
    omega
  · exact Int.le_of_eq (firstOf_nextYear year).symm

/-! ## Days -/

variable {d e : Date}

/-- The year, the month and the day, as days are compared. -/
def numbers (d : Date) : List Int := [d.year, d.month, d.day]

theorem numbers_lt : d.numbers < e.numbers ↔ d.year < e.year ∨
    d.year = e.year ∧ (d.month < e.month ∨ d.month = e.month ∧ d.day < e.day) := by
  simp only [numbers, List.cons_lt_cons_iff, List.not_lt_nil, and_false, or_false]
  omega

theorem isValid_iff : d.isValid = true ↔
    1 ≤ d.month ∧ d.month ≤ 12 ∧ 1 ≤ d.day ∧ d.day ≤ daysInMonth d.year d.month := by
  rw [isValid, decide_eq_true_eq]

/-- An earlier day of the calendar has a smaller count. -/
theorem toDays_lt (hd : d.isValid = true) (he : e.isValid = true) (h : d.numbers < e.numbers) :
    d.toDays < e.toDays := by
  obtain ⟨hd1, hd12, _, hlast⟩ := isValid_iff.mp hd
  obtain ⟨he1, he12, hfirst, _⟩ := isValid_iff.mp he
  rw [toDays_eq, toDays_eq]
  rcases numbers_lt.mp h with hyear | ⟨hyear, hmonth | ⟨hmonth, hday⟩⟩
  · have hover := add_daysInMonth_le_nextYear d.year hd1 hd12
    have hyears := firstOf_mono_year (show d.year + 1 ≤ e.year from hyear)
    have hmonths := firstOf_mono_month e.year (Nat.le_refl 1) he1 he12
    omega
  · have hnext := firstOf_succ d.year hd1 (Nat.lt_of_lt_of_le hmonth he12)
    have hmonths := firstOf_mono_month d.year (Nat.le_add_left 1 d.month) hmonth he12
    rw [← hyear]
    omega
  · rw [← hyear, ← hmonth]
    omega

end Date

namespace ClockTime

/-! ## Readings -/

variable {t u : ClockTime} {i j : Instant}

/-- The numbers of a reading from the year down to the second, as readings are compared. Second 60
comes after second 59 and before the next minute. -/
def numbers (t : ClockTime) : List Int := t.date.numbers ++ [(t.hour : Int), t.minute, t.second]

theorem numbers_lt : t.numbers < u.numbers ↔ t.date.numbers < u.date.numbers ∨
    t.date = u.date ∧ (t.hour < u.hour ∨ t.hour = u.hour ∧
      (t.minute < u.minute ∨ t.minute = u.minute ∧ t.second < u.second)) := by
  obtain ⟨⟨y, m, d⟩, hour, minute, second, nanos⟩ := t
  obtain ⟨⟨y', m', d'⟩, hour', minute', second', nanos'⟩ := u
  simp only [numbers, Date.numbers, List.cons_append, List.nil_append, List.cons_lt_cons_iff,
    List.not_lt_nil, and_false, or_false, Date.mk.injEq]
  omega

theorem isValid_iff :
    t.isValid = true ↔ t.date.isValid = true ∧ t.hour ≤ 23 ∧ t.minute ≤ 59 ∧ t.second ≤ 60 := by
  rw [isValid, decide_eq_true_eq]

/-- The instant of a valid reading. A leap second is the second before it, and a fraction of one
second more. -/
theorem of_toInstant? (h : t.toInstant? = some i) :
    i.seconds = t.date.toDays * 86400 +
      (t.hour * 3600 + t.minute * 60 + min t.second 59 : Nat) ∧
    i.nanos = t.nanos + (t.second - 59) * nanosPerSecond := by
  rw [toInstant?, Option.ite_none_right_eq_some, Option.some.injEq] at h
  obtain ⟨hvalid, rfl⟩ := h
  obtain ⟨_, _, _, hsecond⟩ := isValid_iff.mp hvalid
  dsimp only
  by_cases hleap : t.second = 60
  · rw [if_pos hleap, if_pos hleap, hleap]
    exact ⟨rfl, rfl⟩
  · have hwhole : t.second - 59 = 0 := by omega
    rw [if_neg hleap, if_neg hleap, hwhole]
    exact ⟨by omega, by omega⟩

theorem isValid_of_toInstant? (h : t.toInstant? = some i) : t.isValid = true := by
  rw [toInstant?, Option.ite_none_right_eq_some] at h
  exact h.1

end ClockTime

namespace Instant

theorem le_iff {i j : Instant} :
    i ≤ j ↔ i.seconds < j.seconds ∨ (i.seconds = j.seconds ∧ i.nanos ≤ j.nanos) := by
  show i.isAtMost j = true ↔ _
  rw [isAtMost, decide_eq_true_eq]

theorem le_refl (i : Instant) : i ≤ i := le_iff.mpr (Or.inr ⟨rfl, Nat.le_refl _⟩)

theorem le_trans {i j k : Instant} (hij : i ≤ j) (hjk : j ≤ k) : i ≤ k := by
  rw [le_iff] at hij hjk ⊢
  omega

end Instant

namespace ClockTime

variable {t u : ClockTime} {i j : Instant}

/-- A reading of an earlier second is a reading of an earlier instant. -/
theorem not_le_of_numbers_lt (ht : t.toInstant? = some i) (hu : u.toInstant? = some j)
    (htn : t.nanos = 0) (h : t.numbers < u.numbers) : ¬ j ≤ i := by
  obtain ⟨htdate, hth, htm, hts⟩ := isValid_iff.mp (isValid_of_toInstant? ht)
  obtain ⟨hudate, _, _, hus⟩ := isValid_iff.mp (isValid_of_toInstant? hu)
  obtain ⟨hi, hin⟩ := of_toInstant? ht
  obtain ⟨hj, hjn⟩ := of_toInstant? hu
  rw [Instant.le_iff]
  unfold nanosPerSecond at hin hjn
  rcases numbers_lt.mp h with hdate | ⟨hdate, htime⟩
  · have hdays := Date.toDays_lt htdate hudate hdate
    omega
  · rw [hdate] at hi
    omega

theorem eq_of_numbers_eq (h : t.numbers = u.numbers) (hnanos : t.nanos = u.nanos) : t = u := by
  obtain ⟨⟨y, m, d⟩, hour, minute, second, nanos⟩ := t
  obtain ⟨⟨y', m', d'⟩, hour', minute', second', nanos'⟩ := u
  simp only [numbers, Date.numbers, List.cons_append, List.nil_append, List.cons.injEq] at h
  simp only [mk.injEq, Date.mk.injEq]
  dsimp only at hnanos
  omega

/-- Of two readings of whole seconds, the one that is not earlier by its numbers is not the earlier
instant, and only that one. -/
theorem le_iff_not_numbers_lt (ht : t.toInstant? = some i) (hu : u.toInstant? = some j)
    (htn : t.nanos = 0) (hun : u.nanos = 0) : i ≤ j ↔ ¬ u.numbers < t.numbers := by
  constructor
  · intro hle hlt
    exact not_le_of_numbers_lt hu ht hun hlt hle
  · intro hnot
    rcases List.le_iff_lt_or_eq.mp (List.not_lt.mp hnot) with hlt | heq
    · have hlater := not_le_of_numbers_lt ht hu htn hlt
      rw [Instant.le_iff] at hlater ⊢
      omega
    · obtain rfl := eq_of_numbers_eq heq (htn.trans hun.symm)
      obtain rfl := Option.some.inj (ht.symm.trans hu)
      exact Instant.le_refl i

end ClockTime

end NetBoot
