-- Every count of days is the count of the day that it is turned into, and the calendar has that
-- day. Years are counted in eras of 400 years, from the first of March on, so that the day which
-- a leap year adds is the last of its year.
import NetBoot.Time.Calendar

namespace NetBoot.Date

/-! ## The year within an era -/

/-- The days of an era before its year `y`. -/
def daysBefore (y : Nat) : Nat := 365 * y + y / 4 - y / 100 + y / 400

/-- The year of an era that its day `d` lies in. -/
def yearOfEra (d : Nat) : Nat := (d - d / 1460 + d / 36524 - d / 146096) / 365

theorem yearOfEra_mono {d e : Nat} (h : d ≤ e) (he : e < 146097) : yearOfEra d ≤ yearOfEra e := by
  have hyears : d - d / 1460 ≤ e - e / 1460 := by omega
  have hcenturies : d / 36524 - d / 146096 ≤ e / 36524 - e / 146096 := by omega
  apply Nat.div_le_div_right
  omega

/-- The first and the last day of each year lie in it. -/
theorem yearOfEra_ends : ∀ y < 400,
    yearOfEra (daysBefore y) = y ∧ yearOfEra (daysBefore (y + 1) - 1) = y := by
  decide +kernel

/-- The formula of the year is right for every day: it lies between the ends of its year, and the
years in between keep their order. -/
theorem yearOfEra_spec {d : Nat} (hd : d < 146097) :
    yearOfEra d < 400 ∧ daysBefore (yearOfEra d) ≤ d ∧ d < daysBefore (yearOfEra d + 1) := by
  have hlt : yearOfEra d < 400 := by
    unfold yearOfEra
    omega
  have hbound : ∀ y < 400, daysBefore y < 146097 := by
    intro y hy
    unfold daysBefore
    omega
  refine ⟨hlt, ?_, ?_⟩
  · apply Nat.le_of_not_lt
    intro hearly
    rcases hy : yearOfEra d with _ | y
    · rw [hy] at hearly
      exact absurd hearly (Nat.not_lt_zero d)
    · rw [hy] at hearly hlt
      have hnext := hbound (y + 1) hlt
      have hmono := yearOfEra_mono (show d ≤ daysBefore (y + 1) - 1 by omega) (by omega)
      rw [(yearOfEra_ends y (by omega)).2] at hmono
      omega
  · apply Nat.lt_of_not_le
    intro hlate
    by_cases hlast : yearOfEra d + 1 < 400
    · have hmono := yearOfEra_mono hlate hd
      rw [(yearOfEra_ends _ hlast).1] at hmono
      omega
    · have h399 : yearOfEra d = 399 := by omega
      rw [h399] at hlate
      exact absurd hd (Nat.not_lt_of_le hlate)

/-! ## The month within a year -/

/-- The month that the day `n` of a year lies in. March is month 0. -/
def marchMonth (n : Nat) : Nat := (5 * n + 2) / 153

/-- The days of a year before its month `m`. -/
def daysBeforeMonth (m : Nat) : Nat := (153 * m + 2) / 5

/-- The number of that month in a year from January on. -/
def monthNumber (m : Nat) : Nat := if m < 10 then m + 3 else m - 9

theorem monthNumber_facts : ∀ m < 12, 1 ≤ monthNumber m ∧ monthNumber m ≤ 12 ∧
    (monthNumber m + 9) % 12 = m := by
  decide

/-- Every month but February, which is the last one here, has the length that the calendar says. -/
theorem marchMonth_facts : ∀ n < 366, marchMonth n < 12 ∧ daysBeforeMonth (marchMonth n) ≤ n ∧
    (monthNumber (marchMonth n) = 2 → daysBeforeMonth (marchMonth n) = 337) ∧
    (monthNumber (marchMonth n) ≠ 2 →
      n - daysBeforeMonth (marchMonth n) < daysInMonth 0 (monthNumber (marchMonth n))) := by
  decide +kernel

theorem daysInMonth_of_ne_february {month : Nat} (h : month ≠ 2) (year : Int) :
    daysInMonth year month = daysInMonth 0 month := by
  unfold daysInMonth
  rw [if_neg h, if_neg h]

/-! ## A day -/

/-- A count of days by its era, the year in it and the day in the year. The day that a leap year
adds is in the February after the year from March on. -/
structure IsDay (days era : Int) (y n : Nat) : Prop where
  days_eq : days = era * 146097 + daysBefore y + n - 719468
  year_lt : y < 400
  day_lt : n < daysBefore (y + 1) - daysBefore y

/-- The date of the day `n` of the year `y` of an era. -/
def ofParts (era : Int) (y n : Nat) : Date where
  year := era * 400 + y + (if monthNumber (marchMonth n) ≤ 2 then 1 else 0)
  month := monthNumber (marchMonth n)
  day := n - daysBeforeMonth (marchMonth n) + 1

theorem ofDays_eq (days : Int) :
    ∃ era y n, IsDay days era y n ∧ ofDays days = ofParts era y n := by
  let d := ((days + 719468) % 146097).toNat
  have hd : (d : Int) = (days + 719468) % 146097 := by omega
  obtain ⟨hyear, hfirst, hlast⟩ := yearOfEra_spec (show d < 146097 by omega)
  have hday : d - (365 * yearOfEra d + yearOfEra d / 4 - yearOfEra d / 100) =
      d - daysBefore (yearOfEra d) := by
    unfold daysBefore
    rw [Nat.div_eq_of_lt hyear, Nat.add_zero]
  refine ⟨(days + 719468) / 146097, yearOfEra d, d - daysBefore (yearOfEra d), ?_, ?_⟩
  · exact ⟨by omega, hyear, by omega⟩
  · rw [← hday]
    rfl

variable {days era : Int} {y n : Nat}

theorem IsDay.lt (h : IsDay days era y n) : n < 366 := by
  have := h.day_lt
  unfold daysBefore at this
  omega

/-- The last day of a year from March on is there only if it is the leap day. -/
theorem IsDay.leap (h : IsDay days era y n) (hn : n = 365) :
    isLeapYear (era * 400 + y + 1) = true := by
  have hlt := h.day_lt
  unfold daysBefore at hlt
  simp only [isLeapYear, decide_eq_true_eq]
  omega

theorem toDays_ofParts (h : IsDay days era y n) : (ofParts era y n).toDays = days := by
  obtain ⟨hmonth, hbefore, _⟩ := marchMonth_facts n h.lt
  obtain ⟨hlow, _, hback⟩ := monthNumber_facts _ hmonth
  have hdays := h.days_eq
  have hyear := h.year_lt
  have hmarch : (if (ofParts era y n).month ≤ 2 then (ofParts era y n).year - 1
      else (ofParts era y n).year) = era * 400 + y := by
    unfold ofParts
    dsimp only
    split <;> omega
  unfold toDays
  simp only [hmarch]
  unfold ofParts
  simp only [hback]
  unfold daysBefore at hdays
  unfold daysBeforeMonth at hbefore ⊢
  omega

theorem isValid_ofParts (h : IsDay days era y n) : (ofParts era y n).isValid = true := by
  obtain ⟨hmonth, hbefore, hfebruary, hothers⟩ := marchMonth_facts n h.lt
  obtain ⟨hlow, hhigh, _⟩ := monthNumber_facts _ hmonth
  have hlt := h.lt
  unfold isValid
  rw [decide_eq_true_eq]
  refine ⟨hlow, hhigh, Nat.succ_pos _, ?_⟩
  unfold ofParts
  dsimp only
  by_cases h2 : monthNumber (marchMonth n) = 2
  · rw [hfebruary h2, h2, if_pos (Nat.le_refl 2)]
    by_cases hleap : n = 365
    · simp [daysInMonth, h.leap hleap, hleap]
    · have h28 : 28 ≤ daysInMonth (era * 400 + y + 1) 2 := by
        unfold daysInMonth
        split <;> split <;> decide
      omega
  · rw [daysInMonth_of_ne_february h2]
    have := hothers h2
    omega

/-- The date of a count of days is a day of the calendar and has that count. -/
theorem toDays_ofDays (days : Int) : (ofDays days).toDays = days := by
  obtain ⟨era, y, n, h, heq⟩ := ofDays_eq days
  rw [heq, toDays_ofParts h]

theorem isValid_ofDays (days : Int) : (ofDays days).isValid = true := by
  obtain ⟨era, y, n, h, heq⟩ := ofDays_eq days
  rw [heq, isValid_ofParts h]

end NetBoot.Date
