-- The text of an instant is read back as the instant, where its year has four digits.
import NetBoot.Proofs.Text.Numerals
import NetBoot.Proofs.Time.CalendarRoundTrip
import NetBoot.Time.Timestamp

namespace NetBoot

/-! ## Instants that clocks show -/

/-- The year of an instant in UTC. -/
def Instant.year (i : Instant) : Int := (ClockTime.ofInstant i).date.year

/-- The texts of years 0 to 9999 have four digits. -/
def Instant.InFourDigitYear (i : Instant) : Prop := 0 ≤ i.year ∧ i.year ≤ 9999

instance (i : Instant) : Decidable i.InFourDigitYear := inferInstanceAs (Decidable (_ ∧ _))

/-- The fraction is under a second, or under two in the last second of a minute, to which a leap
second belongs. -/
def Instant.OnClock (i : Instant) : Prop :=
  i.nanos < nanosPerSecond ∨ (i.nanos < 2 * nanosPerSecond ∧ i.seconds % 60 = 59)

instance (i : Instant) : Decidable i.OnClock := inferInstanceAs (Decidable (_ ∨ _))

/-- An instant that its text keeps: clocks show it, in a year of four digits. -/
structure Instant.IsWritable (i : Instant) : Prop where
  onClock : i.OnClock
  year : i.InFourDigitYear

instance (i : Instant) : Decidable i.IsWritable :=
  decidable_of_iff (i.OnClock ∧ i.InFourDigitYear) ⟨fun h => ⟨h.1, h.2⟩, fun h => ⟨h.1, h.2⟩⟩

namespace ClockTime

theorem toInstant?_of_isValid {t : ClockTime} (h : t.isValid = true) :
    toInstant? t = some
      { seconds := t.date.toDays * 86400 +
          (t.hour * 3600 + t.minute * 60 + (if t.second = 60 then 59 else t.second) : Nat)
        nanos := if t.second = 60 then t.nanos + nanosPerSecond else t.nanos } := by
  unfold toInstant?
  rw [if_pos h]

theorem isValid_ofInstant (i : Instant) : (ofInstant i).isValid = true := by
  have hdate : (Date.ofDays (i.seconds / 86400)).isValid = true := Date.isValid_ofDays _
  have hsecond : (i.seconds % 86400).toNat < 86400 := by omega
  unfold isValid ofInstant
  rw [decide_eq_true_eq]
  refine ⟨hdate, ?_, ?_, ?_⟩
  · show (i.seconds % 86400).toNat / 3600 ≤ 23
    omega
  · show (i.seconds % 86400).toNat / 60 % 60 ≤ 59
    omega
  · show (i.seconds % 86400).toNat % 60 + (if nanosPerSecond ≤ i.nanos then 1 else 0) ≤ 60
    split <;> omega

/-- The reading of a clock at an instant is a reading of that instant. -/
theorem toInstant?_ofInstant {i : Instant} (h : i.OnClock) : toInstant? (ofInstant i) = some i := by
  rw [toInstant?_of_isValid (isValid_ofInstant i)]
  obtain ⟨seconds, nanos⟩ := i
  unfold Instant.OnClock at h
  dsimp only at h
  have hdays : (Date.ofDays (seconds / 86400)).toDays = seconds / 86400 := Date.toDays_ofDays _
  have hleap : nanosPerSecond ≤ nanos → (seconds % 86400).toNat % 60 = 59 := by omega
  unfold ofInstant
  dsimp only
  rw [hdays]
  by_cases hn : nanosPerSecond ≤ nanos
  · have h59 := hleap hn
    simp only [hn, if_true, h59]
    congr 2
    · omega
    · omega
  · have h60 : (seconds % 86400).toNat % 60 ≠ 60 := by omega
    simp only [hn, if_false, Nat.add_zero, h60]
    congr 2
    omega

/-- The reading of a clock has two digits in every field but the year. -/
theorem ofInstant_bounds {i : Instant} (h : i.OnClock) :
    (ofInstant i).date.month < 100 ∧ (ofInstant i).date.day < 100 ∧ (ofInstant i).hour < 100 ∧
      (ofInstant i).minute < 100 ∧ (ofInstant i).second < 100 ∧
      (ofInstant i).nanos < nanosPerSecond := by
  have hvalid := isValid_ofInstant i
  unfold isValid Date.isValid at hvalid
  simp only [decide_eq_true_eq] at hvalid
  obtain ⟨⟨_, hmonth, _, hday⟩, hhour, hminute, hsecond⟩ := hvalid
  have hlength : ∀ year month, Date.daysInMonth year month ≤ 31 := by
    intro year month
    unfold Date.daysInMonth
    split
    · split <;> decide
    · split <;> decide
  have hnanos : (ofInstant i).nanos < nanosPerSecond := by
    show (if nanosPerSecond ≤ i.nanos then i.nanos - nanosPerSecond else i.nanos) < nanosPerSecond
    unfold Instant.OnClock at h
    split <;> omega
  have := hlength (ofInstant i).date.year (ofInstant i).date.month
  omega

end ClockTime

namespace Timestamp

open Text

/-! ## Pieces of a text -/

theorem number?_showNatPadded {width n : Nat} (hwidth : 0 < width) (h : n < 10 ^ width)
    (rest : List Char) : number? width (showNatPadded width n ++ rest) = some (n, rest) := by
  have hlen := length_showNatPadded hwidth h
  unfold number?
  dsimp only
  rw [List.take_left' hlen, if_pos hlen, readNat?_showNatPadded, List.drop_left' hlen,
    Option.map_some]

/-- The mark of UTC, as it is written. -/
def utcMark : List Char := "+00:00".toList

theorem fraction?_point {width n : Nat} (hwidth : 0 < width) (h9 : width ≤ 9)
    (h : n < 10 ^ width) :
    fraction? ('.' :: showNatPadded width n ++ utcMark) =
      some (n * 10 ^ (9 - width), utcMark) := by
  have hlen := length_showNatPadded hwidth h
  have hdigits : (showNatPadded width n ++ utcMark).takeWhile (fun d => (digit? d).isSome) =
      showNatPadded width n := by
    rw [List.takeWhile_append_of_pos]
    · exact List.append_nil _
    · intro c hc
      rw [digit?_isSome_iff]
      exact isDigit_of_mem_showNatPadded hc
  have hne : showNatPadded width n ≠ [] := by
    intro hnil
    rw [hnil] at hlen
    exact absurd hlen (Nat.ne_of_lt hwidth)
  have hcounted : (showNatPadded width n).take 9 = showNatPadded width n :=
    List.take_of_length_le (by omega)
  rw [List.cons_append, fraction?, if_pos rfl]
  dsimp only
  rw [hdigits, if_neg hne, List.drop_left, nanosOfDigits, hcounted, readNat?_showNatPadded, hlen]
  rfl

theorem fraction?_fractionText {nanos : Nat} (h : nanos < nanosPerSecond) :
    fraction? (fractionText nanos ++ utcMark) = some (nanos, utcMark) := by
  have hbound : nanos < 1000000000 := h
  unfold fractionText
  split
  · next h0 =>
    subst h0
    rfl
  split
  · next h3 =>
    rw [fraction?_point (by decide) (by decide) (by omega)]
    simp only [Option.some.injEq, Prod.mk.injEq, and_true]
    omega
  split
  · next h6 =>
    rw [fraction?_point (by decide) (by decide) (by omega)]
    simp only [Option.some.injEq, Prod.mk.injEq, and_true]
    omega
  · rw [fraction?_point (by decide) (by decide) (by omega)]
    simp

theorem yearText_eq {year : Int} (h : 0 ≤ year ∧ year ≤ 9999) :
    ∃ n : Nat, (n : Int) = year ∧ n < 10 ^ 4 ∧ yearText year = showNatPadded 4 n := by
  refine ⟨year.toNat, by omega, by omega, ?_⟩
  unfold yearText
  rw [if_pos h]

/-! ## The whole text -/

theorem skip?_self (c : Char) (rest : List Char) : skip? c (c :: rest) = some rest := if_pos rfl

theorem skipMark?_T (rest : List Char) : skipMark? ('T' :: rest) = some rest := by
  rw [skipMark?, if_pos (Or.inl rfl)]

/-- A reader that finds its piece hands on to the next one. -/
theorem bind_of_eq_some {α β : Type} {x : Option α} {a : α} {f : α → Option β} {b : Option β}
    (hx : x = some a) (hf : f a = b) : (x >>= f) = b := by
  rw [hx]
  exact hf

/-- The text of an instant that is writable is read back. -/
theorem read?_write {i : Instant} (h : i.IsWritable) : read? (write i) = some i := by
  obtain ⟨hclock, hyear⟩ := h
  obtain ⟨hmonth, hday, hhour, hminute, hsecond, hnanos⟩ := ClockTime.ofInstant_bounds hclock
  obtain ⟨year, hn, hyear4, htext⟩ := yearText_eq hyear
  have hback := ClockTime.toInstant?_ofInstant hclock
  unfold Instant.year at hn htext
  unfold write
  dsimp only
  rw [htext, show "+00:00".toList = utcMark from rfl]
  generalize ClockTime.ofInstant i = t at *
  obtain ⟨⟨y, month, day⟩, hour, minute, second, nanos⟩ := t
  dsimp only at *
  subst hn
  simp only [List.append_assoc, List.cons_append]
  unfold read?
  refine bind_of_eq_some (number?_showNatPadded (by decide) hyear4 _) ?_
  refine bind_of_eq_some (skip?_self '-' _) ?_
  refine bind_of_eq_some (number?_showNatPadded (by decide) hmonth _) ?_
  refine bind_of_eq_some (skip?_self '-' _) ?_
  refine bind_of_eq_some (number?_showNatPadded (by decide) hday _) ?_
  refine bind_of_eq_some (skipMark?_T _) ?_
  refine bind_of_eq_some (number?_showNatPadded (by decide) hhour _) ?_
  refine bind_of_eq_some (skip?_self ':' _) ?_
  refine bind_of_eq_some (number?_showNatPadded (by decide) hminute _) ?_
  refine bind_of_eq_some (skip?_self ':' _) ?_
  refine bind_of_eq_some (number?_showNatPadded (by decide) hsecond _) ?_
  refine bind_of_eq_some (fraction?_fractionText hnanos) ?_
  refine bind_of_eq_some (show offset? utcMark = some 0 from rfl) ?_
  refine bind_of_eq_some hback ?_
  simp

theorem read?_cons_of_not_digit {c : Char} (h : digit? c = none) (rest : List Char) :
    read? (c :: rest) = none := by
  have hyear : number? 4 (c :: rest) = none := by
    unfold number?
    simp [readNat?, continueNat?, h]
  unfold read?
  rw [hyear]
  rfl

/-- The text of any other year starts with a sign. -/
theorem yearText_of_not {year : Int} (h : ¬(0 ≤ year ∧ year ≤ 9999)) :
    ∃ sign rest, yearText year = sign :: rest ∧ digit? sign = none := by
  unfold yearText
  rw [if_neg h]
  refine ⟨_, _, rfl, ?_⟩
  split <;> decide

/-- An instant in a year without four digits is lost in writing. -/
theorem read?_write_eq_none {i : Instant} (h : ¬i.InFourDigitYear) : read? (write i) = none := by
  obtain ⟨sign, rest, htext, hsign⟩ := yearText_of_not h
  unfold Instant.year at htext
  unfold write
  dsimp only
  rw [htext]
  exact read?_cons_of_not_digit hsign _

/-- A character of the text of an instant. -/
def IsStampChar (c : Char) : Prop := c.isDigit = true ∨ c ∈ "+-T:.".toList

theorem isStampChar_of_mem_showNatPadded (width n : Nat) :
    ∀ c ∈ showNatPadded width n, IsStampChar c := fun _ hc =>
  Or.inl (isDigit_of_mem_showNatPadded hc)

theorem isStampChar_of_mem_fractionText (nanos : Nat) :
    ∀ c ∈ fractionText nanos, IsStampChar c := by
  have hpoint : IsStampChar '.' := Or.inr (by decide)
  unfold fractionText
  split
  · intro c hc
    cases hc
  split
  · exact List.forall_mem_cons.mpr ⟨hpoint, isStampChar_of_mem_showNatPadded _ _⟩
  split
  · exact List.forall_mem_cons.mpr ⟨hpoint, isStampChar_of_mem_showNatPadded _ _⟩
  · exact List.forall_mem_cons.mpr ⟨hpoint, isStampChar_of_mem_showNatPadded _ _⟩

theorem isStampChar_of_mem_yearText (year : Int) : ∀ c ∈ yearText year, IsStampChar c := by
  unfold yearText
  split
  · exact isStampChar_of_mem_showNatPadded _ _
  · refine List.forall_mem_cons.mpr ⟨?_, isStampChar_of_mem_showNatPadded _ _⟩
    split
    · exact Or.inr (by decide)
    · exact Or.inr (by decide)

theorem isStampChar_of_mem_write (i : Instant) : ∀ c ∈ write i, IsStampChar c := by
  have hmarks : ∀ c ∈ "+-T:.".toList, IsStampChar c := fun c => Or.inr
  have hhyphen : IsStampChar '-' := hmarks '-' (by decide)
  have hT : IsStampChar 'T' := hmarks 'T' (by decide)
  have hcolon : IsStampChar ':' := hmarks ':' (by decide)
  have hutc : ∀ c ∈ "+00:00".toList, IsStampChar c := by
    have hall : ("+00:00".toList.all fun c => c.isDigit || "+-T:.".toList.contains c) = true := by
      decide
    intro c hc
    simpa [IsStampChar] using List.all_eq_true.mp hall c hc
  unfold write
  dsimp only
  simp only [List.forall_mem_append, List.forall_mem_cons, hhyphen, hT, hcolon, true_and]
  have htwo : ∀ n : Nat, ∀ c ∈ showNatPadded 2 n, IsStampChar c :=
    isStampChar_of_mem_showNatPadded 2
  exact ⟨⟨⟨⟨⟨⟨⟨isStampChar_of_mem_yearText _, htwo _⟩, htwo _⟩, htwo _⟩, htwo _⟩, htwo _⟩,
    isStampChar_of_mem_fractionText _⟩, hutc⟩

theorem getLast?_write (i : Instant) : (write i).getLast? = some '0' := by
  unfold write
  rw [List.getLast?_append]
  rfl

/-! ## What is read -/

theorem nanosOfDigits_lt (digits : List Char) : nanosOfDigits digits < nanosPerSecond := by
  unfold nanosOfDigits
  dsimp only
  have hlen : (digits.take 9).length ≤ 9 := by
    rw [List.length_take]
    omega
  cases hread : readNat? (digits.take 9) with
  | none =>
    rw [Option.getD_none, Nat.zero_mul]
    decide
  | some n =>
    have hn := readNat?_lt hread
    rw [Option.getD_some]
    calc n * Nat.pow 10 (9 - (digits.take 9).length)
        < 10 ^ (digits.take 9).length * 10 ^ (9 - (digits.take 9).length) :=
          Nat.mul_lt_mul_of_pos_right hn (Nat.pow_pos (by decide))
      _ = 10 ^ 9 := by rw [← Nat.pow_add, Nat.add_sub_cancel' hlen]
      _ = nanosPerSecond := rfl

theorem fraction?_lt {s rest : List Char} {nanos : Nat} (h : fraction? s = some (nanos, rest)) :
    nanos < nanosPerSecond := by
  have hzero : (0 : Nat) < nanosPerSecond := by decide
  cases s with
  | nil =>
    cases h
    exact hzero
  | cons c s =>
    rw [fraction?] at h
    split at h
    · dsimp only at h
      split at h
      · cases h
      · cases h
        exact nanosOfDigits_lt _
    · cases h
      exact hzero

/-- Every instant that is read is one that clocks show. -/
theorem onClock_of_read? {s : List Char} {i : Instant} (h : read? s = some i) : i.OnClock := by
  unfold read? at h
  obtain ⟨⟨year, _⟩, _, h⟩ := Option.bind_eq_some_iff.mp h
  obtain ⟨_, _, h⟩ := Option.bind_eq_some_iff.mp h
  obtain ⟨⟨month, _⟩, _, h⟩ := Option.bind_eq_some_iff.mp h
  obtain ⟨_, _, h⟩ := Option.bind_eq_some_iff.mp h
  obtain ⟨⟨day, _⟩, _, h⟩ := Option.bind_eq_some_iff.mp h
  obtain ⟨_, _, h⟩ := Option.bind_eq_some_iff.mp h
  obtain ⟨⟨hour, _⟩, _, h⟩ := Option.bind_eq_some_iff.mp h
  obtain ⟨_, _, h⟩ := Option.bind_eq_some_iff.mp h
  obtain ⟨⟨minute, _⟩, _, h⟩ := Option.bind_eq_some_iff.mp h
  obtain ⟨_, _, h⟩ := Option.bind_eq_some_iff.mp h
  obtain ⟨⟨second, _⟩, _, h⟩ := Option.bind_eq_some_iff.mp h
  obtain ⟨⟨nanos, _⟩, hfraction, h⟩ := Option.bind_eq_some_iff.mp h
  obtain ⟨offset, _, h⟩ := Option.bind_eq_some_iff.mp h
  obtain ⟨j, hj, hi⟩ := Option.bind_eq_some_iff.mp h
  have hnanos := fraction?_lt hfraction
  unfold ClockTime.toInstant? at hj
  split at hj
  · simp only [Option.some.injEq] at hj
    cases hj
    cases hi
    unfold Instant.OnClock
    dsimp only
    split
    · right
      omega
    · exact Or.inl hnanos
  · cases hj

end Timestamp

end NetBoot
