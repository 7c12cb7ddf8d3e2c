-- Byte strings: numbers with the most significant byte first, fields at fixed places, and
-- filling up with zeros.

namespace NetBoot

abbrev Bytes := List UInt8

namespace Bytes

/-- The number that the bytes write, the most significant first. -/
def toNat (bs : Bytes) : Nat := bs.foldl (fun n b => n * 256 + b.toNat) 0

/-- How many numbers `width` bytes can write. -/
def capacity (width : Nat) : Nat := Nat.pow 256 width

/-- The last `width` bytes of a number, the most significant first. -/
def ofNat : (width n : Nat) → Bytes
  | 0, _ => []
  | width + 1, n => UInt8.ofNat (n / capacity width) :: ofNat width n

/-- The `width` bytes from `start` on. -/
def slice (bs : Bytes) (start width : Nat) : Bytes := (bs.drop start).take width

/-- The bytes before the first zero. -/
def untilZero (bs : Bytes) : Bytes := bs.takeWhile (· ≠ 0)

/-- The bytes with zeros after them up to `width`. -/
def padTo (width : Nat) (bs : Bytes) : Bytes := bs ++ List.replicate (width - bs.length) 0

@[simp] theorem length_ofNat (width n : Nat) : (ofNat width n).length = width := by
  induction width with
  | zero => rfl
  | succ width ih => simp [ofNat, ih]

theorem length_slice {bs : Bytes} {start width : Nat} (h : start + width ≤ bs.length) :
    (slice bs start width).length = width := by
  simp [slice]; omega

theorem length_padTo {width : Nat} {bs : Bytes} (h : bs.length ≤ width) :
    (padTo width bs).length = width := by
  simp [padTo]; omega

theorem capacity_succ (width : Nat) : capacity (width + 1) = capacity width * 256 := rfl

theorem capacity_mono {m n : Nat} (h : m ≤ n) : capacity m ≤ capacity n :=
  Nat.pow_le_pow_right (by decide) h

/-- Taking the bytes one by one from a start value is taking them together after it. -/
theorem foldl_toNat (start : Nat) (bs : Bytes) :
    bs.foldl (fun n b => n * 256 + b.toNat) start = start * capacity bs.length + toNat bs := by
  induction bs generalizing start with
  | nil => simp [toNat, capacity]
  | cons b rest ih =>
    simp only [List.foldl_cons, List.length_cons, toNat]
    rw [ih, ih (0 * 256 + b.toNat)]
    rw [Nat.add_mul, Nat.zero_mul, Nat.zero_add, capacity_succ, Nat.mul_assoc, Nat.mul_comm 256]
    omega

theorem toNat_cons (b : UInt8) (rest : Bytes) :
    toNat (b :: rest) = b.toNat * capacity rest.length + toNat rest := by
  simpa [toNat] using foldl_toNat b.toNat rest

/-- Writing a number in `width` bytes and reading it keeps its remainder. -/
theorem toNat_ofNat (width n : Nat) : toNat (ofNat width n) = n % capacity width := by
  induction width with
  | zero => simp [ofNat, toNat, capacity, Nat.mod_one]
  | succ width ih =>
    rw [ofNat, toNat_cons, ih, length_ofNat, capacity_succ, Nat.mod_mul, UInt8.toNat_ofNat']
    rw [Nat.mul_comm, Nat.add_comm]

end Bytes

end NetBoot
