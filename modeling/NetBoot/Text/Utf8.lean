-- UTF-8: writing text as bytes, and reading bytes that may not be text at all. A reader either
-- refuses what is not UTF-8 or puts one replacement character for each longest piece that starts
-- a character and does not finish it.
import NetBoot.Bytes

namespace NetBoot.Utf8

/-- The bytes of one character. -/
def encodeChar (c : Char) : Bytes :=
  let n := c.toNat
  if n < 0x80 then [UInt8.ofNat n]
  else if n < 0x800 then [UInt8.ofNat (0xC0 + n / 64), UInt8.ofNat (0x80 + n % 64)]
  else if n < 0x10000 then
    [UInt8.ofNat (0xE0 + n / 4096), UInt8.ofNat (0x80 + n / 64 % 64), UInt8.ofNat (0x80 + n % 64)]
  else
    [UInt8.ofNat (0xF0 + n / 262144), UInt8.ofNat (0x80 + n / 4096 % 64),
      UInt8.ofNat (0x80 + n / 64 % 64), UInt8.ofNat (0x80 + n % 64)]

/-- The bytes of a text. -/
def encode (s : List Char) : Bytes := s.flatMap encodeChar

/-- The six bits that a continuation byte between `low` and `high` carries. -/
def continuation? (low high : Nat) (b : UInt8) : Option Nat :=
  if low ≤ b.toNat ∧ b.toNat ≤ high then some (b.toNat - 0x80) else none

/-- How the second byte of a character is bounded, and how many more bytes follow it. -/
structure Lead where
  /-- The bits of the first byte, in place. -/
  bits : Nat
  low : Nat := 0x80
  high : Nat := 0xBF
  /-- The number of continuation bytes, from one to three. -/
  more : Nat

/-- What a first byte announces. The bounds of the second byte keep out overlong forms,
surrogates and numbers past the last character. -/
def lead? (b : UInt8) : Option Lead :=
  let n := b.toNat
  if 0xC2 ≤ n ∧ n ≤ 0xDF then some { bits := (n - 0xC0) * 64, more := 1 }
  else if n = 0xE0 then some { bits := 0, low := 0xA0, more := 2 }
  else if n = 0xED then some { bits := 0xD000, high := 0x9F, more := 2 }
  else if 0xE1 ≤ n ∧ n ≤ 0xEF then some { bits := (n - 0xE0) * 4096, more := 2 }
  else if n = 0xF0 then some { bits := 0, low := 0x90, more := 3 }
  else if 0xF1 ≤ n ∧ n ≤ 0xF3 then some { bits := (n - 0xF0) * 262144, more := 3 }
  else if n = 0xF4 then some { bits := 0x100000, high := 0x8F, more := 3 }
  else none

/-- Reads `more` continuation bytes, of which the first lies between `low` and `high`. Gives the
number they complete, if they all follow, and how many of them do. -/
def continueWith (bits low high : Nat) : (more : Nat) → Bytes → Option Nat × Nat
  | 0, _ => (some bits, 0)
  | _ + 1, [] => (none, 0)
  | more + 1, b :: rest =>
    match continuation? low high b with
    | none => (none, 0)
    | some six =>
      let (number, used) := continueWith (bits + six * Nat.pow 64 more) 0x80 0xBF more rest
      (number, used + 1)

/-- The character that the byte `b` starts, if the bytes after it finish one, and the number of
those bytes that belong to it. -/
def readChar (b : UInt8) (rest : Bytes) : Option Char × Nat :=
  if b.toNat < 0x80 then (some (Char.ofNat b.toNat), 0)
  else
    match lead? b with
    | none => (none, 0)
    | some lead =>
      let (number, used) := continueWith lead.bits lead.low lead.high lead.more rest
      (number.map Char.ofNat, used)

/-- The characters of the bytes after the first `skip`, with `none` for each longest piece that is
not one. -/
def readAfter : (skip : Nat) → Bytes → List (Option Char)
  | _, [] => []
  | skip + 1, _ :: rest => readAfter skip rest
  | 0, b :: rest =>
    let (c, used) := readChar b rest
    c :: readAfter used rest

/-- The characters of the bytes, with `none` for each longest piece that is not one. -/
def read (bs : Bytes) : List (Option Char) := readAfter 0 bs

theorem readAfter_eq_read (skip : Nat) (bs : Bytes) : readAfter skip bs = read (bs.drop skip) := by
  induction skip generalizing bs with
  | zero => rfl
  | succ skip ih =>
    cases bs with
    | nil => rfl
    | cons b rest => rw [readAfter, ih, List.drop_succ_cons]

@[simp] theorem read_nil : read [] = [] := rfl

theorem read_cons (b : UInt8) (rest : Bytes) :
    read (b :: rest) = (readChar b rest).1 :: read (rest.drop (readChar b rest).2) := by
  rw [← readAfter_eq_read]
  rfl

/-- The text of the bytes, if they are UTF-8. -/
def decode? (bs : Bytes) : Option (List Char) := (read bs).mapM id

/-- The text of the bytes, with the replacement character for each piece that is not UTF-8. -/
def decodeLossy (bs : Bytes) : List Char := (read bs).map fun c => c.getD '\uFFFD'

end NetBoot.Utf8

namespace NetBoot

/-- The bytes of a string. -/
def utf8 (s : String) : Bytes := Utf8.encode s.toList

/-- The string of the bytes, with the replacement character for each piece that is not UTF-8. -/
def lossy (bs : Bytes) : String := String.ofList (Utf8.decodeLossy bs)

end NetBoot
