-- The layer below the options: an area of padding and of triples of a code, a length and a value.
-- Options and the vendor table inside option 43 are both laid out this way.
import NetBoot.Packet.Options

namespace NetBoot

/-- A code and its value, with the place where the code stands. -/
structure Triple where
  offset : Nat
  code : UInt8
  value : Bytes
deriving DecidableEq, Repr

/-- What is wrong where an area cannot be read on. -/
inductive AreaFault where
  | lengthMissing
  | cutShort (declared available : Nat)
deriving DecidableEq, Repr

/-- The fault of an area: where it is, the code that stands there and what is wrong. -/
structure AreaEnd where
  offset : Nat
  code : UInt8
  fault : AreaFault
deriving DecidableEq, Repr

/-- An area as far as it can be read: its triples in order, and the fault that ended it, if one
did. -/
structure Area where
  triples : List Triple
  fault : Option AreaEnd
deriving DecidableEq, Repr

namespace Area

/-- The area with one more triple in front. -/
def cons (t : Triple) (area : Area) : Area := ⟨t :: area.triples, area.fault⟩

/-- Reads an area from its place `offset` on, after `skip` bytes that are read already. -/
def readAfter : (skip offset : Nat) → Bytes → Area
  | _, _, [] => ⟨[], none⟩
  | skip + 1, offset, _ :: rest => readAfter skip (offset + 1) rest
  | 0, offset, code :: rest =>
    if code = padCode then readAfter 0 (offset + 1) rest
    else if code = endCode then ⟨[], none⟩
    else
      match rest with
      | [] => ⟨[], some ⟨offset, code, .lengthMissing⟩⟩
      | len :: bytes =>
        if bytes.length < len.toNat then
          ⟨[], some ⟨offset, code, .cutShort len.toNat bytes.length⟩⟩
        else
          cons ⟨offset, code, bytes.take len.toNat⟩
            (readAfter (len.toNat + 1) (offset + 1) rest)

/-- Reads an area that starts at `offset`. Padding is left out. The end code ends the area, and
so does the end of the bytes. -/
def read (offset : Nat) (bs : Bytes) : Area := readAfter 0 offset bs

theorem readAfter_eq_read (skip offset : Nat) (bs : Bytes) (h : skip ≤ bs.length) :
    readAfter skip offset bs = read (offset + skip) (bs.drop skip) := by
  induction skip generalizing offset bs with
  | zero => rfl
  | succ skip ih =>
    cases bs with
    | nil => simp at h
    | cons b rest =>
      rw [readAfter, ih (offset + 1) rest (by simpa using h), List.drop_succ_cons]
      congr 1
      omega

@[simp] theorem read_nil (offset : Nat) : read offset [] = ⟨[], none⟩ := rfl

theorem read_pad (offset : Nat) (rest : Bytes) :
    read offset (padCode :: rest) = read (offset + 1) rest := by
  simp [read, readAfter]

theorem read_end (offset : Nat) (rest : Bytes) : read offset (endCode :: rest) = ⟨[], none⟩ := by
  simp [read, readAfter, padCode, endCode]

theorem read_lengthMissing (offset : Nat) {code : UInt8} (h0 : code ≠ padCode)
    (h1 : code ≠ endCode) : read offset [code] = ⟨[], some ⟨offset, code, .lengthMissing⟩⟩ := by
  simp [read, readAfter, h0, h1]

theorem read_cutShort (offset : Nat) {code len : UInt8} {bs : Bytes} (h0 : code ≠ padCode)
    (h1 : code ≠ endCode) (h : bs.length < len.toNat) :
    read offset (code :: len :: bs) =
      ⟨[], some ⟨offset, code, .cutShort len.toNat bs.length⟩⟩ := by
  simp [read, readAfter, h0, h1, h]

theorem read_triple (offset : Nat) {code len : UInt8} {bs : Bytes} (h0 : code ≠ padCode)
    (h1 : code ≠ endCode) (h : len.toNat ≤ bs.length) :
    read offset (code :: len :: bs) =
      cons ⟨offset, code, bs.take len.toNat⟩
        (read (offset + 2 + len.toNat) (bs.drop len.toNat)) := by
  have hskip : len.toNat + 1 ≤ (len :: bs).length := by simpa using h
  have heq := readAfter_eq_read (len.toNat + 1) (offset + 1) (len :: bs) hskip
  rw [List.drop_succ_cons] at heq
  have hlen : ¬ bs.length < len.toNat := by omega
  rw [read, readAfter, if_neg h0, if_neg h1]
  simp only [if_neg hlen]
  rw [heq, show offset + 1 + (len.toNat + 1) = offset + 2 + len.toNat by omega]

end Area

/-- The bytes of a triple. -/
def tripleBytes (code : UInt8) (value : Bytes) : Bytes :=
  code :: UInt8.ofNat value.length :: value

end NetBoot
