-- Where a word stands first in a text, counted in characters and in the bytes of UTF-8, and the
-- places among the bytes at which a text can be cut.
import NetBoot.Proofs.Text.Scanning
import NetBoot.Proofs.Text.Utf8RoundTrip

namespace NetBoot

/-! ## By characters -/

namespace Text

variable {part before s t rest : List Char}

/-- Of two places of a word in a text, what stands before the one is the front of what stands before
the other. -/
theorem front_prefix_of_length_le {front other : List Char} (hfront : front ++ part <+: s)
    (hother : other ++ part <+: s) (hle : front.length ≤ other.length) : front <+: other :=
  List.prefix_of_prefix_length_le ((List.prefix_append _ _).trans hfront)
    ((List.prefix_append _ _).trans hother) hle

/-- The word stands in the text after `before`, and at no place further to the front. -/
structure StandsFirst (part before s : List Char) : Prop where
  stands : before ++ part <+: s
  first : ∀ front, front ++ part <+: s → before.length ≤ front.length

/-- What comes after a word does not change that it stands there first. -/
theorem StandsFirst.congr (h : StandsFirst part before s) (ht : before ++ part <+: t) :
    StandsFirst part before t := by
  refine ⟨ht, fun front hfront => ?_⟩
  apply Nat.le_of_not_lt
  intro hlt
  have hshort : front ++ part <+: before ++ part := by
    apply List.prefix_of_prefix_length_le hfront ht
    rw [List.length_append, List.length_append]
    omega
  exact absurd (h.first front (hshort.trans h.stands)) (Nat.not_le.mpr hlt)

theorem standsFirst_front (h : part <+: s) : StandsFirst part [] s :=
  ⟨h, fun _ _ => Nat.zero_le _⟩

theorem StandsFirst.cons {c : Char} (hc : ¬ part <+: c :: s) (h : StandsFirst part before s) :
    StandsFirst part (c :: before) (c :: s) := by
  refine ⟨(List.prefix_cons_inj c).mpr h.stands, fun front hfront => ?_⟩
  cases front with
  | nil => exact absurd hfront hc
  | cons d front =>
    rw [List.cons_append, List.cons_prefix_cons] at hfront
    exact Nat.succ_le_succ (h.first front hfront.2)

theorem StandsFirst.of_cons {c : Char} (h : StandsFirst part (c :: before) (c :: s)) :
    StandsFirst part before s := by
  refine ⟨(List.prefix_cons_inj c).mp h.stands, fun front hfront => ?_⟩
  exact Nat.le_of_succ_le_succ (h.first (c :: front) ((List.prefix_cons_inj c).mpr hfront))

/-- The rest that is found is that after the first place of the word. -/
theorem afterFirst?_eq_some :
    afterFirst? part s = some rest ↔ ∃ before, StandsFirst part before s ∧
      s = before ++ part ++ rest := by
  induction s with
  | nil =>
    rw [afterFirst?, after?_eq_some]
    refine ⟨fun h => ⟨[], standsFirst_front ⟨rest, h.symm⟩, h⟩, ?_⟩
    rintro ⟨before, _, h⟩
    rw [List.append_assoc] at h
    exact h.trans (by rw [(List.append_eq_nil_iff.mp h.symm).1, List.nil_append])
  | cons c s ih =>
    rw [afterFirst?]
    cases hfront : after? part (c :: s) with
    | some found =>
      have hfound := after?_eq_some.mp hfront
      rw [Option.orElse_some, Option.some.injEq]
      refine ⟨?_, ?_⟩
      · rintro rfl
        exact ⟨[], standsFirst_front ⟨_, hfound.symm⟩, hfound⟩
      · rintro ⟨before, hbefore, h⟩
        have hnil := List.length_eq_zero_iff.mp
          (Nat.le_zero.mp (hbefore.first [] ⟨_, hfound.symm⟩))
        rw [hnil, hfound, List.nil_append] at h
        exact List.append_cancel_left h
    | none =>
      have hnot : ¬ part <+: c :: s := by
        rintro ⟨rest, hrest⟩
        rw [after?_eq_some.mpr hrest.symm] at hfront
        cases hfront
      rw [Option.orElse_none, ih]
      refine ⟨?_, ?_⟩
      · rintro ⟨before, hbefore, rfl⟩
        exact ⟨c :: before, hbefore.cons hnot, rfl⟩
      · rintro ⟨before, hbefore, h⟩
        cases before with
        | nil => exact absurd ⟨rest, h.symm⟩ hnot
        | cons d before =>
          rw [List.cons_append, List.cons_append, List.cons.injEq] at h
          obtain ⟨rfl, h⟩ := h
          exact ⟨before, hbefore.of_cons, h⟩

/-- A word without a character ends before the first of these. -/
theorem prefix_append_cons_iff {lead : List Char} {c : Char} (h : c ∉ lead) :
    lead <+: before ++ c :: rest ↔ lead <+: before := by
  refine ⟨fun hlead => ?_, fun hlead => hlead.trans (List.prefix_append _ _)⟩
  induction before generalizing lead with
  | nil =>
    cases lead with
    | nil => exact List.prefix_rfl
    | cons l lead =>
      rw [List.nil_append, List.cons_prefix_cons] at hlead
      exact absurd (hlead.1 ▸ List.mem_cons_self) h
  | cons d before ih =>
    cases lead with
    | nil => exact List.nil_prefix
    | cons l lead =>
      rw [List.cons_append, List.cons_prefix_cons] at hlead
      rw [List.cons_prefix_cons]
      exact ⟨hlead.1, ih (fun hmem => h (List.mem_cons_of_mem l hmem)) hlead.2⟩

end Text

/-! ## By bytes -/

namespace Utf8

open Text

variable {bs cs : Bytes} {i : Nat}

/-- Whether the byte goes on with a character. -/
def continues (b : UInt8) : Bool := 0x80 ≤ b.toNat && b.toNat < 0xC0

/-- Whether a character starts at the place, or the text ends there. -/
def isBoundary (bs : Bytes) (i : Nat) : Bool :=
  match bs[i]? with
  | some b => !continues b
  | none => i == bs.length

/-- The bytes from a place on, if it does not fall within a character. -/
def dropAt? (bs : Bytes) (i : Nat) : Option Bytes :=
  if isBoundary bs i then some (bs.drop i) else none

/-- The bytes up to a place, if it does not fall within a character. -/
def takeAt? (bs : Bytes) (i : Nat) : Option Bytes :=
  if isBoundary bs i then some (bs.take i) else none

/-- The first place at which the bytes of a word stand. -/
def place? (part : Bytes) : Bytes → Option Nat
  | [] => if part.isPrefixOf [] then some 0 else none
  | b :: bs => if part.isPrefixOf (b :: bs) then some 0 else (place? part bs).map (· + 1)

/-- The place among the bytes of a text at which its first character with the property starts. -/
def charPlace? (p : Char → Bool) : List Char → Option Nat
  | [] => none
  | c :: s => if p c then some 0 else (charPlace? p s).map (· + (encodeChar c).length)

/-- The first byte of a character does not go on with one, and all the others do. -/
theorem continues_encodeChar (c : Char) :
    ∃ b more, encodeChar c = b :: more ∧ continues b = false ∧ ∀ x ∈ more, continues x = true := by
  have hc := scalar_bounds c
  unfold encodeChar
  simp only []
  generalize c.toNat = n at hc
  have hlead : ∀ k < 256, k < 0x80 ∨ 0xC0 ≤ k → continues (UInt8.ofNat k) = false := by
    decide +kernel
  have hmore : ∀ six < 64, continues (UInt8.ofNat (0x80 + six)) = true := by decide +kernel
  split
  · exact ⟨_, [], rfl, hlead _ (by omega) (by omega), by simp⟩
  split
  · refine ⟨_, [_], rfl, hlead _ (by omega) (by omega), ?_⟩
    exact List.forall_mem_singleton.mpr (hmore _ (by omega))
  split
  · refine ⟨_, [_, _], rfl, hlead _ (by omega) (by omega), List.forall_mem_cons.mpr ?_⟩
    exact ⟨hmore _ (by omega), List.forall_mem_singleton.mpr (hmore _ (by omega))⟩
  · refine ⟨_, [_, _, _], rfl, hlead _ (by omega) (by omega), List.forall_mem_cons.mpr ?_⟩
    refine ⟨hmore _ (by omega), List.forall_mem_cons.mpr ?_⟩
    exact ⟨hmore _ (by omega), List.forall_mem_singleton.mpr (hmore _ (by omega))⟩

theorem isBoundary_append (bs cs : Bytes) (i : Nat) :
    isBoundary (bs ++ cs) (bs.length + i) = isBoundary cs i := by
  unfold isBoundary
  rw [List.getElem?_append_right (Nat.le_add_right _ _), Nat.add_sub_cancel_left,
    List.length_append]
  cases cs[i]? with
  | some b => rfl
  | none => simp

theorem isBoundary_of_getElem? {b : UInt8} (h : bs[i]? = some b) :
    isBoundary bs i = !continues b := by
  rw [isBoundary, h]

/-- Within the first character of a text only its first byte is such a place. -/
theorem isBoundary_of_lt {c : Char} (h : i < (encodeChar c).length) (s : List Char) :
    isBoundary (encode (c :: s)) i = true ↔ i = 0 := by
  obtain ⟨b, more, hc, hb, hmore⟩ := continues_encodeChar c
  rw [hc, List.length_cons] at h
  cases i with
  | zero =>
    have hget : (encode (c :: s))[0]? = some b := by
      rw [encode_cons, hc]
      rfl
    rw [isBoundary_of_getElem? hget, hb]
    exact iff_of_true rfl rfl
  | succ i =>
    have hi : i < more.length := Nat.lt_of_succ_lt_succ h
    have hget : (encode (c :: s))[i + 1]? = some more[i] := by
      rw [encode_cons, hc, List.cons_append, List.getElem?_cons_succ,
        List.getElem?_append_left hi, List.getElem?_eq_getElem hi]
    rw [isBoundary_of_getElem? hget, hmore _ (List.getElem_mem hi)]
    exact iff_of_false Bool.false_ne_true (Nat.succ_ne_zero i)

/-- The places at which a text can be cut are those between its characters. -/
theorem isBoundary_encode {s : List Char} :
    isBoundary (encode s) i = true ↔
      ∃ front back, s = front ++ back ∧ i = (encode front).length := by
  induction s generalizing i with
  | nil =>
    rw [show isBoundary (encode []) i = (i == 0) from rfl, beq_iff_eq]
    refine ⟨fun h => ⟨[], [], rfl, h⟩, ?_⟩
    rintro ⟨front, back, hnil, h⟩
    rwa [(List.append_eq_nil_iff.mp hnil.symm).1] at h
  | cons c s ih =>
    refine ⟨fun h => ?_, ?_⟩
    · rcases Nat.lt_or_ge i (encodeChar c).length with hlt | hge
      · exact ⟨[], c :: s, rfl, (isBoundary_of_lt hlt s).mp h⟩
      · obtain ⟨k, rfl⟩ := Nat.exists_eq_add_of_le hge
        rw [encode_cons, isBoundary_append] at h
        obtain ⟨front, back, rfl, rfl⟩ := ih.mp h
        refine ⟨c :: front, back, rfl, ?_⟩
        rw [encode_cons, List.length_append]
    · rintro ⟨front, back, hs, rfl⟩
      cases front with
      | nil => exact (isBoundary_of_lt (length_encodeChar_pos c) s).mpr rfl
      | cons d front =>
        rw [List.cons_append, List.cons.injEq] at hs
        obtain ⟨rfl, rfl⟩ := hs
        rw [encode_cons, encode_cons, List.length_append, isBoundary_append]
        exact ih.mpr ⟨front, back, rfl, rfl⟩

theorem dropAt?_encode (front back : List Char) :
    dropAt? (encode (front ++ back)) (encode front).length = some (encode back) := by
  rw [dropAt?, if_pos (isBoundary_encode.mpr ⟨front, back, rfl, rfl⟩), encode_append,
    List.drop_left]

theorem takeAt?_encode (front back : List Char) :
    takeAt? (encode (front ++ back)) (encode front).length = some (encode front) := by
  rw [takeAt?, if_pos (isBoundary_encode.mpr ⟨front, back, rfl, rfl⟩), encode_append,
    List.take_left]

/-! ## The first place of a word among bytes -/

variable {part before s : List Char}

/-- A word at the front has no place before it. -/
theorem firstPlace_of_front {word : Bytes} (h : word <+: bs) :
    (word <+: bs.drop i ∧ ∀ j < i, ¬ word <+: bs.drop j) ↔ 0 = i := by
  refine ⟨?_, ?_⟩
  · rintro ⟨_, hnot⟩
    exact (Nat.eq_zero_of_not_pos fun hpos => hnot 0 hpos h).symm
  · rintro rfl
    exact ⟨h, fun j hj => absurd hj (Nat.not_lt_zero j)⟩

theorem place?_eq_some {word : Bytes} :
    place? word bs = some i ↔ word <+: bs.drop i ∧ ∀ j < i, ¬ word <+: bs.drop j := by
  induction bs generalizing i with
  | nil =>
    rw [place?, Option.ite_none_right_eq_some, List.isPrefixOf_iff_prefix, Option.some.injEq]
    refine ⟨fun h => (firstPlace_of_front h.1).mpr h.2, fun h => ?_⟩
    have hword : word <+: [] := by simpa using h.1
    exact ⟨hword, (firstPlace_of_front hword).mp h⟩
  | cons b bs ih =>
    rw [place?]
    by_cases hword : word <+: b :: bs
    · rw [if_pos (List.isPrefixOf_iff_prefix.mpr hword), Option.some.injEq,
        firstPlace_of_front hword]
    · rw [if_neg (mt List.isPrefixOf_iff_prefix.mp hword), Option.map_eq_some_iff]
      refine ⟨?_, ?_⟩
      · rintro ⟨k, hk, rfl⟩
        obtain ⟨hat, hnot⟩ := ih.mp hk
        refine ⟨hat, fun j hj => ?_⟩
        cases j with
        | zero => exact hword
        | succ j => exact hnot j (Nat.lt_of_succ_lt_succ hj)
      · rintro ⟨hat, hnot⟩
        cases i with
        | zero => exact absurd hat hword
        | succ k =>
          exact ⟨k, ih.mpr ⟨hat, fun j hj => hnot (j + 1) (Nat.succ_lt_succ hj)⟩, rfl⟩

theorem encode_prefix_iff : encode part <+: encode s ↔ part <+: s := by
  refine ⟨?_, ?_⟩
  · rintro ⟨rest, hrest⟩
    have hread := congrArg read hrest
    rw [read_encode, ← List.append_nil (encode s), read_encode, read_nil, List.append_nil] at hread
    obtain ⟨front, back, rfl, hfront, _⟩ := List.map_eq_append_iff.mp hread.symm
    rw [(List.map_inj_right fun _ _ => Option.some.inj).mp hfront]
    exact List.prefix_append part back
  · rintro ⟨rest, rfl⟩
    rw [encode_append]
    exact List.prefix_append _ _

/-- The bytes of a word stand among those of a text only where the word stands in the text. -/
theorem encode_prefix_drop_iff (hne : part ≠ []) :
    encode part <+: (encode s).drop i ↔
      ∃ front, front ++ part <+: s ∧ i = (encode front).length := by
  refine ⟨fun h => ?_, ?_⟩
  · have hboundary : isBoundary (encode s) i = true := by
      obtain ⟨c, word, rfl⟩ := List.exists_cons_of_ne_nil hne
      obtain ⟨b, more, hc, hb, _⟩ := continues_encodeChar c
      obtain ⟨rest, hrest⟩ := h
      have hget : (encode s)[i]? = some b := by
        rw [← Nat.add_zero i, ← List.getElem?_drop, ← hrest, encode_cons, hc]
        rfl
      rw [isBoundary_of_getElem? hget, hb]
      rfl
    obtain ⟨front, back, rfl, rfl⟩ := isBoundary_encode.mp hboundary
    rw [encode_append, List.drop_left, encode_prefix_iff] at h
    exact ⟨front, (List.prefix_append_right_inj front).mpr h, rfl⟩
  · rintro ⟨front, ⟨rest, rfl⟩, rfl⟩
    rw [List.append_assoc, encode_append, List.drop_left, encode_append]
    exact List.prefix_append _ _

theorem length_encode_le {front other : List Char} (h : front <+: other) :
    (encode front).length ≤ (encode other).length :=
  (encode_prefix_iff.mpr h).length_le

theorem length_encode_lt {front other : List Char} (h : front <+: other)
    (hlt : front.length < other.length) : (encode front).length < (encode other).length := by
  obtain ⟨more, rfl⟩ := h
  have hmore := length_le_length_encode more
  rw [List.length_append] at hlt
  rw [encode_append, List.length_append]
  omega

/-- A word stands first among the bytes where it stands first in the text. -/
theorem place?_encode (hne : part ≠ []) :
    place? (encode part) (encode s) = some i ↔
      ∃ before, StandsFirst part before s ∧ i = (encode before).length := by
  rw [place?_eq_some]
  refine ⟨?_, ?_⟩
  · rintro ⟨hat, hnot⟩
    obtain ⟨before, hbefore, rfl⟩ := (encode_prefix_drop_iff hne).mp hat
    refine ⟨before, ⟨hbefore, fun front hfront => ?_⟩, rfl⟩
    apply Nat.le_of_not_lt
    intro hlt
    have hshort := front_prefix_of_length_le hfront hbefore (Nat.le_of_lt hlt)
    exact hnot _ (length_encode_lt hshort hlt)
      ((encode_prefix_drop_iff hne).mpr ⟨front, hfront, rfl⟩)
  · rintro ⟨before, hbefore, rfl⟩
    refine ⟨(encode_prefix_drop_iff hne).mpr ⟨before, hbefore.stands, rfl⟩, fun j hj hat => ?_⟩
    obtain ⟨front, hfront, rfl⟩ := (encode_prefix_drop_iff hne).mp hat
    have hlong := front_prefix_of_length_le hbefore.stands hfront (hbefore.first front hfront)
    exact absurd hj (Nat.not_lt.mpr (length_encode_le hlong))

theorem place?_encode_of_absent (hne : part ≠ []) (h : afterFirst? part s = none) :
    place? (encode part) (encode s) = none := by
  cases hplace : place? (encode part) (encode s) with
  | none => rfl
  | some i =>
    obtain ⟨before, hbefore, _⟩ := (place?_encode hne).mp hplace
    obtain ⟨rest, hrest⟩ := hbefore.stands
    rw [afterFirst?_eq_some.mpr ⟨before, hbefore, hrest.symm⟩] at h
    cases h

/-- The place of the first character with a property, or else the end, comes after the bytes of the
characters before it. -/
theorem charPlace?_getD (p : Char → Bool) (s : List Char) :
    (charPlace? p s).getD (encode s).length = (encode (s.takeWhile fun c => !p c)).length := by
  induction s with
  | nil => rfl
  | cons c s ih =>
    rw [charPlace?]
    cases hc : p c with
    | true =>
      rw [if_pos rfl, List.takeWhile_cons_of_neg (by simp [hc])]
      rfl
    | false =>
      rw [List.takeWhile_cons_of_pos (by simp [hc]), encode_cons, encode_cons, List.length_append,
        List.length_append, ← ih]
      cases charPlace? p s with
      | none => rfl
      | some i => exact Nat.add_comm _ _

/-- The bytes up to the first character with a property, or up to the end, are those of the
characters before it. -/
theorem takeAt?_charPlace? (p : Char → Bool) (s : List Char) :
    takeAt? (encode s) ((charPlace? p s).getD (encode s).length) =
      some (encode (s.takeWhile fun c => !p c)) := by
  have hcut := takeAt?_encode (s.takeWhile fun c => !p c) (s.dropWhile fun c => !p c)
  rwa [List.takeWhile_append_dropWhile, ← charPlace?_getD] at hcut

end Utf8

end NetBoot
