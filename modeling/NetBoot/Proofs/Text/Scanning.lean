-- What the scanning functions accept, as ways to write a text: a word at the front, a run of blanks
-- or of digits, a mark, and then the rest.
import NetBoot.Text.Digit
import NetBoot.Proofs.Text.Pieces

namespace NetBoot.Text

variable {p q : Char → Bool} {c : Char} {s rest : List Char}

/-! ## Runs of characters -/

/-- One or more characters, all with the property. -/
structure IsRun (p : Char → Bool) (s : List Char) : Prop where
  ne_nil : s ≠ []
  all : ∀ c ∈ s, p c = true

instance (p : Char → Bool) (s : List Char) : Decidable (IsRun p s) :=
  decidable_of_iff (s ≠ [] ∧ s.all p = true)
    ⟨fun h => ⟨h.1, List.all_eq_true.mp h.2⟩, fun h => ⟨h.ne_nil, List.all_eq_true.mpr h.all⟩⟩

/-- The text does not go on with a character that has the property. -/
def Stops (p : Char → Bool) (rest : List Char) : Prop := ∀ c, rest.head? = some c → p c = false

theorem stops_cons : Stops p (c :: rest) ↔ p c = false := by
  simp [Stops]

theorem stops_dropWhile (p : Char → Bool) (s : List Char) : Stops p (s.dropWhile p) := by
  intro c hc
  have := List.head?_dropWhile_not p s
  simpa [hc] using this

/-- A run stops every property that its characters do not have. -/
theorem IsRun.stops (h : IsRun q s) (hpq : ∀ c, q c = true → p c = false) (rest : List Char) :
    Stops p (s ++ rest) := by
  obtain ⟨c, cs, rfl⟩ := List.exists_cons_of_ne_nil h.ne_nil
  rw [List.cons_append, stops_cons]
  exact hpq c (h.all c List.mem_cons_self)

theorem takeWhile_append_of_stops (h : ∀ c ∈ s, p c = true) (hstops : Stops p rest) :
    (s ++ rest).takeWhile p = s := by
  rw [List.takeWhile_append_of_pos h]
  cases rest with
  | nil => rw [List.takeWhile_nil, List.append_nil]
  | cons c rest =>
    rw [List.takeWhile_cons_of_neg (by simp [stops_cons.mp hstops]), List.append_nil]

theorem dropWhile_append_of_stops (h : ∀ c ∈ s, p c = true) (hstops : Stops p rest) :
    (s ++ rest).dropWhile p = rest := by
  rw [List.dropWhile_append_of_pos h]
  cases rest with
  | nil => rfl
  | cons c rest => exact List.dropWhile_cons_of_neg (by simp [stops_cons.mp hstops])

theorem drop_length_takeWhile (p : Char → Bool) (s : List Char) :
    s.drop (s.takeWhile p).length = s.dropWhile p := by
  calc s.drop (s.takeWhile p).length
    _ = (s.takeWhile p ++ s.dropWhile p).drop (s.takeWhile p).length := by
      rw [List.takeWhile_append_dropWhile]
    _ = s.dropWhile p := List.drop_left

/-! ## Words and marks -/

theorem after?_eq_some {lead : List Char} : after? lead s = some rest ↔ s = lead ++ rest := by
  induction lead generalizing s with
  | nil => simp [after?, eq_comm]
  | cons l lead ih =>
    cases s with
    | nil => simp [after?]
    | cons c s =>
      rw [after?, List.cons_append, List.cons.injEq]
      by_cases hc : l = c
      · rw [if_pos hc, ih]
        simp [hc]
      · rw [if_neg hc]
        simp [Ne.symm hc]

theorem startsWith_singleton : startsWith [c] s = true ↔ ∃ rest, s = c :: rest := by
  unfold startsWith
  rw [Option.isSome_iff_exists]
  simp only [after?_eq_some, List.singleton_append]

theorem startsWith_iff {lead : List Char} : startsWith lead s = true ↔ lead <+: s := by
  unfold startsWith List.IsPrefix
  rw [Option.isSome_iff_exists]
  simp only [after?_eq_some]
  exact exists_congr fun rest => eq_comm

theorem contains_iff {part : List Char} : contains part s = true ↔ part <:+: s := by
  unfold contains
  induction s with
  | nil =>
    rw [List.infix_nil, ← List.prefix_nil]
    exact startsWith_iff
  | cons c s ih =>
    rw [List.infix_cons_iff, ← startsWith_iff, ← ih, afterFirst?]
    unfold startsWith
    cases after? part (c :: s) <;> simp

/-! ## Blanks -/

/-- There is a run of blanks at the front, and it is left out. -/
theorem afterBlanks?_eq_some :
    afterBlanks? s = some rest ↔
      ∃ gap, s = gap ++ rest ∧ IsRun isBlank gap ∧ Stops isBlank rest := by
  refine ⟨?_, ?_⟩
  · intro h
    cases s with
    | nil => cases h
    | cons c s =>
      rw [afterBlanks?, Option.ite_none_right_eq_some, Option.some.injEq] at h
      obtain ⟨hc, rfl⟩ := h
      refine ⟨c :: s.takeWhile isBlank, ?_, ⟨List.cons_ne_nil _ _, ?_⟩, stops_dropWhile _ _⟩
      · rw [List.cons_append, trimStart, List.takeWhile_append_dropWhile]
      · rw [List.forall_mem_cons]
        exact ⟨hc, fun d hd => List.all_eq_true.mp List.all_takeWhile d hd⟩
  · rintro ⟨gap, rfl, hgap, hstops⟩
    obtain ⟨c, cs, rfl⟩ := List.exists_cons_of_ne_nil hgap.ne_nil
    obtain ⟨hc, hcs⟩ := List.forall_mem_cons.mp hgap.all
    rw [List.cons_append, afterBlanks?, if_pos hc, trimStart, dropWhile_append_of_stops hcs hstops]

/-- A mark comes next, after any blanks. -/
theorem startsWith_trimStart (hc : isBlank c = false) :
    startsWith [c] (trimStart s) = true ↔
      ∃ space rest, s = space ++ c :: rest ∧ ∀ d ∈ space, isBlank d = true := by
  rw [startsWith_singleton]
  refine ⟨?_, ?_⟩
  · rintro ⟨rest, h⟩
    refine ⟨s.takeWhile isBlank, rest, ?_, fun d hd => List.all_eq_true.mp List.all_takeWhile d hd⟩
    rw [← h, trimStart, List.takeWhile_append_dropWhile]
  · rintro ⟨space, rest, rfl, hspace⟩
    exact ⟨rest, dropWhile_append_of_stops hspace (stops_cons.mpr hc)⟩

/-! ## Digits -/

/-- The scanner takes digits up to its limit or to where they stop. -/
theorem takeDigits_eq {limit : Nat} {digits : List Char} :
    takeDigits limit s = (digits, rest) ↔
      s = digits ++ rest ∧ (∀ c ∈ digits, isDigit c = true) ∧ digits.length ≤ limit ∧
        (digits.length = limit ∨ Stops isDigit rest) := by
  induction limit generalizing s digits with
  | zero =>
    rw [takeDigits, Prod.mk.injEq]
    refine ⟨?_, ?_⟩
    · rintro ⟨rfl, rfl⟩
      simp
    · rintro ⟨rfl, _, hlen, _⟩
      rw [List.length_eq_zero_iff.mp (Nat.le_zero.mp hlen)]
      exact ⟨rfl, rfl⟩
  | succ limit ih =>
    cases s with
    | nil =>
      rw [takeDigits, Prod.mk.injEq]
      refine ⟨?_, ?_⟩
      · rintro ⟨rfl, rfl⟩
        simp [Stops]
      · rintro ⟨h, _⟩
        obtain ⟨rfl, rfl⟩ := List.append_eq_nil_iff.mp h.symm
        exact ⟨rfl, rfl⟩
    | cons c s =>
      rw [takeDigits]
      by_cases hc : isDigit c = true
      · rw [if_pos hc]
        cases hcut : takeDigits limit s with
        | mk front others =>
        rw [Prod.mk.injEq]
        refine ⟨?_, ?_⟩
        · rintro ⟨rfl, rfl⟩
          obtain ⟨hs, hdigits, hlen, hstops⟩ := ih.mp hcut
          exact ⟨congrArg (c :: ·) hs, List.forall_mem_cons.mpr ⟨hc, hdigits⟩,
            Nat.succ_le_succ hlen, hstops.imp_left (congrArg Nat.succ)⟩
        · rintro ⟨hs, hdigits, hlen, hstops⟩
          cases digits with
          | nil =>
            -- No digit was taken, though there is one.
            rw [List.nil_append] at hs
            subst hs
            rcases hstops with hlen | hstops
            · cases hlen
            · rw [stops_cons.mp hstops] at hc
              cases hc
          | cons d digits =>
            rw [List.cons_append, List.cons.injEq] at hs
            obtain ⟨rfl, hs⟩ := hs
            have htail := ih.mpr ⟨hs, fun e he => hdigits e (List.mem_cons_of_mem _ he),
              Nat.le_of_succ_le_succ hlen, hstops.imp_left Nat.succ.inj⟩
            rw [hcut, Prod.mk.injEq] at htail
            exact ⟨congrArg (c :: ·) htail.1, htail.2⟩
      · rw [if_neg hc, Prod.mk.injEq]
        refine ⟨?_, ?_⟩
        · rintro ⟨rfl, rfl⟩
          simpa [stops_cons] using hc
        · rintro ⟨hs, hdigits, _, _⟩
          cases digits with
          | nil => exact ⟨rfl, hs⟩
          | cons d digits =>
            rw [List.cons_append, List.cons.injEq] at hs
            rw [hs.1] at hc
            exact absurd (hdigits d List.mem_cons_self) hc

/-! ## Kinds of characters -/

/-- The code points of the blanks. -/
def blankCodes : List Nat :=
  [0x9, 0xA, 0xB, 0xC, 0xD, 0x20, 0x85, 0xA0, 0x1680, 0x2000, 0x2001, 0x2002, 0x2003, 0x2004,
    0x2005, 0x2006, 0x2007, 0x2008, 0x2009, 0x200A, 0x2028, 0x2029, 0x202F, 0x205F, 0x3000]

theorem mem_blankCodes (h : isBlank c = true) : c.toNat ∈ blankCodes := by
  simp only [isBlank, Bool.or_eq_true, Bool.and_eq_true, decide_eq_true_eq, beq_iff_eq] at h
  simp only [blankCodes, List.mem_cons, List.not_mem_nil, or_false]
  omega

theorem blankCodes_facts :
    ∀ n ∈ blankCodes, (digitRanges.any fun r => r.1 ≤ n && n ≤ r.2) = false := by
  decide +kernel

theorem isDigit_of_isBlank (h : isBlank c = true) : isDigit c = false :=
  blankCodes_facts c.toNat (mem_blankCodes h)

theorem isBlank_of_isDigit (h : isDigit c = true) : isBlank c = false := by
  rw [Bool.eq_false_iff]
  intro hblank
  rw [isDigit_of_isBlank hblank] at h
  cases h

end NetBoot.Text
