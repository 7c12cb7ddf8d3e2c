-- The laws of lower-casing: doing it twice is doing it once, and it brings neither blanks nor
-- commas into a text.
import NetBoot.Text.LowerCase
import NetBoot.Proofs.Text.Pieces

namespace NetBoot.Text

/-! ## The table -/

/-- The number of the last lower-case form of a run. -/
def LowerRun.top (r : LowerRun) : Nat := r.lower + (r.last - r.first)

/-- No lower-case form of the run `r` is a letter of the run `s`. Where both hold every second
letter, they may lie between each other. -/
def LowerRun.misses (r s : LowerRun) : Bool :=
  Nat.blt r.top s.first || Nat.blt s.last r.lower ||
    ((r.stride == 2 || r.first == r.last) && s.stride == 2 && (r.lower + s.first) % 2 == 1)

/-- The numbers that no lower-case form has: blanks, the comma, the capital letters of ASCII, the
two letters with rules of their own, and the numbers of no character. -/
def barredRanges : List (Nat × Nat) :=
  [(0x9, 0xD), (0x20, 0x20), (0x2C, 0x2C), (0x41, 0x5A), (0x85, 0x85), (0xA0, 0xA0),
    (0x130, 0x130), (0x3A3, 0x3A3), (0x1680, 0x1680), (0x2000, 0x200A), (0x2028, 0x2029),
    (0x202F, 0x202F), (0x205F, 0x205F), (0x3000, 0x3000), (0xD800, 0xDFFF)]

/-- The whole table keeps to both rules. -/
theorem lowerRuns_bounds : ∀ r ∈ lowerRuns,
    r.top < 0x110000 ∧ ∀ b ∈ barredRanges, r.top < b.1 ∨ b.2 < r.lower := by
  decide +kernel

theorem lowerRuns_miss : (lowerRuns.all fun r => lowerRuns.all r.misses) = true := by
  decide +kernel

/-- The number of a lower-case form from the table. -/
structure IsForm (n : Nat) : Prop where
  lt : n < 0x110000
  barred : ∀ b ∈ barredRanges, n < b.1 ∨ b.2 < n
  uncovered : ∀ s ∈ lowerRuns, ¬(s.first ≤ n ∧ n ≤ s.last ∧ (n - s.first) % s.stride = 0)

theorem isForm_of_covers {r : LowerRun} (hr : r ∈ lowerRuns) {c : Char} (hc : r.covers c = true) :
    IsForm (r.lower + (c.toNat - r.first)) := by
  obtain ⟨htop, hbarred⟩ := lowerRuns_bounds r hr
  simp only [LowerRun.covers, Bool.and_eq_true, decide_eq_true_eq, beq_iff_eq] at hc
  obtain ⟨⟨hfirst, hlast⟩, hstride⟩ := hc
  have hn : r.lower + (c.toNat - r.first) ≤ r.top := by
    unfold LowerRun.top
    omega
  refine ⟨by omega, ?_, ?_⟩
  · intro b hb
    have := hbarred b hb
    omega
  · rintro s hs ⟨hsfirst, hslast, hsstride⟩
    have hmiss := List.all_eq_true.mp (List.all_eq_true.mp lowerRuns_miss r hr) s hs
    simp only [LowerRun.misses, Bool.or_eq_true, Bool.and_eq_true, Nat.blt_eq, beq_iff_eq] at hmiss
    rcases hmiss with (hmiss | hmiss) | ⟨⟨hr2, hs2⟩, hodd⟩
    · omega
    · omega
    · rw [hs2] at hsstride
      rcases hr2 with hr2 | hr2
      · rw [hr2] at hstride
        omega
      · omega

/-! ## One character -/

/-- A character that lower-casing leaves as it is, whatever stands around it. -/
structure IsLowered (c : Char) : Prop where
  ne_sigma : c ≠ 'Σ'
  ne_dotted : c ≠ 'İ'
  lowerChar : lowerChar c = c

/-- What lower-casing may put in the place of a character: the character itself, or one that is
neither a blank nor a comma. -/
def Replaces (d c : Char) : Prop := d = c ∨ (isBlank d = false ∧ d ≠ ',')

theorem toNat_ofNat_of_isForm {n : Nat} (h : IsForm n) : (Char.ofNat n).toNat = n := by
  have hscalar := h.barred (0xD800, 0xDFFF) (by decide)
  have hlt := h.lt
  apply toNat_ofNat
  unfold Nat.isValidChar
  omega

theorem ofNat_of_isForm {n : Nat} (h : IsForm n) :
    IsLowered (Char.ofNat n) ∧ isBlank (Char.ofNat n) = false ∧ Char.ofNat n ≠ ',' := by
  have hn := toNat_ofNat_of_isForm h
  have hbarred := h.barred
  simp only [barredRanges, List.forall_mem_cons, List.not_mem_nil, false_implies, implies_true,
    and_true] at hbarred
  have hne : ∀ c : Char, n ≠ c.toNat → Char.ofNat n ≠ c := by
    rintro c hc rfl
    exact hc hn.symm
  refine ⟨⟨hne _ ?_, hne _ ?_, ?_⟩, ?_, hne _ ?_⟩
  · show n ≠ 0x3A3
    omega
  · show n ≠ 0x130
    omega
  · unfold Text.lowerChar
    rw [hn]
    split
    · have hA : ¬((Char.ofNat n).val ≥ 'A'.val ∧ (Char.ofNat n).val ≤ 'Z'.val) := by
        have hval : (Char.ofNat n).val.toNat = n := hn
        rw [ge_iff_le, UInt32.le_iff_toNat_le, UInt32.le_iff_toNat_le, hval]
        show ¬(0x41 ≤ n ∧ n ≤ 0x5A)
        omega
      exact dif_neg hA
    · have hnone : lowerRuns.find? (·.covers (Char.ofNat n)) = none := by
        rw [List.find?_eq_none]
        intro s hs
        have := h.uncovered s hs
        simpa only [LowerRun.covers, hn, Bool.and_eq_true, decide_eq_true_eq, beq_iff_eq,
          and_assoc] using this
      rw [hnone]
  · unfold isBlank
    rw [hn]
    simp only [Bool.or_eq_false_iff, Bool.and_eq_false_iff, decide_eq_false_iff_not,
      beq_eq_false_iff_ne]
    omega
  · show n ≠ 0x2C
    omega

/-- Lower-casing an ASCII character twice is lower-casing it once. -/
theorem toLower_facts : ∀ n < 0x80, (Char.ofNat n).toLower.toNat < 0x80 ∧
    (Char.ofNat n).toLower.toLower = (Char.ofNat n).toLower ∧
    ((Char.ofNat n).toLower = Char.ofNat n ∨
      (isBlank (Char.ofNat n).toLower = false ∧ (Char.ofNat n).toLower ≠ ',')) := by
  decide +kernel

theorem lowerChar_facts {c : Char} (hsigma : c ≠ 'Σ') (hdotted : c ≠ 'İ') :
    IsLowered (lowerChar c) ∧ Replaces (lowerChar c) c := by
  by_cases hascii : c.toNat < 0x80
  · have hlower : lowerChar c = c.toLower := if_pos hascii
    obtain ⟨hlt, htwice, hreplaces⟩ := toLower_facts c.toNat hascii
    rw [Char.ofNat_toNat] at hlt htwice hreplaces
    rw [hlower]
    refine ⟨⟨?_, ?_, ?_⟩, hreplaces⟩
    · intro h
      rw [h] at hlt
      exact absurd hlt (by decide)
    · intro h
      rw [h] at hlt
      exact absurd hlt (by decide)
    · rw [lowerChar, if_pos hlt, htwice]
  · cases hrun : lowerRuns.find? (·.covers c) with
    | none =>
      have hself : lowerChar c = c := by rw [lowerChar, if_neg hascii, hrun]
      rw [hself]
      exact ⟨⟨hsigma, hdotted, hself⟩, Or.inl rfl⟩
    | some r =>
      have hform : lowerChar c = Char.ofNat (r.lower + (c.toNat - r.first)) := by
        rw [lowerChar, if_neg hascii, hrun]
      have hcovers : r.covers c = true := by simpa using List.find?_some hrun
      obtain ⟨hlowered, hblank, hcomma⟩ :=
        ofNat_of_isForm (isForm_of_covers (List.mem_of_find?_eq_some hrun) hcovers)
      rw [hform]
      exact ⟨hlowered, Or.inr ⟨hblank, hcomma⟩⟩

/-! ## A text -/

/-- The forms that the two letters with rules of their own have. -/
theorem specialForms_facts : ∀ d ∈ ['σ', 'ς', 'i', '\u0307'],
    IsLowered d ∧ isBlank d = false ∧ d ≠ ',' := by
  have h : (['σ', 'ς', 'i', '\u0307'].all fun d =>
      decide ((d ≠ 'Σ' ∧ d ≠ 'İ' ∧ lowerChar d = d) ∧ isBlank d = false ∧ d ≠ ',')) = true := by
    decide +kernel
  intro d hd
  obtain ⟨⟨h1, h2, h3⟩, hblank, hcomma⟩ := of_decide_eq_true (List.all_eq_true.mp h d hd)
  exact ⟨⟨h1, h2, h3⟩, hblank, hcomma⟩

theorem mem_lowerBetween {before after : List Char} {c d : Char}
    (h : d ∈ lowerBetween before c after) : IsLowered d ∧ Replaces d c := by
  unfold lowerBetween at h
  by_cases hsigma : c = 'Σ'
  · rw [if_pos hsigma] at h
    have hd : d ∈ ['σ', 'ς', 'i', '\u0307'] := by
      split at h <;> simp_all
    obtain ⟨hlowered, hnew⟩ := specialForms_facts d hd
    exact ⟨hlowered, Or.inr hnew⟩
  rw [if_neg hsigma] at h
  by_cases hdotted : c = 'İ'
  · rw [if_pos hdotted] at h
    have hd : d ∈ ['σ', 'ς', 'i', '\u0307'] := List.mem_append_right ['σ', 'ς'] h
    obtain ⟨hlowered, hnew⟩ := specialForms_facts d hd
    exact ⟨hlowered, Or.inr hnew⟩
  rw [if_neg hdotted, List.mem_singleton] at h
  rw [h]
  exact lowerChar_facts hsigma hdotted

theorem lowerBetween_ne_nil (before : List Char) (c : Char) (after : List Char) :
    lowerBetween before c after ≠ [] := by
  unfold lowerBetween
  split
  · simp
  · split <;> simp

theorem mem_lowerAfter {before s : List Char} {d : Char} (h : d ∈ lowerAfter before s) :
    IsLowered d ∧ ∃ c ∈ s, Replaces d c := by
  induction s generalizing before with
  | nil => cases h
  | cons c s ih =>
    rw [lowerAfter, List.mem_append] at h
    rcases h with h | h
    · obtain ⟨hlowered, hd⟩ := mem_lowerBetween h
      exact ⟨hlowered, c, List.mem_cons_self, hd⟩
    · obtain ⟨hlowered, e, he, hd⟩ := ih h
      exact ⟨hlowered, e, List.mem_cons_of_mem c he, hd⟩

theorem lowerAfter_eq_self {before s : List Char} (h : ∀ c ∈ s, IsLowered c) :
    lowerAfter before s = s := by
  induction s generalizing before with
  | nil => rfl
  | cons c s ih =>
    have hc := h c List.mem_cons_self
    have hone : lowerBetween before c s = [c] := by
      rw [lowerBetween, if_neg hc.ne_sigma, if_neg hc.ne_dotted, hc.lowerChar]
    rw [lowerAfter, hone, ih fun d hd => h d (List.mem_cons_of_mem c hd), List.singleton_append]

theorem lower_eq_self {s : List Char} (h : ∀ c ∈ s, IsLowered c) : lower s = s :=
  lowerAfter_eq_self h

theorem lowerAfter_of_ascii {before s : List Char} (h : ∀ c ∈ s, c.toNat < 0x80) :
    lowerAfter before s = s.map Char.toLower := by
  induction s generalizing before with
  | nil => rfl
  | cons c rest ih =>
    obtain ⟨hc, hrest⟩ := List.forall_mem_cons.mp h
    have hne : ∀ d : Char, 0x80 ≤ d.toNat → c ≠ d := by
      rintro d hd rfl
      omega
    rw [lowerAfter, lowerBetween, if_neg (hne 'Σ' (by decide)), if_neg (hne 'İ' (by decide)),
      lowerChar, if_pos hc, ih hrest]
    rfl

/-- A text in ASCII is lower-cased letter by letter. -/
theorem lower_of_ascii {s : List Char} (h : ∀ c ∈ s, c.toNat < 0x80) :
    lower s = s.map Char.toLower := lowerAfter_of_ascii h

theorem lower_lower (s : List Char) : lower (lower s) = lower s :=
  lower_eq_self fun _ hc => (mem_lowerAfter hc).1

theorem getLast?_lowerAfter {before s : List Char} {d : Char}
    (h : (lowerAfter before s).getLast? = some d) : ∃ c, s.getLast? = some c ∧ Replaces d c := by
  induction s generalizing before with
  | nil => cases h
  | cons c s ih =>
    rw [lowerAfter] at h
    cases s with
    | nil =>
      rw [lowerAfter, List.append_nil] at h
      exact ⟨c, rfl, (mem_lowerBetween (List.mem_of_getLast? h)).2⟩
    | cons e s =>
      have hne : lowerAfter (c :: before) (e :: s) ≠ [] := by
        simp [lowerAfter, lowerBetween_ne_nil]
      rw [List.getLast?_append, List.getLast?_eq_some_getLast hne, Option.some_or,
        ← List.getLast?_eq_some_getLast hne] at h
      obtain ⟨f, hf, hd⟩ := ih h
      exact ⟨f, by rw [List.getLast?_cons_cons, hf], hd⟩

/-- Lower-casing a text without outer blanks brings none to its ends. -/
theorem IsTrimmed.lower {s : List Char} (h : IsTrimmed s) : IsTrimmed (lower s) := by
  have hkeeps : ∀ {d c : Char}, isBlank c = false → Replaces d c → isBlank d = false := by
    rintro d c hc (rfl | ⟨hd, _⟩)
    · exact hc
    · exact hd
  rintro d (hhead | hlast)
  · cases s with
    | nil => cases hhead
    | cons c s =>
      unfold Text.lower at hhead
      have hne := lowerBetween_ne_nil [] c s
      rw [lowerAfter, List.head?_append, List.head?_eq_some_head hne, Option.some_or,
        ← List.head?_eq_some_head hne] at hhead
      exact hkeeps (h c (Or.inl rfl)) (mem_lowerBetween (List.mem_of_head? hhead)).2
  · obtain ⟨c, hc, hd⟩ := getLast?_lowerAfter hlast
    exact hkeeps (h c (Or.inr hc)) hd

/-- A comma or a blank in the lower-case form stands in the text itself. -/
theorem mem_of_mem_lower {s : List Char} {d : Char} (hd : d ∈ lower s)
    (hkind : isBlank d = true ∨ d = ',') : d ∈ s := by
  obtain ⟨_, c, hc, rfl | ⟨hblank, hcomma⟩⟩ := mem_lowerAfter hd
  · exact hc
  · rcases hkind with hkind | hkind
    · rw [hblank] at hkind
      cases hkind
    · exact absurd hkind hcomma

end NetBoot.Text
