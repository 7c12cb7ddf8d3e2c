-- What the lines of a lease file look like: the header of a lease, its end and its hardware address
-- as forms of text, and the scanners of lines take exactly the lines of these forms.
import NetBoot.Proofs.Lease.HardwareText
import NetBoot.Proofs.Text.Scanning

namespace NetBoot

namespace LeaseLine

open Text

variable {line rest s text u : List Char}

/-! ## Headers -/

/-- A text that is followed by an opening brace, with or without blanks before the brace. -/
def BeforeBrace (text rest : List Char) : Prop :=
  ∃ space tail, rest = text ++ space ++ '{' :: tail ∧ IsRun (fun c => !isBlank c) text ∧
    ∀ c ∈ space, isBlank c = true

/-- A line such as `lease 10.0.0.1 {` with this text in the place of the address. -/
def IsHeader (line text : List Char) : Prop :=
  ∃ gap rest, line = "lease".toList ++ gap ++ rest ∧ IsRun isBlank gap ∧ BeforeBrace text rest

/-- The text that a header names. Where braces stand in the text too, it is the longest that makes
the line a header. -/
def Names (line text : List Char) : Prop :=
  IsHeader line text ∧ ∀ other, IsHeader line other → other.length ≤ text.length

theorem beforeLastBrace?_eq_some :
    beforeLastBrace? s = some u ↔ u ≠ [] ∧ ∃ v, s = u ++ '{' :: v ∧ '{' ∉ v := by
  refine ⟨?_, ?_⟩
  · intro h
    unfold beforeLastBrace? at h
    split at h
    · next b c before hbrace =>
      cases h
      have hb : b = '{' := by
        have hstops := stops_dropWhile (fun c => decide (c ≠ '{')) s.reverse
        rw [hbrace, stops_cons] at hstops
        simpa using hstops
      subst hb
      have hs : s = (c :: before).reverse ++
          '{' :: (s.reverse.takeWhile fun c => decide (c ≠ '{')).reverse := by
        rw [← List.reverse_inj, List.reverse_append, List.reverse_cons, List.reverse_reverse,
          List.reverse_reverse, List.append_assoc, List.singleton_append, ← hbrace]
        exact List.takeWhile_append_dropWhile.symm
      refine ⟨by simp, _, hs, ?_⟩
      intro hmem
      have := List.all_eq_true.mp List.all_takeWhile _ (List.mem_reverse.mp hmem)
      simp at this
    · cases h
  · rintro ⟨hne, v, rfl, hv⟩
    obtain ⟨c, cs, hu⟩ := List.exists_cons_of_ne_nil (mt List.reverse_eq_nil_iff.mp hne)
    have hcut : (u ++ '{' :: v).reverse.dropWhile (fun c => decide (c ≠ '{')) = '{' :: c :: cs := by
      rw [List.reverse_append, List.reverse_cons, List.append_assoc, List.singleton_append, hu]
      apply dropWhile_append_of_stops
      · intro d hd
        rw [decide_eq_true_eq]
        rintro rfl
        exact hv (List.mem_reverse.mp hd)
      · exact stops_cons.mpr (by decide)
    unfold beforeLastBrace?
    rw [hcut, ← List.reverse_reverse u, hu]

/-- A text with a brace has a last one. -/
theorem exists_beforeLastBrace? {v : List Char} (hne : u ≠ []) :
    ∃ w, beforeLastBrace? (u ++ '{' :: v) = some w ∧ u.length ≤ w.length := by
  by_cases hv : '{' ∈ v
  · obtain ⟨after, before, hsplit, hafter⟩ :=
      List.eq_append_cons_of_mem (List.mem_reverse.mpr hv)
    rw [← List.reverse_inj, List.reverse_reverse] at hsplit
    refine ⟨u ++ '{' :: before.reverse,
      beforeLastBrace?_eq_some.mpr ⟨?_, after.reverse, ?_, ?_⟩, ?_⟩
    · simp
    · rw [hsplit]
      simp
    · rwa [List.mem_reverse]
    · rw [List.length_append]
      omega
  · exact ⟨u, beforeLastBrace?_eq_some.mpr ⟨hne, v, rfl, hv⟩, Nat.le_refl _⟩

/-- The text before a brace is the whole first word, or the brace stands in that word. -/
theorem beforeBrace_iff :
    BeforeBrace text rest ↔
      (text = word rest ∧ text ≠ [] ∧
        startsWith ['{'] (trimStart (rest.drop (word rest).length)) = true) ∨
      (text ≠ [] ∧ ∃ v, word rest = text ++ '{' :: v) := by
  have hcut : rest.drop (word rest).length = rest.dropWhile fun c => !isBlank c :=
    drop_length_takeWhile _ _
  have hrest : word rest ++ rest.dropWhile (fun c => !isBlank c) = rest :=
    List.takeWhile_append_dropWhile
  rw [hcut, startsWith_trimStart (by decide)]
  refine ⟨?_, ?_⟩
  · rintro ⟨space, tail, rfl, htext, hspace⟩
    cases space with
    | nil =>
      refine Or.inr ⟨htext.ne_nil, tail.takeWhile fun c => !isBlank c, ?_⟩
      rw [List.append_nil, word, List.takeWhile_append_of_pos htext.all,
        List.takeWhile_cons_of_pos (by decide)]
    | cons b space =>
      have hstops : Stops (fun c => !isBlank c) (b :: space ++ '{' :: tail) := by
        rw [List.cons_append, stops_cons, hspace b List.mem_cons_self]
        rfl
      refine Or.inl ⟨?_, htext.ne_nil, b :: space, tail, ?_, hspace⟩
      · rw [List.append_assoc, word, takeWhile_append_of_stops htext.all hstops]
      · rw [List.append_assoc, dropWhile_append_of_stops htext.all hstops]
  · have hword : ∀ c ∈ word rest, (!isBlank c) = true := fun c hc =>
      List.all_eq_true.mp List.all_takeWhile c hc
    rintro (⟨rfl, hne, space, tail, htail, hspace⟩ | ⟨hne, v, hv⟩)
    · refine ⟨space, tail, ?_, ⟨hne, hword⟩, hspace⟩
      rw [List.append_assoc, ← htail, hrest]
    · refine ⟨[], v ++ rest.dropWhile (fun c => !isBlank c), ?_, ⟨hne, ?_⟩, by simp⟩
      · rw [List.append_nil, ← List.cons_append, ← List.append_assoc, ← hv, hrest]
      · rw [hv] at hword
        exact fun c hc => hword c (List.mem_append_left _ hc)

/-- The rest of a header line gives the longest text before a brace. -/
theorem longest_beforeBrace :
    (if word rest ≠ [] ∧ startsWith ['{'] (trimStart (rest.drop (word rest).length)) = true then
      some (word rest) else beforeLastBrace? (word rest)) = some text ↔
      BeforeBrace text rest ∧ ∀ other, BeforeBrace other rest → other.length ≤ text.length := by
  simp only [beforeBrace_iff]
  split
  · next h =>
    have hlongest : ∀ other, (other = word rest ∧ other ≠ [] ∧
        startsWith ['{'] (trimStart (rest.drop (word rest).length)) = true) ∨
        (other ≠ [] ∧ ∃ v, word rest = other ++ '{' :: v) →
        other.length ≤ (word rest).length := by
      rintro other (⟨rfl, _⟩ | ⟨_, v, hv⟩)
      · exact Nat.le_refl _
      · rw [hv, List.length_append]
        omega
    rw [Option.some.injEq]
    refine ⟨?_, ?_⟩
    · rintro rfl
      exact ⟨Or.inl ⟨rfl, h⟩, hlongest⟩
    · rintro ⟨⟨rfl, _⟩ | ⟨_, v, hv⟩, hmax⟩
      · rfl
      · have hle := hmax (word rest) (Or.inl ⟨rfl, h⟩)
        rw [hv, List.length_append, List.length_cons] at hle
        omega
  · next h =>
    -- The word itself is not followed by a brace, so the brace is within the word.
    have hinside : ∀ other, ((other = word rest ∧ other ≠ [] ∧
        startsWith ['{'] (trimStart (rest.drop (word rest).length)) = true) ∨
        (other ≠ [] ∧ ∃ v, word rest = other ++ '{' :: v)) ↔
        (other ≠ [] ∧ ∃ v, word rest = other ++ '{' :: v) := by
      intro other
      refine or_iff_right ?_
      rintro ⟨rfl, hword⟩
      exact h hword
    simp only [hinside]
    refine ⟨?_, ?_⟩
    · intro hlast
      obtain ⟨hne, v, hv, _⟩ := beforeLastBrace?_eq_some.mp hlast
      refine ⟨⟨hne, v, hv⟩, ?_⟩
      rintro other ⟨hother, w, hw⟩
      obtain ⟨last, hfound, hle⟩ := exists_beforeLastBrace? (v := w) hother
      rw [← hw, hlast, Option.some.injEq] at hfound
      rwa [← hfound] at hle
    · rintro ⟨⟨hne, v, hv⟩, hmax⟩
      obtain ⟨last, hfound, hle⟩ := exists_beforeLastBrace? (v := v) hne
      rw [← hv] at hfound
      obtain ⟨hlast, w, hw, _⟩ := beforeLastBrace?_eq_some.mp hfound
      have hsame : text.length = last.length := Nat.le_antisymm hle (hmax last ⟨hlast, w, hw⟩)
      rw [hfound, (List.append_inj (hv.symm.trans hw) hsame).1]

/-- What comes after the word that opens a header is fixed by the line. -/
theorem isHeader_iff :
    IsHeader line text ↔
      ∃ rest, (after? "lease".toList line).bind afterBlanks? = some rest ∧
        BeforeBrace text rest := by
  simp only [Option.bind_eq_some_iff, after?_eq_some, afterBlanks?_eq_some]
  refine ⟨?_, ?_⟩
  · rintro ⟨gap, rest, hline, hgap, hbrace⟩
    refine ⟨rest, ⟨gap ++ rest, ?_, gap, rfl, hgap, ?_⟩, hbrace⟩
    · rw [hline, List.append_assoc]
    · obtain ⟨space, tail, rfl, htext, _⟩ := hbrace
      rw [List.append_assoc]
      exact htext.stops (by simp) _
  · rintro ⟨rest, ⟨_, rfl, gap, rfl, hgap, _⟩, hbrace⟩
    exact ⟨gap, rest, (List.append_assoc ..).symm, hgap, hbrace⟩

theorem headerText?_eq_some : headerText? line = some text ↔ Names line text := by
  have hbind : headerText? line = ((after? "lease".toList line).bind afterBlanks?).bind fun rest =>
      if word rest ≠ [] ∧ startsWith ['{'] (trimStart (rest.drop (word rest).length)) = true then
        some (word rest) else beforeLastBrace? (word rest) := by
    rw [Option.bind_assoc]
    rfl
  unfold Names
  rw [hbind]
  simp only [isHeader_iff, Option.bind_eq_some_iff (x := (after? "lease".toList line).bind _),
    longest_beforeBrace]
  refine ⟨?_, ?_⟩
  · rintro ⟨rest, hrest, hbrace, hmax⟩
    refine ⟨⟨rest, hrest, hbrace⟩, ?_⟩
    rintro other ⟨rest', hrest', hother⟩
    rw [hrest, Option.some.injEq] at hrest'
    exact hmax other (hrest' ▸ hother)
  · rintro ⟨⟨rest, hrest, hbrace⟩, hmax⟩
    exact ⟨rest, hrest, hbrace, fun other hother => hmax other ⟨rest, hrest, hother⟩⟩

theorem exists_longest_beforeBrace (h : BeforeBrace u rest) :
    ∃ text, BeforeBrace text rest ∧
      ∀ other, BeforeBrace other rest → other.length ≤ text.length := by
  simp only [← longest_beforeBrace]
  split
  · exact ⟨_, rfl⟩
  · next hword =>
    rcases beforeBrace_iff.mp h with ⟨rfl, hcond⟩ | ⟨hne, v, hv⟩
    · exact absurd hcond hword
    · obtain ⟨last, hlast, _⟩ := exists_beforeLastBrace? (v := v) hne
      exact ⟨last, hv ▸ hlast⟩

theorem headerText?_eq_none : headerText? line = none ↔ ∀ text, ¬ IsHeader line text := by
  rw [Option.eq_none_iff_forall_ne_some]
  refine ⟨?_, ?_⟩
  · intro hnone u hheader
    obtain ⟨rest, hrest, hbrace⟩ := isHeader_iff.mp hheader
    obtain ⟨text, htext, hmax⟩ := exists_longest_beforeBrace hbrace
    refine hnone text (headerText?_eq_some.mpr ⟨isHeader_iff.mpr ⟨rest, hrest, htext⟩, ?_⟩)
    intro other hother
    obtain ⟨rest', hrest', hother⟩ := isHeader_iff.mp hother
    rw [hrest, Option.some.injEq] at hrest'
    exact hmax other (hrest' ▸ hother)
  · intro hnone text htext
    exact hnone text (headerText?_eq_some.mp htext).1

/-! ## Ends -/

/-- Digits of any script, from `fewest` to `most` of them. -/
structure IsDigits (fewest most : Nat) (s : List Char) : Prop where
  all : ∀ c ∈ s, isDigit c = true
  fewest_le : fewest ≤ s.length
  le_most : s.length ≤ most

instance (fewest most : Nat) (s : List Char) : Decidable (IsDigits fewest most s) :=
  decidable_of_iff (s.all isDigit = true ∧ fewest ≤ s.length ∧ s.length ≤ most)
    ⟨fun h => ⟨List.all_eq_true.mp h.1, h.2.1, h.2.2⟩,
      fun h => ⟨List.all_eq_true.mpr h.all, h.fewest_le, h.le_most⟩⟩

theorem digits?_eq_some {fewest most : Nat} :
    digits? fewest most s = some (u, rest) ↔
      s = u ++ rest ∧ IsDigits fewest most u ∧ (u.length = most ∨ Stops isDigit rest) := by
  unfold digits?
  cases hcut : takeDigits most s with
  | mk digits others =>
  rw [Option.ite_none_right_eq_some, Option.some.injEq, ← hcut]
  refine ⟨?_, ?_⟩
  · rintro ⟨hfewest, htaken⟩
    obtain ⟨hs, hall, hmost, hstops⟩ := takeDigits_eq.mp htaken
    rw [hcut, Prod.mk.injEq] at htaken
    rw [htaken.1] at hfewest
    exact ⟨hs, ⟨hall, hfewest, hmost⟩, hstops⟩
  · rintro ⟨hs, hdigits, hstops⟩
    have htaken := takeDigits_eq.mpr ⟨hs, hdigits.all, hdigits.le_most, hstops⟩
    refine ⟨?_, htaken⟩
    rw [hcut, Prod.mk.injEq] at htaken
    rw [htaken.1]
    exact hdigits.fewest_le

theorem IsDigits.isRun {fewest most : Nat} (h : IsDigits fewest most s) (hpos : 0 < fewest) :
    IsRun isDigit s :=
  ⟨List.ne_nil_of_length_pos (Nat.lt_of_lt_of_le hpos h.fewest_le), h.all⟩

/-- The digits of a date and of a time of day. -/
structure DateDigits where
  year : List Char
  month : List Char
  day : List Char
  hour : List Char
  minute : List Char
  second : List Char
  year_digits : IsDigits 4 4 year
  month_digits : IsDigits 1 2 month
  day_digits : IsDigits 1 2 day
  hour_digits : IsDigits 1 2 hour
  minute_digits : IsDigits 2 2 minute
  second_digits : IsDigits 2 2 second

/-- The date and the time with a gap between them. -/
def DateDigits.chars (d : DateDigits) (gap : List Char) : List Char :=
  d.year ++ '/' :: (d.month ++ '/' :: (d.day ++ (gap ++
    (d.hour ++ ':' :: (d.minute ++ ':' :: d.second)))))

/-- The end that the digits stand for, which is a date only if they are ASCII digits of one. -/
def DateDigits.leaseEnd (d : DateDigits) : LeaseEnd :=
  match instantOf? d.year d.month d.day d.hour d.minute d.second with
  | some i => .at i
  | none => .noDate

/-- What a line names as the end of a lease. -/
inductive NamedEnd where
  | never
  | date (d : DateDigits)

/-- The end as it is read. -/
def NamedEnd.leaseEnd : NamedEnd → LeaseEnd
  | never => .never
  | date d => d.leaseEnd

/-- A line such as `ends never;` or `ends 1 2015/04/20 21:24:52;`, and the end that it names. -/
inductive IsEnd : List Char → NamedEnd → Prop
  | never {gap space rest : List Char} (hgap : IsRun isBlank gap)
    (hspace : ∀ c ∈ space, isBlank c = true) :
    IsEnd ("ends".toList ++ (gap ++ ("never".toList ++ (space ++ ';' :: rest)))) .never
  | date {gap weekday gap' between space rest : List Char} (d : DateDigits)
    (hgap : IsRun isBlank gap) (hweekday : IsRun isDigit weekday) (hgap' : IsRun isBlank gap')
    (hbetween : IsRun isBlank between) (hspace : ∀ c ∈ space, isBlank c = true) :
    IsEnd ("ends".toList ++ (gap ++ (weekday ++ (gap' ++
      (d.chars between ++ (space ++ ';' :: rest)))))) (.date d)

theorem dateTime?_eq_some {e : LeaseEnd} :
    dateTime? s = some (e, rest) ↔
      ∃ (d : DateDigits) (between : List Char), s = d.chars between ++ rest ∧
        IsRun isBlank between ∧ e = d.leaseEnd := by
  have hslash : isDigit '/' = false := by decide
  have hcolon : isDigit ':' = false := by decide
  unfold dateTime?
  simp only [Option.bind_eq_bind, Option.bind_eq_some_iff, Prod.exists, digits?_eq_some,
    after?_eq_some, afterBlanks?_eq_some]
  refine ⟨?_, ?_⟩
  · rintro ⟨year, _, ⟨rfl, hyear, _⟩, _, rfl, month, _, ⟨rfl, hmonth, _⟩, _, rfl, day, _,
      ⟨rfl, hday, _⟩, _, ⟨between, rfl, hbetween, _⟩, hour, _, ⟨rfl, hhour, _⟩, _, rfl, minute, _,
      ⟨rfl, hminute, _⟩, _, rfl, second, _, ⟨rfl, hsecond, _⟩, h⟩
    refine ⟨⟨year, month, day, hour, minute, second, hyear, hmonth, hday, hhour, hminute, hsecond⟩,
      between, ?_, hbetween, ?_⟩
    · split at h
      · cases h
        simp [DateDigits.chars]
      · cases h
        simp [DateDigits.chars]
    · unfold DateDigits.leaseEnd
      split at h
      · next hdate =>
        cases h
        rw [hdate]
      · next hdate =>
        cases h
        rw [hdate]
  · rintro ⟨d, between, rfl, hbetween, rfl⟩
    have hlen : ∀ {n : Nat} {digits : List Char}, IsDigits n n digits → digits.length = n :=
      fun h => Nat.le_antisymm h.le_most h.fewest_le
    simp only [DateDigits.chars, List.append_assoc, List.cons_append]
    refine ⟨d.year, _, ⟨rfl, d.year_digits, Or.inl (hlen d.year_digits)⟩, _, rfl,
      d.month, _, ⟨rfl, d.month_digits, Or.inr (stops_cons.mpr hslash)⟩, _, rfl,
      d.day, _, ⟨rfl, d.day_digits, Or.inr (hbetween.stops (fun _ => isDigit_of_isBlank) _)⟩,
      _, ⟨between, rfl, hbetween, (d.hour_digits.isRun (by decide)).stops
        (fun _ => isBlank_of_isDigit) _⟩,
      d.hour, _, ⟨rfl, d.hour_digits, Or.inr (stops_cons.mpr hcolon)⟩, _, rfl,
      d.minute, _, ⟨rfl, d.minute_digits, Or.inl (hlen d.minute_digits)⟩, _, rfl,
      d.second, _, ⟨rfl, d.second_digits, Or.inl (hlen d.second_digits)⟩, ?_⟩
    unfold DateDigits.leaseEnd
    cases instantOf? d.year d.month d.day d.hour d.minute d.second with
    | some i => rfl
    | none => rfl

theorem closes_iff :
    closes s = true ↔ ∃ space rest, s = space ++ ';' :: rest ∧ ∀ c ∈ space, isBlank c = true :=
  startsWith_trimStart (by decide)

theorem isEnd_of_ends? {e : LeaseEnd} (h : ends? line = some e) :
    ∃ named, IsEnd line named ∧ e = named.leaseEnd := by
  unfold ends? at h
  simp only [Option.bind_eq_bind, Option.bind_eq_some_iff, after?_eq_some,
    afterBlanks?_eq_some] at h
  obtain ⟨_, rfl, _, ⟨gap, rfl, hgap, _⟩, h⟩ := h
  split at h
  · next rest hnever =>
    obtain rfl := after?_eq_some.mp hnever
    rw [Option.ite_none_right_eq_some] at h
    obtain ⟨hcloses, h⟩ := h
    cases h
    obtain ⟨space, rest, rfl, hspace⟩ := closes_iff.mp hcloses
    exact ⟨.never, .never hgap hspace, rfl⟩
  · simp only [Option.bind_eq_some_iff, Prod.exists, digits?_eq_some, afterBlanks?_eq_some,
      dateTime?_eq_some, Option.ite_none_right_eq_some] at h
    obtain ⟨weekday, _, ⟨rfl, hweekday, _⟩, _, ⟨gap', rfl, hgap', _⟩, _, _,
      ⟨d, between, rfl, hbetween, rfl⟩, hcloses, h⟩ := h
    cases h
    obtain ⟨space, rest, rfl, hspace⟩ := closes_iff.mp hcloses
    exact ⟨.date d, .date d hgap (hweekday.isRun (by decide)) hgap' hbetween hspace, rfl⟩

/-- What starts with a digit is not `never`. -/
theorem after?_never (h : IsRun isDigit s) (rest : List Char) :
    after? "never".toList (s ++ rest) = none := by
  rw [Option.eq_none_iff_forall_ne_some]
  intro after hnever
  have hhead := congrArg List.head? (after?_eq_some.mp hnever)
  obtain ⟨c, cs, rfl⟩ := List.exists_cons_of_ne_nil h.ne_nil
  obtain rfl : c = 'n' := Option.some.inj hhead
  exact absurd (h.all 'n' List.mem_cons_self) (by decide)

theorem ends?_of_isEnd {named : NamedEnd} (h : IsEnd line named) :
    ends? line = some named.leaseEnd := by
  unfold ends?
  cases h with
  | @never gap space rest hgap hspace =>
    have hafter : afterBlanks? (gap ++ ("never".toList ++ (space ++ ';' :: rest))) =
        some ("never".toList ++ (space ++ ';' :: rest)) :=
      afterBlanks?_eq_some.mpr ⟨gap, rfl, hgap, stops_cons.mpr (by decide)⟩
    have hcloses : closes (space ++ ';' :: rest) = true :=
      closes_iff.mpr ⟨space, rest, rfl, hspace⟩
    simp only [after?_eq_some.mpr rfl, hafter, Option.bind_eq_bind, Option.bind_some, hcloses,
      NamedEnd.leaseEnd, ↓reduceIte]
  | @date gap weekday gap' between space rest d hgap hweekday hgap' hbetween hspace =>
    have hcloses : closes (space ++ ';' :: rest) = true :=
      closes_iff.mpr ⟨space, rest, rfl, hspace⟩
    have hdate : dateTime? (d.chars between ++ (space ++ ';' :: rest)) =
        some (d.leaseEnd, space ++ ';' :: rest) :=
      dateTime?_eq_some.mpr ⟨d, between, rfl, hbetween, rfl⟩
    generalize space ++ ';' :: rest = tail at hcloses hdate ⊢
    have hyear : Stops isBlank (d.chars between ++ tail) := by
      rw [DateDigits.chars, List.append_assoc]
      exact (d.year_digits.isRun (by decide)).stops (fun _ => isBlank_of_isDigit) _
    have hafter' : afterBlanks? (gap' ++ (d.chars between ++ tail)) =
        some (d.chars between ++ tail) := afterBlanks?_eq_some.mpr ⟨gap', rfl, hgap', hyear⟩
    generalize d.chars between ++ tail = dated at hdate hafter' ⊢
    have hafter : afterBlanks? (gap ++ (weekday ++ (gap' ++ dated))) =
        some (weekday ++ (gap' ++ dated)) :=
      afterBlanks?_eq_some.mpr
        ⟨gap, rfl, hgap, hweekday.stops (fun _ => isBlank_of_isDigit) _⟩
    have hdigits : digits? 1 (weekday ++ (gap' ++ dated)).length (weekday ++ (gap' ++ dated)) =
        some (weekday, gap' ++ dated) :=
      digits?_eq_some.mpr ⟨rfl, ⟨hweekday.all, List.length_pos_iff.mpr hweekday.ne_nil,
        by rw [List.length_append]; omega⟩, Or.inr (hgap'.stops (fun _ => isDigit_of_isBlank) _)⟩
    simp only [after?_eq_some.mpr rfl, hafter, after?_never hweekday, hdigits, hafter', hdate,
      Option.bind_eq_bind, Option.bind_some, hcloses, NamedEnd.leaseEnd, ↓reduceIte]

theorem ends?_eq_some {e : LeaseEnd} :
    ends? line = some e ↔ ∃ named, IsEnd line named ∧ e = named.leaseEnd := by
  refine ⟨isEnd_of_ends?, ?_⟩
  rintro ⟨named, hend, rfl⟩
  exact ends?_of_isEnd hend

/-! ## Hardware addresses -/

/-- What a hardware address is written with: hexadecimal digits of either case and colons. -/
def isHardwareChar (c : Char) : Bool := c = ':' ∨ (hexValue? c).isSome

/-- A line such as `hardware ethernet 08:00:27:9b:d9:be;` with this text for the address. -/
def IsHardware (line text : List Char) : Prop :=
  ∃ gap gap' space rest,
    line = "hardware".toList ++
      (gap ++ ("ethernet".toList ++ (gap' ++ (text ++ (space ++ ';' :: rest))))) ∧
    IsRun isBlank gap ∧ IsRun isBlank gap' ∧ IsRun isHardwareChar text ∧
    ∀ c ∈ space, isBlank c = true

theorem isBlank_of_isHardwareChar {c : Char} (h : isHardwareChar c = true) : isBlank c = false := by
  rw [isHardwareChar, decide_eq_true_eq] at h
  rcases h with rfl | hdigit
  · decide
  · obtain ⟨n, hn⟩ := Option.isSome_iff_exists.mp hdigit
    exact (of_hexValue? hn).2.2

theorem hardwareText?_eq_some : hardwareText? line = some text ↔ IsHardware line text := by
  unfold hardwareText? IsHardware
  rw [show (fun c : Char => decide (c = ':' ∨ (hexValue? c).isSome)) = isHardwareChar from rfl]
  simp only [Option.bind_eq_bind, Option.bind_eq_some_iff, after?_eq_some, afterBlanks?_eq_some,
    drop_length_takeWhile, Option.ite_none_right_eq_some, Option.some.injEq]
  refine ⟨?_, ?_⟩
  · rintro ⟨_, rfl, _, ⟨gap, rfl, hgap, _⟩, _, rfl, tail, ⟨gap', rfl, hgap', _⟩,
      ⟨hne, hcloses⟩, rfl⟩
    obtain ⟨space, rest, hrest, hspace⟩ := closes_iff.mp hcloses
    refine ⟨gap, gap', space, rest, ?_, hgap, hgap', ⟨hne, ?_⟩, hspace⟩
    · rw [← hrest, List.takeWhile_append_dropWhile]
    · exact fun c hc => List.all_eq_true.mp List.all_takeWhile c hc
  · rintro ⟨gap, gap', space, rest, rfl, hgap, hgap', htext, hspace⟩
    have hstops : Stops isHardwareChar (space ++ ';' :: rest) := by
      cases space with
      | nil => exact stops_cons.mpr (by decide)
      | cons b space =>
        rw [List.cons_append, stops_cons, Bool.eq_false_iff]
        intro hb
        have := isBlank_of_isHardwareChar hb
        rw [hspace b List.mem_cons_self] at this
        cases this
    refine ⟨_, rfl, _, ⟨gap, rfl, hgap, stops_cons.mpr (by decide)⟩, _, rfl, _,
      ⟨gap', rfl, hgap', htext.stops (fun _ => isBlank_of_isHardwareChar) _⟩, ?_⟩
    rw [takeWhile_append_of_stops htext.all hstops, dropWhile_append_of_stops htext.all hstops]
    exact ⟨⟨htext.ne_nil, closes_iff.mpr ⟨space, rest, rfl, hspace⟩⟩, rfl⟩

/-! ## What a line says -/

theorem IsHeader.head? (h : IsHeader line text) : line.head? = some 'l' := by
  obtain ⟨gap, rest, rfl, _⟩ := h
  rfl

theorem IsEnd.head? {named : NamedEnd} (h : IsEnd line named) : line.head? = some 'e' := by
  cases h <;> rfl

theorem IsHardware.head? (h : IsHardware line text) : line.head? = some 'h' := by
  obtain ⟨gap, gap', space, rest, rfl, _⟩ := h
  rfl

theorem ofChars_eq_header {address : Option Ipv4} :
    ofChars line = .header address ↔
      ∃ text, Names (trim line) text ∧ address = Ipv4.ofChars? text := by
  unfold ofChars
  simp only [← headerText?_eq_some]
  cases headerText? (trim line) with
  | some text => simp [eq_comm]
  | none =>
    simp only [reduceCtorEq, false_and, exists_false, iff_false]
    split
    · simp
    · split
      · simp
      · split <;> simp

/-- A line that is an end is no header, as its first letter shows. -/
theorem ofChars_eq_ends {e : LeaseEnd} :
    ofChars line = .ends e ↔ ∃ named, IsEnd (trim line) named ∧ e = named.leaseEnd := by
  have hexcl : ends? (trim line) = some e → headerText? (trim line) = none := by
    intro hends
    obtain ⟨named, hend, _⟩ := ends?_eq_some.mp hends
    rw [headerText?_eq_none]
    intro text hheader
    have := hend.head?.symm.trans hheader.head?
    simp at this
  rw [← ends?_eq_some]
  unfold ofChars
  dsimp only
  refine ⟨?_, ?_⟩
  · intro h
    split at h
    · cases h
    split at h
    · next hend =>
      cases h
      exact hend
    split at h
    · cases h
    · split at h <;> cases h
  · intro hend
    simp only [hexcl hend, hend]

theorem ofChars_eq_hardware {mac : Option String} :
    ofChars line = .hardware mac ↔
      ∃ text, IsHardware (trim line) text ∧ mac = (macText? text).map String.ofList := by
  have hexcl : ∀ text, IsHardware (trim line) text →
      headerText? (trim line) = none ∧ ends? (trim line) = none := by
    intro text hhardware
    refine ⟨?_, ?_⟩
    · rw [headerText?_eq_none]
      intro other hheader
      have := hhardware.head?.symm.trans hheader.head?
      simp at this
    · rw [Option.eq_none_iff_forall_ne_some]
      intro e hend
      obtain ⟨named, hend, _⟩ := ends?_eq_some.mp hend
      have := hhardware.head?.symm.trans hend.head?
      simp at this
  simp only [← hardwareText?_eq_some] at hexcl ⊢
  unfold ofChars
  dsimp only
  refine ⟨?_, ?_⟩
  · intro h
    split at h
    · cases h
    split at h
    · cases h
    split at h
    · next text htext =>
      cases h
      exact ⟨text, htext, rfl⟩
    · split at h <;> cases h
  · rintro ⟨text, htext, rfl⟩
    obtain ⟨hheader, hends⟩ := hexcl text htext
    simp only [hheader, hends, htext]

end LeaseLine

end NetBoot
