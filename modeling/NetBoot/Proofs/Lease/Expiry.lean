-- Leases only run out: at a later time a text has some of the leases that it had before, and a line
-- that names a later end takes no lease away.
import Mathlib.Data.List.Forall2
import NetBoot.Proofs.Lease.EndDates

namespace NetBoot

variable {now now' : Instant}

/-! ## Ends that come later -/

/-- A lease with the first end is over at the first time only if one with the second end is over at
the second time. -/
def LeaseEnd.Outlasts (now now' : Instant) (e e' : LeaseEnd) : Prop :=
  e.isOver now = true → e'.isOver now' = true

namespace LeaseEnd

/-- What is over stays over. -/
theorem outlasts_later (h : now ≤ now') (e : LeaseEnd) : e.Outlasts now now' e := by
  cases e with
  | never => exact id
  | noDate => exact id
  | «at» i => exact fun hover => Instant.le_trans hover h

theorem outlasts_of_le {i j : Instant} (h : i ≤ j) (now : Instant) :
    (LeaseEnd.at j).Outlasts now now (.at i) :=
  fun hover => Instant.le_trans h hover

end LeaseEnd

/-! ## Two readings of a text, line by line -/

/-- Lines that say the same, but for an end that comes later in the first one. -/
inductive LeaseLine.Outlasts (now now' : Instant) : LeaseLine → LeaseLine → Prop
  | same {line : LeaseLine} (h : ∀ e, line ≠ .ends e) : Outlasts now now' line line
  | ends {e e' : LeaseEnd} (h : e.Outlasts now now' e') : Outlasts now now' (.ends e) (.ends e')

theorem LeaseLine.outlasts_later (h : now ≤ now') (line : LeaseLine) :
    line.Outlasts now now' line := by
  cases line with
  | ends e => exact .ends (LeaseEnd.outlasts_later h e)
  | _ => exact .same (by simp)

namespace LeaseBlock

/-- Blocks for one lease, the first of which ends later. -/
structure Outlasts (now now' : Instant) (b b' : LeaseBlock) : Prop where
  address : b.address = b'.address
  mac : b.mac = b'.mac
  ends : b.ends.Outlasts now now' b'.ends

variable {b b' : LeaseBlock} {open? open?' : Option LeaseBlock} {line line' : LeaseLine}

theorem Outlasts.lease?_sublist (h : b.Outlasts now now' b') :
    (b'.lease? now').toList.Sublist (b.lease? now).toList := by
  unfold lease?
  cases hover : b.ends.isOver now with
  | true =>
    rw [h.ends hover]
    exact List.Sublist.refl _
  | false =>
    rw [h.address, h.mac]
    cases b'.ends.isOver now' with
    | true => exact List.nil_sublist _
    | false => exact List.Sublist.refl _

/-- The block that is open after a line still ends later, and the line completes no lease that it
does not complete in the first reading. -/
theorem outlasts_step (hopen : Option.Rel (Outlasts now now') open? open?')
    (hline : line.Outlasts now now' line') :
    Option.Rel (Outlasts now now') (step now open? line).1 (step now' open?' line').1 ∧
      (step now' open?' line').2.toList.Sublist (step now open? line).2.toList := by
  cases hline with
  | ends he =>
    refine ⟨?_, List.Sublist.refl _⟩
    cases hopen with
    | none => exact .none
    | some hb => exact .some ⟨hb.address, hb.mac, he⟩
  | same hne =>
    cases line with
    | ends e => exact absurd rfl (hne e)
    | header address => exact ⟨.some ⟨rfl, rfl, id⟩, List.Sublist.refl _⟩
    | other => exact ⟨hopen, List.Sublist.refl _⟩
    | hardware mac =>
      refine ⟨?_, List.Sublist.refl _⟩
      cases hopen with
      | none => exact .none
      | some hb => exact .some ⟨hb.address, rfl, hb.ends⟩
    | close =>
      refine ⟨.none, ?_⟩
      cases hopen with
      | none => exact List.Sublist.refl _
      | some hb => exact hb.lease?_sublist

end LeaseBlock

namespace Lease

/-- Later ends and an earlier time lose no lease. -/
theorem ofLines_sublist {open? open?' : Option LeaseBlock} {lines lines' : List LeaseLine}
    (hopen : Option.Rel (LeaseBlock.Outlasts now now') open? open?')
    (hlines : List.Forall₂ (LeaseLine.Outlasts now now') lines lines') :
    (ofLines now' open?' lines').Sublist (ofLines now open? lines) := by
  induction hlines generalizing open? open?' with
  | nil => exact List.Sublist.refl _
  | cons hline _ ih =>
    obtain ⟨hnext, hlease⟩ := LeaseBlock.outlasts_step hopen hline
    rw [ofLines_cons, ofLines_cons]
    exact hlease.append (ih hnext)

end Lease

/-! ## Dates in lines -/

namespace LeaseLine

open Text

/-- A line such as `ends 1 2015/04/20 21:24:52;` with a valid date, and the reading of a clock that
its date and its time are. -/
inductive EndsAt : List Char → ClockTime → Prop
  | intro {gap weekday gap' between space rest : List Char} {d : DateDigits} {t : ClockTime}
    (hgap : IsRun isBlank gap) (hweekday : IsRun isDigit weekday) (hgap' : IsRun isBlank gap')
    (hbetween : IsRun isBlank between) (hspace : ∀ c ∈ space, isBlank c = true)
    (hshows : d.Shows t) :
    EndsAt ("ends".toList ++ (gap ++ (weekday ++ (gap' ++
      (d.chars between ++ (space ++ ';' :: rest)))))) t

theorem EndsAt.ofChars_eq {line : List Char} {t : ClockTime} (h : EndsAt (trim line) t) :
    ∃ i, t.toInstant? = some i ∧ t.nanos = 0 ∧ ofChars line = .ends (.at i) := by
  generalize hs : trim line = s at h
  cases h with
  | intro hgap hweekday hgap' hbetween hspace hshows =>
    obtain ⟨i, hi, hend⟩ := hshows.leaseEnd_eq
    refine ⟨i, hi, hshows.nanos, ofChars_eq_ends.mpr ?_⟩
    rw [hs]
    exact ⟨.date _, .date _ hgap hweekday hgap' hbetween hspace, hend.symm⟩

end LeaseLine

open LeaseLine Text

/-- Leases only run out. At a later time a text has some of its leases, in their order; and where a
line with a valid date of an end becomes one with a date that is not earlier, by its numbers from
the year down to the second, the text keeps all its leases, at any time. -/
theorem leases_only_run_out (text : String) :
    (∀ now now' : Instant, now ≤ now' → (Lease.ofText text now').Sublist (Lease.ofText text now)) ∧
    ∀ (later : String) (before after : List (List Char)) (line line' : List Char)
      (t t' : ClockTime), lines text.toList = before ++ line :: after →
      lines later.toList = before ++ line' :: after → EndsAt (trim line) t →
      EndsAt (trim line') t' → ¬ t'.numbers < t.numbers →
      ∀ now, (Lease.ofText text now).Sublist (Lease.ofText later now) := by
  refine ⟨?_, ?_⟩
  · intro now now' h
    apply Lease.ofLines_sublist .none
    exact List.forall₂_same.mpr fun line _ => LeaseLine.outlasts_later h line
  · intro later before after line line' t t' htext hlater hline hline' hnumbers now
    obtain ⟨i, hi, hnanos, hends⟩ := hline.ofChars_eq
    obtain ⟨j, hj, hnanos', hends'⟩ := hline'.ofChars_eq
    have hle : i ≤ j := (ClockTime.le_iff_not_numbers_lt hi hj hnanos hnanos').mpr hnumbers
    have hsame : ∀ lines : List LeaseLine, List.Forall₂ (LeaseLine.Outlasts now now) lines lines :=
      fun lines => List.forall₂_same.mpr fun line _ =>
        LeaseLine.outlasts_later (Instant.le_refl now) line
    unfold Lease.ofText Lease.ofChars
    apply Lease.ofLines_sublist .none
    rw [htext, hlater, List.map_append, List.map_append, List.map_cons, List.map_cons, hends,
      hends']
    exact List.rel_append (hsame _) (.cons (.ends (LeaseEnd.outlasts_of_le hle now)) (hsame _))

/-- The last minute of 2016, which had a second 60. -/
def yearEnd (second : Nat) : ClockTime := ⟨⟨2016, 12, 31⟩, 23, 59, second, 0⟩

def yearEndDigits (second : List Char) (h : IsDigits 2 2 second) : DateDigits where
  year := "2016".toList
  month := "12".toList
  day := "31".toList
  hour := "23".toList
  minute := "59".toList
  second := second
  year_digits := by decide
  month_digits := by decide
  day_digits := by decide
  hour_digits := by decide
  minute_digits := by decide
  second_digits := h

/-- A line that ends a lease in a second of that minute. -/
def yearEndLine (second : List Char) : List Char :=
  "ends 6 2016/12/31 23:59:".toList ++ (second ++ [';'])

theorem yearEndLine_endsAt {second : List Char} {n : Nat} (hdigits : IsDigits 2 2 second)
    (hread : readNat? second = some n) (hvalid : (yearEnd n).isValid = true) :
    EndsAt (yearEndLine second) (yearEnd n) := by
  have hblank : IsRun isBlank [' '] := by decide
  have hweekday : IsRun isDigit ['6'] := by decide
  have hshows : (yearEndDigits second hdigits).Shows (yearEnd n) :=
    ⟨⟨2016, rfl, rfl⟩, rfl, rfl, rfl, rfl, hread, rfl, hvalid⟩
  exact @EndsAt.intro _ _ _ _ [] [] _ _ hblank hweekday hblank hblank (by simp) hshows

def yearEndText (second : String) : String :=
  "lease 10.0.0.5 \x7b\n  ends 6 2016/12/31 23:59:" ++ second ++
    ";\n  hardware ethernet 0:1:2:3:4:5;\n\x7d\n"

def yearEndLease : Lease := ⟨⟨10, 0, 0, 5⟩, "00:01:02:03:04:05"⟩

/-- Half a second before second 59 the lease is there, half a second after it only the one that
ends in the leap second. -/
theorem leap_second_prolongs_a_lease :
    (⟨1483228798, 500000000⟩ : Instant) ≤ ⟨1483228799, 500000000⟩ ∧
      lines (yearEndText "59").toList = ["lease 10.0.0.5 \x7b".toList] ++
        (' ' :: ' ' :: yearEndLine "59".toList) ::
          ["  hardware ethernet 0:1:2:3:4:5;".toList, "\x7d".toList, []] ∧
      lines (yearEndText "60").toList = ["lease 10.0.0.5 \x7b".toList] ++
        (' ' :: ' ' :: yearEndLine "60".toList) ::
          ["  hardware ethernet 0:1:2:3:4:5;".toList, "\x7d".toList, []] ∧
      EndsAt (trim (' ' :: ' ' :: yearEndLine "59".toList)) (yearEnd 59) ∧
      EndsAt (trim (' ' :: ' ' :: yearEndLine "60".toList)) (yearEnd 60) ∧
      ¬ (yearEnd 60).numbers < (yearEnd 59).numbers ∧
      yearEndLease ∈ Lease.ofText (yearEndText "60") ⟨1483228798, 500000000⟩ ∧
      (Lease.ofText (yearEndText "60") ⟨1483228799, 500000000⟩).Sublist
        (Lease.ofText (yearEndText "60") ⟨1483228798, 500000000⟩) ∧
      Lease.ofText (yearEndText "59") ⟨1483228799, 500000000⟩ = [] ∧
      Lease.ofText (yearEndText "60") ⟨1483228799, 500000000⟩ = [yearEndLease] := by
  have hle : (⟨1483228798, 500000000⟩ : Instant) ≤ ⟨1483228799, 500000000⟩ := by decide
  have htext : lines (yearEndText "59").toList = ["lease 10.0.0.5 \x7b".toList] ++
      (' ' :: ' ' :: yearEndLine "59".toList) ::
        ["  hardware ethernet 0:1:2:3:4:5;".toList, "\x7d".toList, []] := by decide +kernel
  have hlater : lines (yearEndText "60").toList = ["lease 10.0.0.5 \x7b".toList] ++
      (' ' :: ' ' :: yearEndLine "60".toList) ::
        ["  hardware ethernet 0:1:2:3:4:5;".toList, "\x7d".toList, []] := by decide +kernel
  have hends : EndsAt (trim (' ' :: ' ' :: yearEndLine "59".toList)) (yearEnd 59) := by
    rw [show trim (' ' :: ' ' :: yearEndLine "59".toList) = yearEndLine "59".toList by decide]
    exact yearEndLine_endsAt (by decide) rfl (by decide)
  have hends' : EndsAt (trim (' ' :: ' ' :: yearEndLine "60".toList)) (yearEnd 60) := by
    rw [show trim (' ' :: ' ' :: yearEndLine "60".toList) = yearEndLine "60".toList by decide]
    exact yearEndLine_endsAt (by decide) rfl (by decide)
  have hnumbers : ¬ (yearEnd 60).numbers < (yearEnd 59).numbers := by decide
  have hheld : Lease.ofText (yearEndText "59") ⟨1483228798, 500000000⟩ = [yearEndLease] := by
    decide +kernel
  obtain ⟨hshrinks, _⟩ := leases_only_run_out (yearEndText "60")
  obtain ⟨_, hkeeps⟩ := leases_only_run_out (yearEndText "59")
  have hkept := hkeeps _ _ _ _ _ _ _ htext hlater hends hends' hnumbers ⟨1483228798, 500000000⟩
  rw [hheld] at hkept
  exact ⟨hle, htext, hlater, hends, hends', hnumbers, hkept.subset List.mem_cons_self,
    hshrinks _ _ hle, by decide +kernel, by decide +kernel⟩

end NetBoot
