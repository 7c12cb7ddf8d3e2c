-- The laws of the lease text: only a line that starts with a brace completes a lease, so a text in
-- which braces stand alone can be cut after any brace and read in pieces.
import NetBoot.Lease.Block
import NetBoot.Proofs.Text.Pieces

namespace NetBoot

/-! ## One line -/

namespace LeaseLine

/-- A line closes a block exactly if its first character that is not blank is a brace. -/
theorem ofChars_eq_close {line : List Char} :
    ofChars line = .close ↔ (Text.trimStart line).head? = some '}' := by
  rw [← Text.head?_trim]
  unfold ofChars
  generalize Text.trim line = s
  cases s with
  | nil => simp only [List.head?_nil, reduceCtorEq, iff_false]; decide
  | cons c rest =>
    rw [List.head?_cons, Option.some.injEq]
    by_cases hc : c = '}'
    · subst hc
      have hheader : headerText? ('}' :: rest) = none := rfl
      have hends : ends? ('}' :: rest) = none := rfl
      have hhardware : hardwareText? ('}' :: rest) = none := rfl
      have hbrace : Text.startsWith ['}'] ('}' :: rest) = true := rfl
      simp only [hheader, hends, hhardware, hbrace, ↓reduceIte]
    · have hbrace : Text.startsWith ['}'] (c :: rest) = false := by
        simp [Text.startsWith, Text.after?, Ne.symm hc]
      simp only [hbrace, hc, iff_false]
      split
      · simp
      · split
        · simp
        · split <;> simp

theorem ofChars_ne_close {line : List Char} (h : '}' ∉ line) : ofChars line ≠ .close := by
  intro hclose
  have hhead := List.mem_of_head? (ofChars_eq_close.mp hclose)
  exact h ((List.dropWhile_suffix _).subset hhead)

theorem ofChars_of_blank {line : List Char} (h : ∀ c ∈ line, Text.isBlank c = true) :
    ofChars line = .other := by
  unfold ofChars
  rw [Text.trim_of_blank h]
  decide

/-- After a brace, the rest of a line does not change whether the line closes a block. -/
theorem ofChars_append_eq_close (line rest : List Char) :
    ofChars (line ++ ['}'] ++ rest) = .close ↔ ofChars (line ++ ['}']) = .close := by
  have hne : Text.trimStart (line ++ ['}']) ≠ [] := by
    unfold Text.trimStart
    intro h
    have hblank := List.dropWhile_eq_nil_iff.mp h '}' (by simp)
    exact absurd hblank (by decide)
  have happend : Text.trimStart (line ++ ['}'] ++ rest) =
      Text.trimStart (line ++ ['}']) ++ rest := by
    unfold Text.trimStart at hne ⊢
    rw [List.dropWhile_append, if_neg (by simpa using hne)]
  obtain ⟨c, cs, hstart⟩ := List.exists_cons_of_ne_nil hne
  rw [ofChars_eq_close, ofChars_eq_close, happend, hstart, List.cons_append, List.head?_cons,
    List.head?_cons]

theorem ofChars_of_blank_brace {line : List Char} (h : ∀ c ∈ line, Text.isBlank c = true)
    (rest : List Char) : ofChars (line ++ ['}'] ++ rest) = .close := by
  rw [ofChars_append_eq_close, ofChars_eq_close]
  unfold Text.trimStart
  rw [List.dropWhile_append_of_pos h]
  rfl

end LeaseLine

/-! ## Lines one after the other -/

/-- Only the end of a block completes a lease. -/
theorem LeaseBlock.step_lease (now : Instant) (open? : Option LeaseBlock) (line : LeaseLine) :
    (step now open? line).2 = if line = .close then open?.bind (lease? now) else none := by
  cases line <;> rfl

namespace Lease

variable (now : Instant)

theorem ofLines_cons (open? : Option LeaseBlock) (line : LeaseLine) (rest : List LeaseLine) :
    ofLines now open? (line :: rest) =
      (LeaseBlock.step now open? line).2.toList ++
        ofLines now (LeaseBlock.step now open? line).1 rest := rfl

/-- The block that is open after lines. -/
def openAfter (open? : Option LeaseBlock) (lines : List LeaseLine) : Option LeaseBlock :=
  lines.foldl (fun o line => (LeaseBlock.step now o line).1) open?

theorem ofLines_append (open? : Option LeaseBlock) (xs ys : List LeaseLine) :
    ofLines now open? (xs ++ ys) =
      ofLines now open? xs ++ ofLines now (openAfter now open? xs) ys := by
  induction xs generalizing open? with
  | nil => rfl
  | cons line xs ih =>
    rw [List.cons_append, ofLines_cons, ofLines_cons, ih, List.append_assoc]
    rfl

theorem ofLines_eq_nil {open? : Option LeaseBlock} {lines : List LeaseLine}
    (h : ∀ line ∈ lines, line ≠ .close) : ofLines now open? lines = [] := by
  induction lines generalizing open? with
  | nil => rfl
  | cons line rest ih =>
    have hline := h line List.mem_cons_self
    rw [ofLines_cons, LeaseBlock.step_lease, if_neg hline,
      ih fun l hl => h l (List.mem_cons_of_mem line hl)]
    rfl

/-- A line alone completes no lease. -/
theorem ofLines_singleton (line : LeaseLine) : ofLines now none [line] = [] := by
  rw [ofLines_cons, LeaseBlock.step_lease]
  split <;> rfl

theorem ofChars_eq_nil {text : List Char} (h : '}' ∉ text) : ofChars text now = [] := by
  apply ofLines_eq_nil
  intro line hline
  obtain ⟨chars, hchars, rfl⟩ := List.mem_map.mp hline
  exact LeaseLine.ofChars_ne_close fun hbrace => h (Text.mem_of_mem_fields hchars hbrace)

/-! ## Pieces of a text -/

/-- In every complete line with a closing brace, the brace is the only character that is not
blank. The line after the last line feed is not complete. -/
def BracesAlone (text : List Char) : Prop :=
  ∀ line ∈ (Text.lines text).dropLast, '}' ∈ line →
    (line.filter fun c => !Text.isBlank c) = ['}']

instance : DecidablePred BracesAlone := fun text =>
  inferInstanceAs (Decidable (∀ line ∈ (Text.lines text).dropLast, '}' ∈ line →
    (line.filter fun c => !Text.isBlank c) = ['}']))

theorem BracesAlone.of_append {s t : List Char} (h : BracesAlone (s ++ t)) : BracesAlone s := by
  obtain ⟨front, last, hs⟩ := Text.exists_last_field '\n' s
  obtain ⟨first, back, ht⟩ := List.exists_cons_of_ne_nil (Text.fields_ne_nil '\n' t)
  intro line hline
  apply h line
  unfold Text.lines at hline ⊢
  rw [hs, List.dropLast_concat] at hline
  rw [Text.fields_append hs ht, List.dropLast_append_of_ne_nil (List.cons_ne_nil _ _)]
  exact List.mem_append_left _ hline

/-- Around a brace that stands alone there are only blanks. -/
theorem blank_of_alone {before after : List Char}
    (h : ((before ++ ['}'] ++ after).filter fun c => !Text.isBlank c) = ['}']) :
    (∀ c ∈ before, Text.isBlank c = true) ∧ ∀ c ∈ after, Text.isBlank c = true := by
  have hlen := congrArg List.length h
  have hone : ((['}'] : List Char).filter fun c => !Text.isBlank c).length = 1 := by decide
  rw [List.filter_append, List.filter_append, List.length_append, List.length_append, hone,
    List.length_singleton] at hlen
  have hnone : ∀ cs : List Char, (cs.filter fun c => !Text.isBlank c).length = 0 →
      ∀ c ∈ cs, Text.isBlank c = true := by
    intro cs hcs c hc
    have := List.filter_eq_nil_iff.mp (List.length_eq_zero_iff.mp hcs) c hc
    simpa using this
  exact ⟨hnone before (by omega), hnone after (by omega)⟩

/-- The text is empty, or its last character is a closing brace. -/
def EndsAtBrace (s : List Char) : Prop := s = [] ∨ ∃ u, s = u ++ ['}']

/-- A text with its braces alone can be cut after any brace: the leases of the whole are those of
the first piece and then those of the second. -/
theorem ofChars_append {s t : List Char} (hend : EndsAtBrace s)
    (halone : BracesAlone (s ++ t)) :
    ofChars (s ++ t) now = ofChars s now ++ ofChars t now := by
  rcases hend with rfl | ⟨u, rfl⟩
  · rfl
  obtain ⟨front, last, hu⟩ := Text.exists_last_field '\n' u
  obtain ⟨first, back, ht⟩ := List.exists_cons_of_ne_nil (Text.fields_ne_nil '\n' t)
  have hs : Text.fields '\n' (u ++ ['}']) = front ++ [last ++ ['}']] := Text.fields_append hu rfl
  have hst := Text.fields_append hs ht
  have hline := halone (last ++ ['}'] ++ first)
  unfold ofChars
  unfold Text.lines at hline ⊢
  rw [hst] at hline ⊢
  rw [hs, ht, List.map_append, List.map_append, ofLines_append, ofLines_append,
    List.append_assoc (ofLines now none (front.map LeaseLine.ofChars))]
  congr 1
  generalize openAfter now none (front.map LeaseLine.ofChars) = open?
  simp only [List.map_cons, List.map_nil]
  cases back with
  | nil =>
    -- The line of the cut is the last one, and the brace in it completes at most one lease.
    rw [List.map_nil, ofLines_singleton, ofLines_cons, ofLines_cons, LeaseBlock.step_lease,
      LeaseBlock.step_lease]
    simp only [LeaseLine.ofChars_append_eq_close last first, ofLines, List.append_nil]
  | cons next back =>
    -- The line of the cut is complete, so the brace stands alone in it and closes the block.
    obtain ⟨hbefore, hafter⟩ := blank_of_alone (hline (by simp) (by simp))
    have hwhole := LeaseLine.ofChars_of_blank_brace hbefore first
    have hcut := LeaseLine.ofChars_of_blank_brace hbefore []
    rw [List.append_nil] at hcut
    rw [hwhole, hcut, LeaseLine.ofChars_of_blank hafter]
    simp [ofLines, LeaseBlock.step]

end Lease

end NetBoot
