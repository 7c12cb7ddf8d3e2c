-- Blocks across the looks of the lease poller. A block is read in one piece, and its lease is told,
-- unless some look cuts the text after a brace within the block.
import NetBoot.Proofs.Lease.BlockMeaning
import NetBoot.Proofs.Lease.Tailing

namespace NetBoot

open Text

variable {σ : Type} {now : Instant} {s t : List Char} {i j : Nat} {l : Lease}

/-! ## Blocks of two texts put together -/

/-- The lines of two texts put together: as many whole lines of the first as it has line feeds, the
line that the texts share, and the other lines of the second. -/
theorem exists_lines_append (s t : List Char) :
    ∃ front last first back, lines s = front ++ [last] ∧ lines t = first :: back ∧
      lines (s ++ t) = front ++ (last ++ first) :: back ∧ front.length = s.count '\n' := by
  obtain ⟨front, last, hs⟩ := exists_last_field '\n' s
  obtain ⟨first, back, ht⟩ := List.exists_cons_of_ne_nil (fields_ne_nil '\n' t)
  refine ⟨front, last, first, back, hs, ht, fields_append hs ht, ?_⟩
  have hlen := length_fields '\n' s
  rw [hs, List.length_append, List.length_singleton] at hlen
  omega

/-- Of two ways to cut a list, the longer front goes on with what the shorter one leaves. -/
theorem append_eq_append_of_length_le {α : Type} {a b c d : List α} (h : a ++ b = c ++ d)
    (hlen : a.length ≤ c.length) : ∃ e, c = a ++ e ∧ b = e ++ d := by
  rcases List.append_eq_append_iff.mp h with ⟨e, hc, hb⟩ | ⟨e, ha, hd⟩
  · exact ⟨e, hc, hb⟩
  · rw [ha, List.length_append] at hlen
    obtain rfl : e = [] := List.length_eq_zero_iff.mp (by omega)
    refine ⟨[], ?_, ?_⟩
    · rw [ha, List.append_nil, List.append_nil]
    · exact hd.symm

/-- A block that starts after the line of the cut is a block of the second text. -/
theorem LeaseAt.of_append_right (h : LeaseAt now (lines (s ++ t)) i j l) (hi : s.count '\n' < i) :
    LeaseAt now (lines t) (i - s.count '\n') (j - s.count '\n') l := by
  obtain ⟨front, last, first, back, _, ht, hst, hlen⟩ := exists_lines_append s t
  obtain ⟨before, header, body, close, after, hlines, rfl, rfl, hmakes⟩ := h
  rw [hst, List.append_cons] at hlines
  obtain ⟨between, rfl, hback⟩ := append_eq_append_of_length_le hlines
    (by rw [List.length_append, List.length_singleton]; omega)
  have hcount : (front ++ [last ++ first] ++ between).length =
      s.count '\n' + (first :: between).length := by
    simp only [List.length_append, List.length_cons, List.length_nil]
    omega
  refine ⟨first :: between, header, body, close, after, ?_, ?_, ?_, hmakes⟩
  · rw [ht, hback]
    rfl
  · omega
  · omega

/-- A block that is closed by the line of the cut, or before it, is a block of the first text, if
the cut is after a brace. -/
theorem LeaseAt.of_append_left (h : LeaseAt now (lines (s ++ t)) i j l)
    (hends : Lease.EndsAtBrace s) (hj : j ≤ s.count '\n') : LeaseAt now (lines s) i j l := by
  obtain ⟨front, last, first, back, hs, _, hst, hlen⟩ := exists_lines_append s t
  obtain ⟨before, header, body, close, after, hlines, rfl, rfl, hmakes⟩ := h
  rw [hst, ← List.cons_append, ← List.append_assoc] at hlines
  obtain ⟨between, rfl, hclose⟩ := append_eq_append_of_length_le hlines.symm
    (by rw [List.length_append, List.length_cons]; omega)
  cases between with
  | cons next between =>
    obtain ⟨rfl, _⟩ := List.cons.inj hclose
    refine ⟨before, header, body, close, between ++ [last], ?_, rfl, rfl, hmakes⟩
    rw [hs]
    simp
  | nil =>
    -- The brace is on the line of the cut, and the cut leaves it there.
    obtain ⟨hclose, _⟩ := List.cons.inj hclose
    obtain ⟨start, hlast⟩ : ∃ start, last = start ++ ['}'] := by
      rcases hends with rfl | ⟨u, rfl⟩
      · simp at hj
      · obtain ⟨_, start, hu⟩ := exists_last_field '\n' u
        have hcut := hs.symm.trans (fields_append hu (show fields '\n' ['}'] = [['}']] from rfl))
        exact ⟨start, List.singleton_inj.mp (List.append_inj' hcut rfl).2⟩
    refine ⟨before, header, body, last, [], ?_, rfl, rfl, hmakes.header, hmakes.inner, ?_,
      hmakes.ends, hmakes.hardware⟩
    · rw [hs]
      simp
    · have hbrace := hmakes.close
      rw [head?_trim, ← LeaseLine.ofChars_eq_close] at hbrace ⊢
      rw [hclose, hlast, LeaseLine.ofChars_append_eq_close] at hbrace
      rwa [hlast]

/-- A block is closed by a brace, so no block ends after the last brace. -/
theorem LeaseAt.le_count (h : LeaseAt now (lines (s ++ t)) i j l) (ht : '}' ∉ t) :
    j ≤ s.count '\n' := by
  obtain ⟨front, last, first, back, _, hfirst, hst, hlen⟩ := exists_lines_append s t
  obtain ⟨before, header, body, close, after, hlines, rfl, rfl, hmakes⟩ := h
  by_contra hlt
  rw [hst, List.append_cons, ← List.cons_append, ← List.append_assoc] at hlines
  obtain ⟨between, _, hback⟩ := append_eq_append_of_length_le hlines
    (by simp only [List.length_append, List.length_cons, List.length_nil]; omega)
  have hmem : close ∈ fields '\n' t := by
    rw [show fields '\n' t = first :: back from hfirst, hback]
    simp
  exact ht (mem_of_mem_fields hmem (mem_of_mem_trim (List.mem_of_head? hmakes.close)))

/-- A block between two cuts is found in the text between them. -/
theorem LeaseAt.mem_ofChars {whole next rest : List Char}
    (h : LeaseAt now (lines (whole ++ next ++ rest)) i j l)
    (hends : Lease.EndsAtBrace (whole ++ next))
    (hbefore : whole = [] ∨ whole.count '\n' < i) (hlater : whole.count '\n' < j)
    (hj : j ≤ (whole ++ next).count '\n') : l ∈ Lease.ofChars next now := by
  have hblock := h.of_append_left hends hj
  rw [mem_ofChars_iff]
  rcases hbefore with rfl | hi
  · exact ⟨i, j, hblock⟩
  · exact ⟨_, _, hblock.of_append_right hi⟩

/-! ## A file that grows -/

/-- What looks find at a file that grows by these pieces, by one before each look. -/
def LeaseSource.growing (file : Bytes) : List Bytes → List LeaseSource
  | [] => []
  | piece :: rest => .content (file ++ piece) :: growing (file ++ piece) rest

/-- The last brace of the text stands on a line from `i` on and before `j`. -/
def LastBraceWithin (i j : Nat) (text : List Char) : Prop :=
  ∃ before after, text = before ++ '}' :: after ∧ '}' ∉ after ∧
    i ≤ before.count '\n' ∧ before.count '\n' < j

/-- In the whole text the brace that closes a block comes after the block. -/
theorem LeaseAt.not_within {text : List Char} (h : LeaseAt now (lines text) i j l) :
    ¬ LastBraceWithin i j text := by
  rintro ⟨before, after, rfl, hafter, _, hj⟩
  rw [List.append_cons] at h
  have hle := h.le_count hafter
  rw [List.count_append, show List.count '\n' ['}'] = 0 from rfl, Nat.add_zero] at hle
  omega

theorem LeaseTail.ReadUpTo.not_within {file : Bytes} {whole : List Char} {t : LeaseTail}
    (h : t.ReadUpTo file whole) (hcut : ¬ LastBraceWithin i j (Utf8.decodeLossy file)) :
    whole = [] ∨ whole.count '\n' < i ∨ j ≤ whole.count '\n' := by
  rcases h.ends with hnil | ⟨before, hbefore⟩
  · exact Or.inl hnil
  · have hcount : whole.count '\n' = before.count '\n' := by
      rw [hbefore, List.count_append]
      rfl
    by_contra hwithin
    simp only [not_or, Nat.not_lt, Nat.not_le] at hwithin
    refine hcut ⟨before, t.pending, ?_, h.pending, ?_, ?_⟩
    · rw [h.text, hbefore, List.append_assoc]
      rfl
    · rw [← hcount]
      exact hwithin.2.1
    · rw [← hcount]
      exact hwithin.2.2

/-- A look at a longer file reads on to the last brace in it, and tells of the leases of the text in
between. -/
theorem Poller.look_readUpTo (hear : Listener σ) (now : Instant) {p : Poller σ} {file piece : Bytes}
    {whole : List Char} (hread : p.tail.ReadUpTo file whole)
    (hascii : Utf8.IsAscii (file ++ piece)) :
    let look := p.look hear now (.content (file ++ piece))
    ∃ next, look.after.tail.ReadUpTo (file ++ piece) (whole ++ next) ∧
      look.calls.map Call.announcement = (Lease.ofChars next now).map Lease.announcement := by
  obtain ⟨_, _, htail, _, hcalls⟩ := look_content hear p now (file ++ piece)
  rw [LeaseTail.resume_append hread.offset, hread.offset, List.drop_left] at htail hcalls
  obtain ⟨next, hnext, hleases⟩ := hread.take now hascii
  exact ⟨next, htail ▸ hnext, hleases ▸ hcalls⟩

/-- The lease is told of by a look of the run. -/
def ToldIn (run : List (Look σ)) (l : Lease) : Prop :=
  ∃ look ∈ run, ∃ call ∈ look.calls, call.announcement = l.announcement

/-- A run of looks at a file that grows tells of every lease of it, but for those of blocks that
were read before and of blocks that are cut. -/
theorem Poller.run_tells (hear : Listener σ) {p : Poller σ} {file : Bytes} {whole : List Char}
    {pieces : List Bytes} (hread : p.tail.ReadUpTo file whole)
    (hascii : Utf8.IsAscii (file ++ pieces.flatten))
    (hlease : LeaseAt now (lines (Utf8.decodeLossy (file ++ pieces.flatten))) i j l)
    (hbefore : whole = [] ∨ whole.count '\n' < i ∨ j ≤ whole.count '\n')
    (hcut : ∀ bytes, .content bytes ∈ LeaseSource.growing file pieces →
      ¬ LastBraceWithin i j (Utf8.decodeLossy bytes)) :
    j ≤ whole.count '\n' ∨ ToldIn (p.run hear now (LeaseSource.growing file pieces)) l := by
  induction pieces generalizing p file whole with
  | nil =>
    rw [List.flatten_nil, List.append_nil, hread.text] at hlease
    exact Or.inl (hlease.le_count hread.pending)
  | cons piece rest ih =>
    rw [List.flatten_cons, ← List.append_assoc] at hascii hlease
    have hpiece := (Utf8.isAscii_append.mp hascii).1
    obtain ⟨next, hnext, hcalls⟩ := look_readUpTo hear now hread hpiece
    have hafter := hnext.not_within (hcut _ List.mem_cons_self)
    rcases ih hnext hascii hlease hafter fun bytes hbytes =>
      hcut bytes (List.mem_cons_of_mem _ hbytes) with hj | ⟨look, hlook, hcall⟩
    · by_cases hlater : whole.count '\n' < j
      · rw [Utf8.decodeLossy_append hpiece, hnext.text, List.append_assoc] at hlease
        have hmem := hlease.mem_ofChars hnext.ends
          (hbefore.imp_right fun h => h.resolve_right (Nat.not_le_of_lt hlater)) hlater hj
        have hcall : l.announcement ∈ (Lease.ofChars next now).map Lease.announcement :=
          List.mem_map_of_mem hmem
        rw [← hcalls, List.mem_map] at hcall
        exact Or.inr ⟨_, List.mem_cons_self, hcall⟩
      · exact Or.inl (Nat.le_of_not_lt hlater)
    · exact Or.inr ⟨look, List.mem_cons_of_mem _ hlook, hcall⟩

/-- Whatever pieces a lease file in ASCII grows in, the lease of each of its blocks is told by some
look, unless at some look the last brace that had been read stands within the block. -/
theorem only_a_brace_within_a_block_loses_it {hear : Listener σ} {known : σ} {pieces : List Bytes}
    (hascii : Utf8.IsAscii pieces.flatten)
    (hl : l ∈ Lease.ofText (lossy pieces.flatten) now) :
    (∃ i j, LeaseAt now (lines (lossy pieces.flatten).toList) i j l) ∧
    ∀ i j, LeaseAt now (lines (lossy pieces.flatten).toList) i j l →
      ToldIn (Poller.run hear now ⟨{}, known⟩ (LeaseSource.growing [] pieces)) l ∨
      ∃ bytes, .content bytes ∈ LeaseSource.growing [] pieces ∧
        LastBraceWithin i j (lossy bytes).toList := by
  refine ⟨mem_ofChars_iff.mp hl, ?_⟩
  intro i j hlease
  simp only [lossy, String.toList_ofList] at hlease ⊢
  by_cases hcut : ∃ bytes, .content bytes ∈ LeaseSource.growing [] pieces ∧
      LastBraceWithin i j (Utf8.decodeLossy bytes)
  · exact Or.inr hcut
  · rcases Poller.run_tells hear (p := ⟨{}, known⟩) LeaseTail.readUpTo_start hascii hlease
      (Or.inl rfl) (fun bytes hbytes hwithin => hcut ⟨bytes, hbytes, hwithin⟩) with hj | htold
    · obtain ⟨_, _, _, _, _, _, _, rfl, _⟩ := hlease
      rw [List.count_nil] at hj
      omega
    · exact Or.inl htold

/-- A listener that takes down whatever it hears. -/
def recording : Listener Unit := fun _ _ => ((), .ok .recorded)

/-- A lease file with a brace in a value, of which the first piece ends before that brace. -/
def uncutPieces : List Bytes :=
  [utf8 "lease 10.0.0.5 \x7b\nends never;\nhardware ethernet 0:1:2:3:4:5;\nuid \"a",
    utf8 "\x7db\";\n\x7d\n"]

theorem reading_a_brace_with_its_block :
    Utf8.IsAscii uncutPieces.flatten ∧
    ⟨⟨10, 0, 0, 5⟩, "00:01:02:03:04:05"⟩ ∈ Lease.ofText (lossy uncutPieces.flatten) ⟨0, 0⟩ ∧
    ToldIn (Poller.run recording ⟨0, 0⟩ ⟨{}, ()⟩ (LeaseSource.growing [] uncutPieces))
      ⟨⟨10, 0, 0, 5⟩, "00:01:02:03:04:05"⟩ := by
  have hascii : Utf8.IsAscii uncutPieces.flatten := by decide +kernel
  have hl : ⟨⟨10, 0, 0, 5⟩, "00:01:02:03:04:05"⟩ ∈
      Lease.ofText (lossy uncutPieces.flatten) ⟨0, 0⟩ := by decide +kernel
  obtain ⟨⟨i, j, hlease⟩, htold⟩ := only_a_brace_within_a_block_loses_it hascii hl
  refine ⟨hascii, hl, ?_⟩
  rcases htold i j hlease with htold | ⟨bytes, hbytes, hwithin⟩
  · exact htold
  · simp only [uncutPieces, LeaseSource.growing, List.mem_cons, LeaseSource.content.injEq,
      List.not_mem_nil, or_false] at hbytes
    rcases hbytes with rfl | rfl
    · -- There is no brace in the first piece.
      obtain ⟨before, after, htext, _⟩ := hwithin
      have hbrace : '}' ∈ before ++ '}' :: after := by simp
      rw [← htext] at hbrace
      exact absurd hbrace (by decide +kernel)
    · exact absurd hwithin (hlease.not_within)

/-! ## A block that is cut -/

/-- Whether a line is the header of a lease. -/
def opensBlock (line : List Char) : Bool := (LeaseLine.headerText? (trim line)).isSome

/-- Every line that begins with a brace is a brace and nothing else, and such a line comes after
each header before there is another header. -/
def ClosedByBraces (ls : List (List Char)) : Prop :=
  (∀ line ∈ ls, (trim line).head? = some '}' → line = ['}']) ∧
  ∀ block ∈ ls.tails, block.head?.any opensBlock = true →
    (block.tail.find? fun line => opensBlock line || line = ['}']) = some ['}']

instance : DecidablePred ClosedByBraces := fun _ => inferInstanceAs (Decidable (_ ∧ _))

/-- The same file, of which the first piece ends after the brace. -/
def cutPieces : List Bytes :=
  [utf8 "lease 10.0.0.5 \x7b\nends never;\nhardware ethernet 0:1:2:3:4:5;\nuid \"a\x7d",
    utf8 "b\";\n\x7d\n"]

/-- A file in ASCII that is closed by braces alone can be read in pieces such that no look tells of
a lease in it: the brace in the value counts as the end of the block. -/
theorem a_brace_in_a_value_can_lose_a_lease :
    ¬ ∀ (pieces : List Bytes) (now : Instant), Utf8.IsAscii pieces.flatten →
      ClosedByBraces (lines (lossy pieces.flatten).toList) →
      ∀ l ∈ Lease.ofText (lossy pieces.flatten) now,
        ToldIn (Poller.run recording now ⟨{}, ()⟩ (LeaseSource.growing [] pieces)) l := by
  intro h
  obtain ⟨look, hlook, call, hcall, _⟩ := h cutPieces ⟨0, 0⟩ (by decide +kernel)
    (by decide +kernel) ⟨⟨10, 0, 0, 5⟩, "00:01:02:03:04:05"⟩ (by decide +kernel)
  have hsilent : (Poller.run recording ⟨0, 0⟩ ⟨{}, ()⟩ (LeaseSource.growing [] cutPieces)).all
      (fun look => look.calls.isEmpty) = true := by decide +kernel
  have hnone := List.isEmpty_iff.mp (List.all_eq_true.mp hsilent look hlook)
  rw [hnone] at hcall
  cases hcall

end NetBoot
