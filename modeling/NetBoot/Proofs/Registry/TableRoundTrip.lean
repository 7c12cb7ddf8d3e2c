-- The table of machines is read back from the file that is written for it, unless a year in it does
-- not have four digits. What is read from a file makes a file again.
import NetBoot.Packet.Error
import NetBoot.Proofs.Registry.RowRoundTrip
import NetBoot.Proofs.Text.Utf8RoundTrip
import NetBoot.Registry.Table

namespace NetBoot

/-! ## Lines of bytes -/

theorem byteLines_ne_nil (bs : Bytes) : byteLines bs ≠ [] := by
  cases bs with
  | nil => simp [byteLines]
  | cons b rest =>
    rw [byteLines]
    split
    · simp
    · split <;> simp

/-- A line ends at the first line feed. -/
theorem byteLines_append {line : Bytes} (h : 0x0A ∉ line) (rest : Bytes) :
    byteLines (line ++ 0x0A :: rest) = line :: byteLines rest := by
  induction line with
  | nil => rw [List.nil_append, byteLines, if_pos rfl]
  | cons b line ih =>
    have hb : b ≠ 0x0A := fun he => h (he ▸ List.mem_cons_self)
    have hline : 0x0A ∉ line := fun hm => h (List.mem_cons_of_mem b hm)
    rw [List.cons_append, byteLines, if_neg hb, ih hline]

theorem lineFeed_not_mem_of_mem_byteLines {bs line : Bytes} (h : line ∈ byteLines bs) :
    0x0A ∉ line := by
  induction bs generalizing line with
  | nil =>
    rw [byteLines, List.mem_singleton] at h
    subst h
    exact List.not_mem_nil
  | cons b rest ih =>
    rw [byteLines] at h
    split at h
    · rcases List.mem_cons.mp h with rfl | h
      · exact List.not_mem_nil
      · exact ih h
    · next hb =>
      cases hlines : byteLines rest with
      | nil => exact absurd hlines (byteLines_ne_nil rest)
      | cons first lines =>
        rw [hlines] at h ih
        rcases List.mem_cons.mp h with rfl | h
        · have hfirst : 0x0A ∉ first := ih List.mem_cons_self
          simp [Ne.symm hb, hfirst]
        · exact ih (List.mem_cons_of_mem first h)

/-! ## Reading lines -/

section Lines

variable {α : Type} {read : List Char → Except RowFault α}

/-- A row comes from a line that is text, and from all of it but the blanks at its ends. -/
theorem readRowLine_eq_some {line : Bytes} {row : α} (h : readRowLine read line = .ok (some row)) :
    ∃ text, Utf8.decode? line = some text ∧ read (Text.trim text) = .ok row := by
  unfold readRowLine at h
  split at h
  · cases h
  · next text htext =>
    split at h
    · cases h
    · split at h
      · next hread =>
        cases h
        exact ⟨text, htext, hread⟩
      · cases h

theorem readRowLine_encode_iff {text : List Char} (htrim : Text.IsTrimmed text) (hne : text ≠ [])
    {found : Option α} :
    readRowLine read (Utf8.encode text) = .ok found ↔
      ∃ row, read text = .ok row ∧ found = some row := by
  unfold readRowLine
  rw [Utf8.decode?_encode]
  dsimp only
  rw [htrim.trim_eq]
  cases text with
  | nil => exact absurd rfl hne
  | cons c rest =>
    dsimp only
    cases read (c :: rest) <;> simp [eq_comm]

theorem readRowLines_cons_iff {line : Bytes} {rest : List Bytes} {rows : List α} :
    readRowLines read (line :: rest) = .ok rows ↔
      ∃ first others, readRowLine read line = .ok first ∧
        readRowLines read rest = .ok others ∧ rows = first.toList ++ others := by
  simp only [readRowLines, bind_eq_ok, pure, Except.pure, Except.ok.injEq, exists_and_left]
  simp only [eq_comm]

/-- Every row that is read is the row of a line. -/
theorem exists_line_of_mem {lines : List Bytes} {rows : List α}
    (h : readRowLines read lines = .ok rows) {row : α} (hrow : row ∈ rows) :
    ∃ line ∈ lines, readRowLine read line = .ok (some row) := by
  induction lines generalizing rows with
  | nil =>
    cases h
    cases hrow
  | cons line rest ih =>
    obtain ⟨first, others, hfirst, hothers, rfl⟩ := readRowLines_cons_iff.mp h
    rcases List.mem_append.mp hrow with hrow | hrow
    · rw [Option.mem_toList] at hrow
      subst hrow
      exact ⟨line, List.mem_cons_self, hfirst⟩
    · obtain ⟨found, hfound, hread⟩ := ih hothers hrow
      exact ⟨found, List.mem_cons_of_mem line hfound, hread⟩

theorem readRowLines_cons_eq_error {line : Bytes} {rest : List Bytes} {e : ServiceError} :
    readRowLines read (line :: rest) = .error e ↔
      readRowLine read line = .error e ∨
        (∃ first, readRowLine read line = .ok first) ∧ readRowLines read rest = .error e := by
  rw [readRowLines]
  cases readRowLine read line with
  | error f => simp [bind, Except.bind]
  | ok first => cases readRowLines read rest <;> simp [bind, Except.bind, pure, Except.pure]

/-- Reading stops at the first line with an error. -/
theorem readRowLines_eq_error {lines : List Bytes} {e : ServiceError} :
    readRowLines read lines = .error e ↔
      ∃ front line back, lines = front ++ line :: back ∧
        (∀ l ∈ front, ∀ f, readRowLine read l ≠ .error f) ∧ readRowLine read line = .error e := by
  induction lines with
  | nil => simp [readRowLines]
  | cons line lines ih =>
    rw [readRowLines_cons_eq_error, ih]
    constructor
    · rintro (hline | ⟨⟨found, hfound⟩, front, first, back, rfl, hfront, hfirst⟩)
      · exact ⟨[], line, lines, rfl, by simp, hline⟩
      · refine ⟨line :: front, first, back, rfl, ?_, hfirst⟩
        exact List.forall_mem_cons.mpr ⟨by simp [hfound], hfront⟩
    · rintro ⟨front, first, back, hlines, hfront, hfirst⟩
      rcases List.cons_eq_append_iff.mp hlines with ⟨rfl, hcons⟩ | ⟨others, rfl, rfl⟩
      · cases hcons
        exact Or.inl hfirst
      · obtain ⟨hline, hothers⟩ := List.forall_mem_cons.mp hfront
        refine Or.inr ⟨?_, others, first, back, rfl, hothers, hfirst⟩
        cases hread : readRowLine read line with
        | error f => exact absurd hread (hline f)
        | ok found => exact ⟨found, rfl⟩

/-- In a table that can be read no line has an error. -/
theorem readRowLine_ne_error {lines : List Bytes} {rows : List α}
    (h : readRowLines read lines = .ok rows) {line : Bytes} (hline : line ∈ lines)
    (e : ServiceError) : readRowLine read line ≠ .error e := by
  induction lines generalizing rows with
  | nil => cases hline
  | cons first lines ih =>
    obtain ⟨found, others, hfirst, hothers, _⟩ := readRowLines_cons_iff.mp h
    rcases List.mem_cons.mp hline with rfl | hline
    · simp [hfirst]
    · exact ih hothers hline

end Lines

/-! ## The table of machines -/

theorem writeNodeTable_cons (r : NodeRow) (rows : List NodeRow) :
    writeNodeTable (r :: rows) = Utf8.encode r.write ++ 0x0A :: writeNodeTable rows := by
  have hfeed : Utf8.encodeChar '\n' = [0x0A] := rfl
  simp only [writeNodeTable, Utf8.encode, List.flatMap_cons, List.flatMap_append,
    hfeed, List.append_assoc, List.nil_append, List.cons_append]

/-- The rows of a file are those that were written to it. A year that does not have four digits
makes the whole file unreadable. -/
theorem readNodeTable_writeNodeTable_iff {rows table : List NodeRow} (h : ∀ r ∈ rows, r.IsTabular) :
    readNodeTable (writeNodeTable rows) = .ok table ↔
      table = rows ∧ ∀ r ∈ rows, r.lastSeen.InFourDigitYear := by
  induction rows generalizing table with
  | nil =>
    show Except.ok [] = Except.ok table ↔ _
    simp [eq_comm]
  | cons r rows ih =>
    obtain ⟨hr, hrest⟩ := List.forall_mem_cons.mp h
    have hfeed : (0x0A : UInt8) ∉ Utf8.encode r.write :=
      Utf8.not_mem_encode (by decide) (NodeRow.lineFeed_not_mem_write hr)
    rw [readNodeTable, readTable, writeNodeTable_cons, byteLines_append hfeed,
      readRowLines_cons_iff]
    simp only [readRowLine_encode_iff (NodeRow.isTrimmed_write hr) (NodeRow.write_ne_nil r),
      NodeRow.read_write_iff hr]
    constructor
    · rintro ⟨_, others, ⟨_, ⟨rfl, hyear⟩, rfl⟩, hothers, rfl⟩
      obtain ⟨rfl, hyears⟩ := (ih hrest).mp hothers
      exact ⟨rfl, List.forall_mem_cons.mpr ⟨hyear, hyears⟩⟩
    · rintro ⟨rfl, hyears⟩
      obtain ⟨hyear, hyears⟩ := List.forall_mem_cons.mp hyears
      exact ⟨some r, rows, ⟨r, ⟨rfl, hyear⟩, rfl⟩, (ih hrest).mpr ⟨rfl, hyears⟩, rfl⟩

theorem readNodeTable_writeNodeTable {rows : List NodeRow} (h : ∀ r ∈ rows, r.IsStorable) :
    readNodeTable (writeNodeTable rows) = .ok rows :=
  (readNodeTable_writeNodeTable_iff fun r hr => (h r hr).toIsTabular).mpr
    ⟨rfl, fun r hr => (h r hr).year⟩

/-- The rows of a file make a file again. -/
theorem isTabular_of_readNodeTable {content : Bytes} {rows : List NodeRow}
    (h : readNodeTable content = .ok rows) {r : NodeRow} (hr : r ∈ rows) : r.IsTabular := by
  obtain ⟨line, hline, hread⟩ := exists_line_of_mem h hr
  obtain ⟨text, htext, hread⟩ := readRowLine_eq_some hread
  have hfeed : '\n' ∉ text :=
    Utf8.lineFeed_not_mem_of_decode? htext (lineFeed_not_mem_of_mem_byteLines hline)
  exact NodeRow.isTabular_of_read hread (Text.isTrimmed_trim text)
    fun hc => hfeed (Text.mem_of_mem_trim hc)

end NetBoot
