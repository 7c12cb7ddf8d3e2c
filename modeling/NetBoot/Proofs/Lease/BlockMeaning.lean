-- Which leases a text holds, said by its lines: a header, a brace after it, and between them the
-- last end and the last hardware address. Reading line by line finds exactly these.
import Mathlib.Data.List.Induction
import NetBoot.Proofs.Lease.EndDates
import NetBoot.Proofs.Text.LastLine

namespace NetBoot

/-! ## One block -/

namespace LeaseLine

/-- A line that neither opens nor closes a block. -/
def IsInner (line : LeaseLine) : Prop := line ≠ .close ∧ ∀ address, line ≠ .header address

end LeaseLine

namespace LeaseBlock

variable {now : Instant} {b : LeaseBlock} {address : Option Ipv4} {body : List LeaseLine}

/-- The block is what a header with this address and the lines after it say. -/
structure IsRead (b : LeaseBlock) (address : Option Ipv4) (body : List LeaseLine) : Prop where
  inner : ∀ line ∈ body, line.IsInner
  address_eq : b.address = address
  ends_eq : ∀ e, e ≠ .noDate → (b.ends = e ↔ LastSays (fun line e => line = .ends e) body e)
  mac_eq : ∀ mac, b.mac = some mac ↔ LastSays (fun line mac => line = .hardware mac) body (some mac)

theorem isRead_header (address : Option Ipv4) : IsRead { address } address [] where
  inner := by simp
  address_eq := rfl
  ends_eq e he := by simp [not_lastSays_nil, Ne.symm he]
  mac_eq mac := by simp [not_lastSays_nil]

/-- One more line in the block keeps the block what its lines say. -/
theorem IsRead.step (h : b.IsRead address body) (now : Instant) {line : LeaseLine}
    (hline : line.IsInner) :
    ∃ b', (step now (some b) line).1 = some b' ∧ b'.IsRead address (body ++ [line]) := by
  have hinner : ∀ l ∈ body ++ [line], l.IsInner := by
    rw [List.forall_mem_append]
    exact ⟨h.inner, by simpa using hline⟩
  cases line with
  | header a => exact absurd rfl (hline.2 a)
  | close => exact absurd rfl hline.1
  | ends e =>
    refine ⟨{ b with ends := e }, rfl, hinner, h.address_eq, ?_, ?_⟩
    · intro e' _
      simp [lastSays_concat]
    · intro mac
      simp [lastSays_concat, h.mac_eq]
  | hardware mac =>
    refine ⟨{ b with mac }, rfl, hinner, h.address_eq, ?_, ?_⟩
    · intro e he
      simp [lastSays_concat, h.ends_eq e he]
    · intro mac'
      simp [lastSays_concat]
  | other =>
    refine ⟨b, rfl, hinner, h.address_eq, ?_, ?_⟩
    · intro e he
      simp [lastSays_concat, h.ends_eq e he]
    · intro mac
      simp [lastSays_concat, h.mac_eq]

/-- A block makes a lease exactly if its address is one, its last end lies ahead and its last
hardware address is one. -/
theorem IsRead.lease?_eq_some (h : b.IsRead address body) {l : Lease} :
    b.lease? now = some l ↔
      address = some l.address ∧
      (∃ e, LastSays (fun line e => line = .ends e) body e ∧ e.isOver now = false) ∧
      LastSays (fun line mac => line = .hardware mac) body (some l.mac) := by
  have hends : b.ends.isOver now = false ↔
      ∃ e, LastSays (fun line e => line = .ends e) body e ∧ e.isOver now = false := by
    have hdated : ∀ e : LeaseEnd, e.isOver now = false → e ≠ .noDate := by
      rintro e he rfl
      cases he
    refine ⟨?_, ?_⟩
    · intro hahead
      exact ⟨b.ends, (h.ends_eq _ (hdated _ hahead)).mp rfl, hahead⟩
    · rintro ⟨e, hlast, hahead⟩
      rwa [(h.ends_eq e (hdated e hahead)).mpr hlast]
  rw [← hends, ← h.mac_eq, ← h.address_eq, lease?]
  cases b.ends.isOver now with
  | true => simp
  | false =>
    cases b.address with
    | none => simp
    | some a =>
      cases b.mac with
      | none => simp
      | some mac =>
        obtain ⟨la, lm⟩ := l
        simp

end LeaseBlock

/-! ## The lines of a text -/

namespace Lease

variable {now : Instant} {open? : Option LeaseBlock} {lines : List LeaseLine}

theorem openAfter_concat (open? : Option LeaseBlock) (lines : List LeaseLine) (line : LeaseLine) :
    openAfter now open? (lines ++ [line]) =
      (LeaseBlock.step now (openAfter now open? lines) line).1 := by
  rw [openAfter, List.foldl_append]
  rfl

/-- Each header opens a block that says what the lines after it say. -/
theorem openAfter_block (before : List LeaseLine) (address : Option Ipv4)
    {body : List LeaseLine} (hinner : ∀ line ∈ body, line.IsInner) :
    ∃ b, openAfter now none (before ++ .header address :: body) = some b ∧
      b.IsRead address body := by
  induction body using List.reverseRecOn with
  | nil => exact ⟨{ address }, openAfter_concat none before _, LeaseBlock.isRead_header address⟩
  | append_singleton body line ih =>
    obtain ⟨hbody, hline⟩ := List.forall_mem_append.mp hinner
    obtain ⟨b, hopen, hread⟩ := ih hbody
    obtain ⟨b', hstep, hread'⟩ := hread.step now (hline line List.mem_cons_self)
    refine ⟨b', ?_, hread'⟩
    rw [← List.cons_append, ← List.append_assoc, openAfter_concat, hopen, hstep]

/-- A block that is open was opened by a header, and since then no line opened or closed one. -/
theorem exists_block {b : LeaseBlock} (h : openAfter now none lines = some b) :
    ∃ before address body, lines = before ++ .header address :: body ∧ b.IsRead address body := by
  induction lines using List.reverseRecOn generalizing b with
  | nil => cases h
  | append_singleton lines line ih =>
    rw [openAfter_concat] at h
    by_cases hheader : ∃ address, line = .header address
    · obtain ⟨address, rfl⟩ := hheader
      cases h
      exact ⟨lines, address, [], rfl, LeaseBlock.isRead_header address⟩
    · by_cases hclose : line = .close
      · subst hclose
        cases h
      · have hinner : line.IsInner := ⟨hclose, fun address he => hheader ⟨address, he⟩⟩
        cases hopen : openAfter now none lines with
        | none =>
          rw [hopen] at h
          cases line <;> simp_all [LeaseBlock.step]
        | some old =>
          obtain ⟨before, address, body, hlines, hread⟩ := ih hopen
          obtain ⟨b', hstep, hread'⟩ := hread.step now hinner
          rw [hopen, hstep, Option.some.injEq] at h
          refine ⟨before, address, body ++ [line], ?_, h ▸ hread'⟩
          rw [hlines, List.append_assoc]
          rfl

/-- The leases of lines, each with the number of the line that completes it. -/
def numbered (now : Instant) (open? : Option LeaseBlock) (n : Nat) :
    List LeaseLine → List (Nat × Lease)
  | [] => []
  | line :: rest =>
    (LeaseBlock.step now open? line).2.toList.map (n, ·) ++
      numbered now (LeaseBlock.step now open? line).1 (n + 1) rest

theorem map_snd_numbered (n : Nat) :
    (numbered now open? n lines).map Prod.snd = ofLines now open? lines := by
  induction lines generalizing open? n with
  | nil => rfl
  | cons line rest ih =>
    rw [numbered, List.map_append, ih, List.map_map, ofLines_cons]
    congr 1
    exact List.map_id _

/-- A line completes a lease exactly if it closes a block that makes one. -/
theorem mem_numbered {n j : Nat} {l : Lease} :
    (j, l) ∈ numbered now open? n lines ↔
      ∃ before after, lines = before ++ .close :: after ∧ j = n + before.length ∧
        (openAfter now open? before).bind (LeaseBlock.lease? now) = some l := by
  induction lines generalizing open? n with
  | nil => simp [numbered]
  | cons line rest ih =>
    rw [numbered, List.mem_append, ih, List.mem_map]
    refine ⟨?_, ?_⟩
    · rintro (⟨l', hl', hjl⟩ | ⟨before, after, rfl, rfl, hlease⟩)
      · cases hjl
        rw [Option.mem_toList, LeaseBlock.step_lease, Option.ite_none_right_eq_some] at hl'
        obtain ⟨rfl, hlease⟩ := hl'
        exact ⟨[], rest, rfl, rfl, hlease⟩
      · refine ⟨line :: before, after, rfl, ?_, hlease⟩
        rw [List.length_cons]
        omega
    · rintro ⟨before, after, hlines, rfl, hlease⟩
      cases before with
      | nil =>
        cases hlines
        refine Or.inl ⟨l, ?_, rfl⟩
        rwa [Option.mem_toList, LeaseBlock.step_lease, if_pos rfl]
      | cons first before =>
        obtain ⟨rfl, hrest⟩ := List.cons.inj hlines
        refine Or.inr ⟨before, after, hrest, ?_, hlease⟩
        rw [List.length_cons]
        omega

theorem pairwise_numbered (n : Nat) :
    ((numbered now open? n lines).map Prod.fst).Pairwise (· < ·) := by
  induction lines generalizing open? n with
  | nil => exact List.Pairwise.nil
  | cons line rest ih =>
    rw [numbered, List.map_append, List.pairwise_append]
    refine ⟨?_, ih (n + 1), ?_⟩
    · cases (LeaseBlock.step now open? line).2 with
      | none => exact List.Pairwise.nil
      | some l => exact List.pairwise_singleton _ _
    · intro i hi j hj
      obtain ⟨⟨_, l⟩, hl, rfl⟩ := List.mem_map.mp hj
      obtain ⟨before, after, _, rfl, _⟩ := mem_numbered.mp hl
      simp only [List.map_map, List.mem_map, Function.comp_apply] at hi
      obtain ⟨_, _, rfl⟩ := hi
      omega

end Lease

/-! ## Blocks of a text -/

open LeaseLine Text

/-- A header, lines that neither open nor close a block, and a brace: the address of the header, the
last end of the lines and their last hardware address make this lease. -/
structure MakesLease (now : Instant) (header : List Char) (body : List (List Char))
    (close : List Char) (l : Lease) : Prop where
  header : Names (trim header) l.address.chars
  inner : ∀ line ∈ body, (∀ text, ¬ IsHeader (trim line) text) ∧ (trim line).head? ≠ some '}'
  close : (trim close).head? = some '}'
  ends : ∃ named, LastSays (fun line => IsEnd (trim line)) body named ∧ named.IsAfter now
  hardware : ∃ text bs, LastSays (fun line => IsHardware (trim line)) body text ∧
    SpellsMac text bs ∧ l.mac = String.ofList (colonHex bs)

/-- The line `i` opens a block, the line `j` closes it, and the block makes this lease. -/
def LeaseAt (now : Instant) (lines : List (List Char)) (i j : Nat) (l : Lease) : Prop :=
  ∃ before header body close after, lines = before ++ header :: (body ++ close :: after) ∧
    i = before.length ∧ j = i + 1 + body.length ∧ MakesLease now header body close l

theorem isInner_ofChars {line : List Char} :
    (ofChars line).IsInner ↔
      (∀ text, ¬ IsHeader (trim line) text) ∧ (trim line).head? ≠ some '}' := by
  have hheader : (∀ address, ofChars line ≠ .header address) ↔
      ∀ text, ¬ IsHeader (trim line) text := by
    rw [← headerText?_eq_none, Option.eq_none_iff_forall_ne_some]
    simp only [ne_eq, ofChars_eq_header, headerText?_eq_some]
    refine ⟨?_, ?_⟩
    · intro h text htext
      exact h _ ⟨text, htext, rfl⟩
    · rintro h address ⟨text, htext, _⟩
      exact h text htext
  rw [IsInner, hheader, Ne, ofChars_eq_close, ← head?_trim, and_comm]

theorem lastSays_hardware {body : List (List Char)} {mac : String} :
    LastSays (fun line mac => line = .hardware mac) (body.map ofChars) (some mac) ↔
      ∃ text bs, LastSays (fun line => IsHardware (trim line)) body text ∧ SpellsMac text bs ∧
        mac = String.ofList (colonHex bs) := by
  simp only [lastSays_map, ofChars_eq_hardware, lastSays_image, eq_comm (a := some mac),
    Option.map_eq_some_iff, macText?_eq_some]
  refine ⟨?_, ?_⟩
  · rintro ⟨text, hlast, _, ⟨bs, hbs, rfl⟩, rfl⟩
    exact ⟨text, bs, hlast, hbs, rfl⟩
  · rintro ⟨text, bs, hlast, hbs, rfl⟩
    exact ⟨text, hlast, _, ⟨bs, hbs, rfl⟩, rfl⟩

theorem lastSays_ends {now : Instant} {body : List (List Char)} :
    (∃ e, LastSays (fun line e => line = .ends e) (body.map ofChars) e ∧ e.isOver now = false) ↔
      ∃ named, LastSays (fun line => IsEnd (trim line)) body named ∧ named.IsAfter now := by
  simp only [lastSays_map, ofChars_eq_ends, lastSays_image, ← NamedEnd.isOver_eq_false]
  refine ⟨?_, ?_⟩
  · rintro ⟨_, ⟨named, hlast, rfl⟩, hahead⟩
    exact ⟨named, hlast, hahead⟩
  · rintro ⟨named, hlast, hahead⟩
    exact ⟨_, ⟨named, hlast, rfl⟩, hahead⟩

/-- A block makes a lease by what its lines are read as. -/
theorem makesLease_iff {now : Instant} {header close : List Char} {body : List (List Char)}
    {l : Lease} :
    MakesLease now header body close l ↔
      ofChars header = .header (some l.address) ∧ (∀ line ∈ body.map ofChars, line.IsInner) ∧
      ofChars close = .close ∧
      (∃ e, LastSays (fun line e => line = .ends e) (body.map ofChars) e ∧ e.isOver now = false) ∧
      LastSays (fun line mac => line = .hardware mac) (body.map ofChars) (some l.mac) := by
  have hheader : ofChars header = .header (some l.address) ↔
      Names (trim header) l.address.chars := by
    simp only [ofChars_eq_header, eq_comm (a := some l.address), Ipv4.ofChars?_eq_some,
      exists_eq_right]
  have hclose : ofChars close = .close ↔ (trim close).head? = some '}' := by
    rw [ofChars_eq_close, head?_trim]
  rw [hheader, hclose, lastSays_ends, lastSays_hardware, List.forall_mem_map]
  simp only [isInner_ofChars]
  refine ⟨?_, ?_⟩
  · intro h
    exact ⟨h.header, h.inner, h.close, h.ends, h.hardware⟩
  · rintro ⟨hheader, hinner, hclose, hends, hhardware⟩
    exact ⟨hheader, hinner, hclose, hends, hhardware⟩

/-- What reading finds at a line is what the block that the line closes makes. -/
theorem mem_numbered_ofChars {now : Instant} {lines : List (List Char)} {j : Nat} {l : Lease} :
    (j, l) ∈ Lease.numbered now none 0 (lines.map ofChars) ↔ ∃ i, LeaseAt now lines i j l := by
  rw [Lease.mem_numbered]
  refine ⟨?_, ?_⟩
  · rintro ⟨pre, post, hlines, rfl, hlease⟩
    obtain ⟨b, hopen, hlease⟩ := Option.bind_eq_some_iff.mp hlease
    obtain ⟨before, address, inner, hpre, hread⟩ := Lease.exists_block hopen
    obtain ⟨haddress, hends, hmac⟩ := hread.lease?_eq_some.mp hlease
    rw [hpre, haddress, List.append_assoc, List.cons_append, List.map_eq_append_iff] at hlines
    obtain ⟨before', fromHeader, rfl, rfl, hlines⟩ := hlines
    obtain ⟨header, fromBody, rfl, hheader, hbody⟩ := List.map_eq_cons_iff.mp hlines
    obtain ⟨body, fromClose, rfl, rfl, hafter⟩ := List.map_eq_append_iff.mp hbody
    obtain ⟨close, after, rfl, hclose, _⟩ := List.map_eq_cons_iff.mp hafter
    refine ⟨before'.length, before', header, body, close, after, rfl, rfl, ?_, ?_⟩
    · rw [hpre, List.length_append, List.length_cons, List.length_map, List.length_map]
      omega
    · exact makesLease_iff.mpr ⟨hheader, hread.inner, hclose, hends, hmac⟩
  · rintro ⟨_, before, header, body, close, after, rfl, rfl, rfl, hmakes⟩
    obtain ⟨hheader, hinner, hclose, hends, hmac⟩ := makesLease_iff.mp hmakes
    obtain ⟨b, hopen, hread⟩ : ∃ b, Lease.openAfter now none _ = some b ∧ b.IsRead _ _ :=
      Lease.openAfter_block (before.map ofChars) (some l.address) hinner
    refine ⟨before.map ofChars ++ .header (some l.address) :: body.map ofChars,
      after.map ofChars, ?_, ?_, ?_⟩
    · simp [hheader, hclose]
    · simp
      omega
    · rw [hopen, Option.bind_some, hread.lease?_eq_some]
      exact ⟨rfl, hends, hmac⟩

theorem mem_ofChars_iff {now : Instant} {text : List Char} {l : Lease} :
    l ∈ Lease.ofChars text now ↔ ∃ i j, LeaseAt now (lines text) i j l := by
  rw [Lease.ofChars, ← Lease.map_snd_numbered 0, List.mem_map]
  refine ⟨?_, ?_⟩
  · rintro ⟨⟨j, l⟩, hmem, rfl⟩
    obtain ⟨i, hlease⟩ := mem_numbered_ofChars.mp hmem
    exact ⟨i, j, hlease⟩
  · rintro ⟨i, j, hlease⟩
    exact ⟨(j, l), mem_numbered_ofChars.mpr ⟨i, hlease⟩, rfl⟩

/-- The leases of a text, in the order of its lines, are those of the lines that close a block
which makes one. There is one for each such line, whatever stands outside of the blocks. -/
theorem leases_are_those_of_the_blocks (text : String) (now : Instant) :
    ∃ found : List (Nat × Lease),
      (found.map Prod.fst).Pairwise (· < ·) ∧
      (∀ j l, (j, l) ∈ found ↔ ∃ i, LeaseAt now (lines text.toList) i j l) ∧
      Lease.ofText text now = found.map Prod.snd :=
  ⟨Lease.numbered now none 0 ((lines text.toList).map ofChars), Lease.pairwise_numbered 0,
    fun _ _ => mem_numbered_ofChars, (Lease.map_snd_numbered 0).symm⟩

/-- The lines of a lease until the leap second of a leap day, of one until the second before it, and
of one until a day that its year does not have. -/
def leapDayFile : List String :=
  ["lease 10.0.0.1 \x7b", "  ends 4 2024/02/29 23:59:60;",
    "  hardware ethernet 0:1:2:3:4:5;", "\x7d",
    "lease 10.0.0.2 \x7b", "  ends 4 2024/2/29 23:59:59;",
    "  hardware ethernet 0:1:2:3:4:5;", "\x7d",
    "lease 10.0.0.3 \x7b", "  ends 1 2100/02/29 0:00:00;",
    "  hardware ethernet 0:1:2:3:4:5;", "\x7d"]

def leapDayText : String := "\n".intercalate leapDayFile

def leapDayLease : Lease := ⟨⟨10, 0, 0, 1⟩, "00:01:02:03:04:05"⟩

/-- What these lines are read as, the same at any time. -/
def leapDayLines : List LeaseLine :=
  [.header (some ⟨10, 0, 0, 1⟩), .ends (.at ⟨1709251199, 1000000000⟩),
    .hardware (some "00:01:02:03:04:05"), .close,
    .header (some ⟨10, 0, 0, 2⟩), .ends (.at ⟨1709251199, 0⟩),
    .hardware (some "00:01:02:03:04:05"), .close,
    .header (some ⟨10, 0, 0, 3⟩), .ends .noDate,
    .hardware (some "00:01:02:03:04:05"), .close]

/-- Up to the end of the second before the leap second only the first of them is there, and in the
leap second none is. -/
theorem lease_until_the_leap_second :
    Lease.ofText leapDayText ⟨1709251199, 999999999⟩ = [leapDayLease] ∧
      (∃ i j, LeaseAt ⟨1709251199, 999999999⟩ (lines leapDayText.toList) i j leapDayLease) ∧
      (∀ i j l, LeaseAt ⟨1709251199, 999999999⟩ (lines leapDayText.toList) i j l →
        l = leapDayLease) ∧
      ∀ i j l, ¬ LeaseAt ⟨1709251199, 1000000000⟩ (lines leapDayText.toList) i j l := by
  have hcut : lines leapDayText.toList = leapDayFile.map String.toList := by
    rw [leapDayText, String.toList_intercalate]
    exact fields_intercalate '\n' (by decide) (by decide +kernel)
  have hlines : (lines leapDayText.toList).map ofChars = leapDayLines := by
    rw [hcut]
    decide +kernel
  have hbefore : Lease.ofText leapDayText ⟨1709251199, 999999999⟩ = [leapDayLease] := by
    rw [Lease.ofText, Lease.ofChars, hlines]
    decide
  have hwithin : Lease.ofText leapDayText ⟨1709251199, 1000000000⟩ = [] := by
    rw [Lease.ofText, Lease.ofChars, hlines]
    decide
  obtain ⟨found, _, hfound, htext⟩ :=
    leases_are_those_of_the_blocks leapDayText ⟨1709251199, 999999999⟩
  obtain ⟨found', _, hfound', htext'⟩ :=
    leases_are_those_of_the_blocks leapDayText ⟨1709251199, 1000000000⟩
  rw [hbefore] at htext
  rw [hwithin, eq_comm, List.map_eq_nil_iff] at htext'
  refine ⟨hbefore, ?_, ?_, ?_⟩
  · obtain ⟨⟨j, l⟩, hmem, hl⟩ := List.mem_map.mp (htext ▸ List.mem_cons_self)
    obtain ⟨i, hlease⟩ := (hfound j l).mp hmem
    exact ⟨i, j, hl ▸ hlease⟩
  · intro i j l hlease
    have hmem : l ∈ found.map Prod.snd := List.mem_map_of_mem ((hfound j l).mpr ⟨i, hlease⟩)
    rwa [← htext, List.mem_singleton] at hmem
  · intro i j l hlease
    have hmem := (hfound' j l).mpr ⟨i, hlease⟩
    rw [htext'] at hmem
    cases hmem

/-- The header in the block drops the first address, and the last hardware line is not one. -/
example :
    let text := "lease 10.0.0.1 \x7b\nends never;\nlease 10.0.0.2 \x7b\nends never;\n" ++
      "hardware ethernet 0:1:2:3:4:A;\n\x7d\nlease 10.0.0.3 \x7b\nends never;\n" ++
      "hardware ethernet 0:1:2:3:4:b;\nhardware ethernet 0:1;\n\x7d\n"
    Lease.ofText text ⟨0, 0⟩ = [⟨⟨10, 0, 0, 2⟩, "00:01:02:03:04:0a"⟩] := by
  decide +kernel

end NetBoot
