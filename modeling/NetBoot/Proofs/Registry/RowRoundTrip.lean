-- A row of the table of machines is read back from its line if its year has four digits. Every
-- row that was read from a line makes a line again, but its year may be one without four digits.
import NetBoot.Proofs.Net.AddressText
import NetBoot.Proofs.Time.TimestampRoundTrip
import NetBoot.Registry.Row

namespace NetBoot

open Text

/-! ## Hardware addresses as they are compared -/

theorem toList_registryMac (mac : String) : (registryMac mac).toList = lower (trim mac.toList) :=
  String.toList_ofList

theorem registryMac_registryMac (mac : String) :
    registryMac (registryMac mac) = registryMac mac := by
  have htrim : trim (lower (trim mac.toList)) = lower (trim mac.toList) :=
    (isTrimmed_trim mac.toList).lower.trim_eq
  rw [registryMac, toList_registryMac, htrim, lower_lower]
  rfl

/-- The form that is compared holds a comma or a blank only where the text does. -/
theorem mem_of_mem_registryMac {mac : String} {c : Char} (h : c ∈ (registryMac mac).toList)
    (hkind : isBlank c = true ∨ c = ',') : c ∈ mac.toList := by
  rw [toList_registryMac] at h
  exact mem_of_mem_trim (mem_of_mem_lower h hkind)

theorem registryMac_of_isMacText {mac : String} (h : IsMacText mac) : registryMac mac = mac := by
  have htrimmed : IsTrimmed mac.toList := by
    rintro c (hc | hc)
    · exact (h c (List.mem_of_head? hc)).not_blank
    · exact (h c (List.mem_of_getLast? hc)).not_blank
  unfold registryMac
  rw [htrimmed.trim_eq, lower_eq_self fun c hc => (h c hc).lowered, String.ofList_toList]

namespace NodeRow

/-! ## Rows that can be written -/

/-- A text that a line can hold between two commas. -/
structure IsField (s : List Char) : Prop where
  not_comma : ',' ∉ s
  not_lineFeed : '\n' ∉ s

/-- A row that makes a line of its own: its texts fit between commas in a line, the first one does
not start with a blank, its hardware address is in the form that is compared, and clocks show its
instant. -/
structure IsTabular (r : NodeRow) : Prop where
  id : IsField r.id.toList
  head : ∀ c, r.id.toList.head? = some c → isBlank c = false
  mac : IsField r.mac.toList
  macForm : registryMac r.mac = r.mac
  profile : IsField r.profile.toList
  onClock : r.lastSeen.OnClock

/-- A row that is the same after it was written and read. -/
structure IsStorable (r : NodeRow) : Prop extends r.IsTabular where
  year : r.lastSeen.InFourDigitYear

/-- A character that is neither a comma nor a blank. -/
structure IsPlain (c : Char) : Prop where
  not_comma : c ≠ ','
  not_blank : isBlank c = false

theorem isPlain_of_isDigit {c : Char} (h : c.isDigit = true) : IsPlain c := by
  have hdigits : ∀ n < 0x3A, 0x30 ≤ n → Char.ofNat n ≠ ',' ∧ isBlank (Char.ofNat n) = false := by
    decide
  obtain ⟨hlow, hhigh⟩ := (isDigit_iff c).mp h
  have hlow' : 0x30 ≤ c.toNat := hlow
  have hhigh' : c.toNat ≤ 0x39 := hhigh
  obtain ⟨hcomma, hblank⟩ := hdigits c.toNat (by omega) hlow'
  rw [Char.ofNat_toNat] at hcomma hblank
  exact ⟨hcomma, hblank⟩

theorem isPlain_of_isStampChar {c : Char} (h : Timestamp.IsStampChar c) : IsPlain c := by
  rcases h with h | h
  · exact isPlain_of_isDigit h
  · have hmarks : ("+-T:.".toList.all fun d => decide (d ≠ ',' ∧ isBlank d = false)) = true := by
      decide
    obtain ⟨hcomma, hblank⟩ := of_decide_eq_true (List.all_eq_true.mp hmarks c h)
    exact ⟨hcomma, hblank⟩

theorem isField_of_isPlain {s : List Char} (h : ∀ c ∈ s, IsPlain c) : IsField s := by
  refine ⟨fun hc => (h ',' hc).not_comma rfl, fun hc => ?_⟩
  have := (h '\n' hc).not_blank
  exact absurd this (by decide)

variable {r : NodeRow}

theorem isField_of_mem_fieldTexts (h : r.IsTabular) : ∀ s ∈ r.fieldTexts, IsField s := by
  have hflag : IsField (if r.discovered then "true" else "false").toList := by
    cases r.discovered
    · exact ⟨by decide, by decide⟩
    · exact ⟨by decide, by decide⟩
  have haddress : IsField ((r.address.map Ipv4.chars).getD []) := by
    cases r.address with
    | none => exact ⟨List.not_mem_nil, List.not_mem_nil⟩
    | some ip =>
      apply isField_of_isPlain
      intro c hc
      rcases Ipv4.mem_chars hc with hdigit | rfl
      · exact isPlain_of_isDigit hdigit
      · exact ⟨by decide, by decide⟩
  have hstamp : IsField (Timestamp.write r.lastSeen) :=
    isField_of_isPlain fun c hc =>
      isPlain_of_isStampChar (Timestamp.isStampChar_of_mem_write r.lastSeen c hc)
  simp only [fieldTexts, List.forall_mem_cons, List.not_mem_nil, false_implies, implies_true,
    and_true]
  exact ⟨h.id, h.mac, hflag, h.profile, haddress, hstamp⟩

/-! ## Writing and reading a row -/

theorem fields_write (h : r.IsTabular) : fields ',' r.write = r.fieldTexts :=
  fields_intercalate ',' (by simp [fieldTexts]) fun s hs =>
    (isField_of_mem_fieldTexts h s hs).not_comma

theorem lineFeed_not_mem_write (h : r.IsTabular) : '\n' ∉ r.write := by
  intro hmem
  rcases mem_of_mem_intercalate hmem with hmem | ⟨s, hs, hmem⟩
  · exact absurd hmem (by decide)
  · exact (isField_of_mem_fieldTexts h s hs).not_lineFeed hmem

/-- The line of a row is its identifier, a comma and more, and it ends in the text of its
instant. -/
theorem write_eq (r : NodeRow) :
    ∃ middle, r.write = r.id.toList ++ ',' :: (middle ++ ',' :: Timestamp.write r.lastSeen) := by
  refine ⟨r.mac.toList ++ ',' :: ((if r.discovered then "true" else "false").toList ++ ',' ::
    (r.profile.toList ++ ',' :: (r.address.map Ipv4.chars).getD [])), ?_⟩
  simp [write, fieldTexts, List.intercalate]

theorem isTrimmed_write (h : r.IsTabular) : IsTrimmed r.write := by
  obtain ⟨middle, heq⟩ := write_eq r
  rw [heq]
  rintro c (hc | hc)
  · cases hid : r.id.toList with
    | nil =>
      rw [hid] at hc
      cases hc
      decide
    | cons d rest =>
      rw [hid] at hc
      cases hc
      exact h.head c (by rw [hid]; rfl)
  · have hlast : ∀ front : List Char,
        (front ++ ',' :: Timestamp.write r.lastSeen).getLast? = some '0' := by
      intro front
      rw [List.getLast?_append, List.getLast?_cons, Timestamp.getLast?_write]
      rfl
    rw [← List.cons_append, ← List.append_assoc, hlast] at hc
    cases hc
    decide

theorem write_ne_nil (r : NodeRow) : r.write ≠ [] := by
  obtain ⟨middle, heq⟩ := write_eq r
  rw [heq]
  simp

theorem readFlag?_flag (b : Bool) : readFlag? (if b then "true" else "false").toList = some b := by
  cases b <;> decide

theorem readAddress?_address (a : Option Ipv4) :
    readAddress? ((a.map Ipv4.chars).getD []) = some a := by
  cases a with
  | none => rfl
  | some ip =>
    show readAddress? ip.chars = some (some ip)
    rw [readAddress?, if_neg ip.chars_ne_nil, Ipv4.ofChars?_chars, Option.map_some]

/-- How a line is read that has the texts of a row as its fields. -/
theorem read_write_eq (h : r.IsTabular) :
    read r.write =
      match Timestamp.read? (Timestamp.write r.lastSeen) with
      | none => .error (.timestamp (String.ofList (Timestamp.write r.lastSeen)))
      | some instant => .ok { r with lastSeen := instant } := by
  unfold read
  rw [fields_write h, fieldTexts]
  dsimp only
  rw [readFlag?_flag, readAddress?_address]
  cases Timestamp.read? (Timestamp.write r.lastSeen) with
  | none => rfl
  | some instant => simp only [String.ofList_toList, h.macForm]

/-- The line of a row is read back as the row, and only if its year has four digits. -/
theorem read_write_iff (h : r.IsTabular) {s : NodeRow} :
    read r.write = .ok s ↔ s = r ∧ r.lastSeen.InFourDigitYear := by
  rw [read_write_eq h]
  by_cases hyear : r.lastSeen.InFourDigitYear
  · rw [Timestamp.read?_write ⟨h.onClock, hyear⟩]
    simpa [hyear] using eq_comm
  · rw [Timestamp.read?_write_eq_none hyear]
    simp [hyear]

/-! ## Rows that were read -/

/-- What is read from a line without outer blanks makes a line again. -/
theorem isTabular_of_read {line : List Char} (hread : read line = .ok r) (htrim : IsTrimmed line)
    (hline : '\n' ∉ line) : r.IsTabular := by
  unfold read at hread
  split at hread
  case h_2 => cases hread
  case h_1 id mac flag profile address lastSeen hfields =>
    have hjoin := intercalate_fields ',' line
    rw [hfields] at hjoin
    have hfield : ∀ s ∈ [id, mac, flag, profile, address, lastSeen], IsField s := by
      intro s hs
      rw [← hfields] at hs
      exact ⟨sep_not_mem_of_mem_fields hs, fun hc => hline (mem_of_mem_fields hs hc)⟩
    simp only [List.forall_mem_cons] at hfield
    obtain ⟨hid, hmac, _, hprofile, _⟩ := hfield
    split at hread
    · cases hread
    split at hread
    · cases hread
    split at hread
    · cases hread
    next instant hinstant =>
    cases hread
    constructor
    case id => rwa [String.toList_ofList]
    case head =>
      intro c hc
      rw [String.toList_ofList] at hc
      apply htrim c
      left
      cases id with
      | nil => cases hc
      | cons d rest =>
        rw [← hjoin]
        simpa [List.intercalate] using hc
    case mac =>
      have hkind : isBlank '\n' = true ∨ '\n' = ',' := Or.inl (by decide)
      refine ⟨fun hc => hmac.not_comma ?_, fun hc => hmac.not_lineFeed ?_⟩
      · simpa using mem_of_mem_registryMac hc (Or.inr rfl)
      · simpa using mem_of_mem_registryMac hc hkind
    case macForm => exact registryMac_registryMac _
    case profile => rwa [String.toList_ofList]
    case onClock => exact Timestamp.onClock_of_read? hinstant

end NodeRow

end NetBoot
