-- The boot rules as a table of nine rows over the user class, the vendor class, the hardware address
-- in lower case and the architecture of a client. The first row that fits decides, and no client is
-- taken for EFI firmware by the table and for something else by the reply.
import Mathlib.Data.List.Infix
import NetBoot.Proofs.Boot.Reply
import NetBoot.Proofs.Text.Scanning

namespace NetBoot

/-! ## The table -/

/-- What the table looks at. -/
structure BootTraits where
  userClass : Option String
  vendorClass : Option String
  /-- The hardware address in lower case. -/
  mac : List Char
  /-- The code of the architecture. -/
  arch : Option UInt16

def Message.traits (m : Message) : BootTraits where
  userClass := m.options.get .userClass
  vendorClass := m.options.get .vendorClass
  mac := Text.lower m.chaddr.text.toList
  arch := m.options.get .clientArch

/-- The rows of the table. -/
inductive BootRow where
  | ownLoader
  | arista
  | mellanox
  | nuc
  | efi64
  | efi32
  | undi
  | anyVendor
  | noVendor
deriving DecidableEq

namespace BootRow

/-- The rows in their order. -/
def table : List BootRow :=
  [ownLoader, arista, mellanox, nuc, efi64, efi32, undi, anyVendor, noVendor]

/-- The rows above this one. -/
def above (row : BootRow) : List BootRow := table.takeWhile (· ≠ row)

/-- Whether a row fits a client. The last one fits every client. -/
def Fits (r : BootRules) (t : BootTraits) : BootRow → Prop
  | ownLoader => t.userClass = some r.userClass
  | arista => ∃ v ∈ t.vendorClass, "Arista".toList <+: v.toList
  | mellanox => "00:02:c9".toList <+: t.mac
  | nuc => "ec:a8:6b".toList <+: t.mac
  | efi64 => t.vendorClass ≠ none ∧ (t.arch = some 7 ∨ t.arch = some 9)
  | efi32 => t.vendorClass ≠ none ∧ t.arch = some 6
  | undi => t.arch = some 0 ∧ ∃ v ∈ t.vendorClass, "UNDI".toList <:+: v.toList
  | anyVendor => t.vendorClass ≠ none
  | noVendor => True

instance decidableFits (r : BootRules) (t : BootTraits) : (row : BootRow) → Decidable (row.Fits r t)
  | ownLoader => inferInstanceAs (Decidable (t.userClass = some r.userClass))
  | arista => inferInstanceAs (Decidable (∃ v ∈ t.vendorClass, "Arista".toList <+: v.toList))
  | mellanox => inferInstanceAs (Decidable ("00:02:c9".toList <+: t.mac))
  | nuc => inferInstanceAs (Decidable ("ec:a8:6b".toList <+: t.mac))
  | efi64 => inferInstanceAs (Decidable (t.vendorClass ≠ none ∧ (t.arch = some 7 ∨ t.arch = some 9)))
  | efi32 => inferInstanceAs (Decidable (t.vendorClass ≠ none ∧ t.arch = some 6))
  | undi =>
    inferInstanceAs
      (Decidable (t.arch = some 0 ∧ ∃ v ∈ t.vendorClass, "UNDI".toList <:+: v.toList))
  | anyVendor => inferInstanceAs (Decidable (t.vendorClass ≠ none))
  | noVendor => inferInstanceAs (Decidable True)

/-- The address at which the boot profiles are served. -/
def profiles (r : BootRules) : String :=
  "http://" ++ r.apiHost ++ ":" ++ toString r.apiPort.toNat ++ "/api/current/profiles"

/-- The boot file of a row. -/
def file (r : BootRules) (t : BootTraits) : BootRow → Option String
  | ownLoader => some (profiles r)
  | arista => some (profiles r ++ "?macs=" ++ String.ofList t.mac)
  | mellanox => some (profiles r)
  | nuc => some "monorail.intel.ipxe"
  | efi64 => some "monorail-efi64-snponly.efi"
  | efi32 => some "monorail-efi32-snponly.efi"
  | undi => some "monorail-undionly.kpxe"
  | anyVendor => some "monorail.ipxe"
  | noVendor => none

/-- The first row that fits. -/
def first (r : BootRules) (t : BootTraits) : BootRow :=
  (table.find? fun row => row.Fits r t).getD noVendor

variable {r : BootRules} {t : BootTraits}

theorem table_split (row : BootRow) :
    ∃ below, table = row.above ++ row :: below ∧ row ∉ row.above ∧ row ∉ below := by
  cases row <;> exact ⟨_, rfl, by decide, by decide⟩

theorem find?_eq_some_first :
    (table.find? fun row => row.Fits r t) = some (first r t) := by
  unfold first
  cases h : table.find? fun row => row.Fits r t with
  | some row => rfl
  | none =>
    have hlast := List.find?_eq_none.mp h noVendor (by decide)
    exact absurd (decide_eq_true (p := noVendor.Fits r t) trivial) hlast

/-- The first row that fits is the one that fits with no row above it that does. -/
theorem first_eq_iff {row : BootRow} :
    first r t = row ↔ row.Fits r t ∧ ∀ other ∈ row.above, ¬ other.Fits r t := by
  have hsome : first r t = row ↔ (table.find? fun row => row.Fits r t) = some row := by
    rw [find?_eq_some_first, Option.some.injEq]
  rw [hsome, List.find?_eq_some_iff_append]
  simp only [decide_eq_true_eq, Bool.not_eq_true', decide_eq_false_iff_not]
  refine and_congr_right fun _ => ?_
  obtain ⟨below, htable, habove, hbelow⟩ := row.table_split
  refine ⟨?_, ?_⟩
  · rintro ⟨front, back, hcut, hfront⟩
    obtain ⟨rfl, _⟩ := (List.append_cons_inj_of_notMem habove hbelow).mp (htable.symm.trans hcut)
    exact hfront
  · intro hnone
    exact ⟨row.above, below, htable, hnone⟩

end BootRow

/-! ## The rules are the table -/

theorem ClientArch.code_ofCode (n : UInt16) : (ofCode n).code = n := by
  have hnamed : ∀ i : Fin named.length, named[i].code = UInt16.ofNat i.val := by decide
  unfold ofCode
  by_cases h : n.toNat < named.length
  · rw [List.getElem?_eq_getElem h, Option.getD_some, ← Fin.getElem_fin named ⟨n.toNat, h⟩, hnamed,
      UInt16.ofNat_toNat]
  · rw [List.getElem?_eq_none (Nat.le_of_not_lt h), Option.getD_none]
    rfl

/-- An architecture with a name has one code. -/
theorem ClientArch.ofCode_eq_iff {n : UInt16} {a : ClientArch} (ha : a ∈ named) :
    ofCode n = a ↔ n = a.code := by
  have hnamed : ∀ b ∈ named, ofCode b.code = b := by decide
  refine ⟨?_, ?_⟩
  · rintro rfl
    exact (code_ofCode n).symm
  · rintro rfl
    exact hnamed a ha

/-- The boot loader for the architecture with a code. -/
theorem BootRules.loader_ofCode (v : String) (n : UInt16) :
    loader v (some (.ofCode n)) =
      if n = 7 ∨ n = 9 then efi64File
      else if n = 6 then efi32File
      else if n = 0 ∧ "UNDI".toList <:+: v.toList then undiFile
      else ipxeFile := by
  have hcases : ∀ a : ClientArch, loader v (some a) =
      if a = .efiByteCode ∨ a = .efiX64 then efi64File
      else if a = .efiIa32 then efi32File
      else if a = .x86Bios ∧ Text.contains "UNDI".toList v.toList = true then undiFile
      else ipxeFile := by
    intro a
    cases a <;> simp [loader]
  have hcode : ∀ a ∈ ClientArch.named, (ClientArch.ofCode n = a ↔ n = a.code) :=
    fun a ha => ClientArch.ofCode_eq_iff ha
  simp only [hcases, hcode .efiByteCode (by decide), hcode .efiX64 (by decide),
    hcode .efiIa32 (by decide), hcode .x86Bios (by decide), ClientArch.code, Text.contains_iff]

namespace BootRow

variable {r : BootRules} {m : Message}

theorem fits_arista_iff :
    arista.Fits r m.traits ↔
      (m.vendorClass.map fun v => Text.startsWith "Arista".toList v.toList) = some true := by
  simp only [Option.map_eq_some_iff, Text.startsWith_iff]
  exact Iff.rfl

theorem fits_mellanox_iff :
    mellanox.Fits r m.traits ↔
      Text.startsWith BootRules.mellanoxLead.toList (Text.lower m.chaddr.text.toList) = true :=
  Text.startsWith_iff.symm

theorem fits_nuc_iff :
    nuc.Fits r m.traits ↔
      Text.startsWith BootRules.nucLead.toList (Text.lower m.chaddr.text.toList) = true :=
  Text.startsWith_iff.symm

/-- The rules take the first four rows in their order, and then look at the architecture. -/
theorem bootFile?_eq (r : BootRules) (m : Message) :
    r.bootFile? m =
      if ownLoader.Fits r m.traits then ownLoader.file r m.traits
      else if arista.Fits r m.traits then arista.file r m.traits
      else if mellanox.Fits r m.traits then mellanox.file r m.traits
      else if nuc.Fits r m.traits then nuc.file r m.traits
      else m.vendorClass.map fun v => BootRules.loader v m.arch := by
  simp only [fits_arista_iff, fits_mellanox_iff, fits_nuc_iff]
  rfl

/-- A client that none of the first four rows fits gets the boot loader for its architecture. -/
theorem bootFile?_of_not_fits (h : ∀ row ∈ nuc :: nuc.above, ¬ row.Fits r m.traits) :
    r.bootFile? m = m.vendorClass.map fun v => BootRules.loader v m.arch := by
  rw [bootFile?_eq, if_neg (h ownLoader (by decide)), if_neg (h arista (by decide)),
    if_neg (h mellanox (by decide)), if_neg (h nuc (by decide))]

theorem loader_eq (v : String) (m : Message) :
    BootRules.loader v m.arch =
      if m.traits.arch = some 7 ∨ m.traits.arch = some 9 then BootRules.efi64File
      else if m.traits.arch = some 6 then BootRules.efi32File
      else if m.traits.arch = some 0 ∧ "UNDI".toList <:+: v.toList then BootRules.undiFile
      else BootRules.ipxeFile := by
  have harch : m.arch = m.traits.arch.map ClientArch.ofCode := rfl
  rw [harch]
  cases m.traits.arch with
  | none => simp [BootRules.loader]
  | some n => simp only [Option.map_some, BootRules.loader_ofCode, Option.some.injEq]

/-- The boot file of a client is that of the first row that fits. -/
theorem bootFile?_eq_file_first (r : BootRules) (m : Message) :
    r.bootFile? m = (first r m.traits).file r m.traits := by
  have hfirst := first_eq_iff.mp (rfl : first r m.traits = _)
  generalize first r m.traits = row at hfirst
  obtain ⟨hfits, hnot⟩ := hfirst
  have hlate : (∀ other ∈ nuc :: nuc.above, other ∈ row.above) →
      r.bootFile? m = m.vendorClass.map fun v => BootRules.loader v m.arch :=
    fun h => bootFile?_of_not_fits fun other hother => hnot other (h other hother)
  have hvendor : ∀ v, m.traits.vendorClass = some v →
      (m.vendorClass.map fun v => BootRules.loader v m.arch) = some (BootRules.loader v m.arch) :=
    fun v hv => congrArg (Option.map _) hv
  cases row with
  | ownLoader => rw [bootFile?_eq, if_pos hfits]
  | arista => rw [bootFile?_eq, if_neg (hnot ownLoader (by decide)), if_pos hfits]
  | mellanox =>
    rw [bootFile?_eq, if_neg (hnot ownLoader (by decide)), if_neg (hnot arista (by decide)),
      if_pos hfits]
  | nuc =>
    rw [bootFile?_eq, if_neg (hnot ownLoader (by decide)), if_neg (hnot arista (by decide)),
      if_neg (hnot mellanox (by decide)), if_pos hfits]
  | efi64 =>
    obtain ⟨hsome, harch⟩ := hfits
    obtain ⟨v, hv⟩ := Option.ne_none_iff_exists'.mp hsome
    rw [hlate (by decide), hvendor v hv, loader_eq, if_pos harch]
    rfl
  | efi32 =>
    obtain ⟨hsome, harch⟩ := hfits
    obtain ⟨v, hv⟩ := Option.ne_none_iff_exists'.mp hsome
    have h64 : ¬ _ := fun h => hnot efi64 (by decide) ⟨hsome, h⟩
    rw [hlate (by decide), hvendor v hv, loader_eq, if_neg h64, if_pos harch]
    rfl
  | undi =>
    obtain ⟨harch, v, hv, hundi⟩ := hfits
    have hsome : m.traits.vendorClass ≠ none := Option.ne_none_iff_exists'.mpr ⟨v, hv⟩
    have h64 : ¬ _ := fun h => hnot efi64 (by decide) ⟨hsome, h⟩
    have h32 : ¬ _ := fun h => hnot efi32 (by decide) ⟨hsome, h⟩
    rw [hlate (by decide), hvendor v hv, loader_eq, if_neg h64, if_neg h32, if_pos ⟨harch, hundi⟩]
    rfl
  | anyVendor =>
    obtain ⟨v, hv⟩ := Option.ne_none_iff_exists'.mp hfits
    have h64 : ¬ _ := fun h => hnot efi64 (by decide) ⟨hfits, h⟩
    have h32 : ¬ _ := fun h => hnot efi32 (by decide) ⟨hfits, h⟩
    have hundi : ¬ (m.traits.arch = some 0 ∧ "UNDI".toList <:+: v.toList) :=
      fun h => hnot undi (by decide) ⟨h.1, v, hv, h.2⟩
    rw [hlate (by decide), hvendor v hv, loader_eq, if_neg h64, if_neg h32, if_neg hundi]
    rfl
  | noVendor =>
    have hnone : m.traits.vendorClass = none := not_not.mp (hnot anyVendor (by decide))
    rw [hlate (by decide)]
    exact congrArg (Option.map _) hnone

/-! ## Which row a boot file is from -/

variable {t : BootTraits}

theorem head?_profiles (r : BootRules) (rest : String) :
    (profiles r ++ rest).toList.head? = some 'h' := by
  simp [profiles, String.toList_append]

/-- The boot loaders have names of their own. -/
theorem eq_of_file_eq {row other : BootRow} (hother : other ∈ [efi64, efi32, undi, anyVendor])
    (h : row.file r t = other.file r t) : row = other := by
  have hlead : ((other.file r t).bind fun name => name.toList.head?) = some 'm' := by
    simp only [List.mem_cons, List.not_mem_nil, or_false] at hother
    rcases hother with rfl | rfl | rfl | rfl <;> rfl
  have hurl : ∀ rest, row.file r t ≠ some (profiles r ++ rest) := by
    intro rest hrow
    rw [← h, hrow, Option.bind_some, head?_profiles] at hlead
    cases hlead
  simp only [List.mem_cons, List.not_mem_nil, or_false] at hother
  cases row with
  | ownLoader => exact absurd (congrArg some (String.append_empty).symm) (hurl "")
  | mellanox => exact absurd (congrArg some (String.append_empty).symm) (hurl "")
  | arista => exact absurd (congrArg some String.append_assoc) (hurl _)
  | _ => rcases hother with rfl | rfl | rfl | rfl <;> simp [file] at h ⊢

theorem bootFile?_eq_file_iff (row : BootRow) (hrow : row ∈ [efi64, efi32, undi, anyVendor]) :
    r.bootFile? m = row.file r m.traits ↔ first r m.traits = row := by
  rw [bootFile?_eq_file_first]
  exact ⟨eq_of_file_eq hrow, fun h => by rw [h]⟩

theorem file_eq_none_iff {row : BootRow} : row.file r t = none ↔ row = noVendor := by
  cases row <;> simp [file]

end BootRow

/-! ## The table and the reply -/

theorem Message.isEfiClient_iff_traits {m : Message} :
    m.isEfiClient = true ↔ m.traits.userClass = none ∧
      (m.traits.arch = some 6 ∨ m.traits.arch = some 7 ∨ m.traits.arch = some 9) := by
  rw [isEfiClient_iff]
  refine and_congr_right fun _ => ?_
  show (∃ n : UInt16, m.traits.arch = some n ∧ _) ↔ _
  cases m.traits.arch <;> simp

namespace BootRow

variable {r : BootRules} {m : Message}

/-- EFI firmware with a vendor class fits one of the rows for it. -/
theorem fits_of_isEfiClient (h : m.isEfiClient = true) (hvendor : m.traits.vendorClass ≠ none) :
    efi64.Fits r m.traits ∨ efi32.Fits r m.traits := by
  obtain ⟨_, harch | harch | harch⟩ := Message.isEfiClient_iff_traits.mp h
  · exact Or.inr ⟨hvendor, harch⟩
  · exact Or.inl ⟨hvendor, Or.inl harch⟩
  · exact Or.inl ⟨hvendor, Or.inr harch⟩

/-- A row that fits a client by its architecture alone comes after those for EFI firmware. -/
theorem first_of_isEfiClient (h : m.isEfiClient = true) :
    first r m.traits ≠ undi ∧ first r m.traits ≠ anyVendor := by
  refine ⟨?_, ?_⟩
  · intro hrow
    obtain ⟨⟨harch, _⟩, _⟩ := first_eq_iff.mp hrow
    have hefi := (Message.isEfiClient_iff_traits.mp h).2
    rw [harch] at hefi
    exact absurd hefi (by decide)
  · intro hrow
    obtain ⟨hvendor, hnot⟩ := first_eq_iff.mp hrow
    rcases fits_of_isEfiClient h hvendor with hfits | hfits
    · exact hnot efi64 (by decide) hfits
    · exact hnot efi32 (by decide) hfits

/-- Nobody hands out a file to a client of another loader, with no special address and no vendor
class. -/
theorem bootFile?_eq_none_iff :
    r.bootFile? m = none ↔
      ¬ ownLoader.Fits r m.traits ∧ ¬ mellanox.Fits r m.traits ∧ ¬ nuc.Fits r m.traits ∧
        m.traits.vendorClass = none := by
  rw [bootFile?_eq_file_first, file_eq_none_iff, first_eq_iff]
  refine ⟨?_, ?_⟩
  · rintro ⟨_, hnot⟩
    exact ⟨hnot ownLoader (by decide), hnot mellanox (by decide), hnot nuc (by decide),
      not_not.mp (hnot anyVendor (by decide))⟩
  · rintro ⟨hown, hmellanox, hnuc, hvendor⟩
    have hnone : ∀ v, v ∉ m.traits.vendorClass := by simp [hvendor]
    refine ⟨trivial, fun other habove => ?_⟩
    cases other with
    | ownLoader => exact hown
    | arista => exact fun ⟨v, hv, _⟩ => hnone v hv
    | mellanox => exact hmellanox
    | nuc => exact hnuc
    | efi64 => exact fun h => h.1 hvendor
    | efi32 => exact fun h => h.1 hvendor
    | undi => exact fun ⟨_, v, hv, _⟩ => hnone v hv
    | anyVendor => exact fun h => h hvendor
    | noVendor => exact absurd habove (by decide)

end BootRow

/-- The boot file of a client is that of the first row of the table that fits it, and there is none
exactly where no row but the last fits. A loader for EFI firmware goes to machines of its
architecture only, so that a reply with it takes the way to firmware unless a boot loader asks.
The other way round firmware with a vendor class gets such a loader if none of the first four rows
fits, and never one of the other loaders. -/
theorem boot_file_is_that_of_the_first_row (r : BootRules) (m : Message) :
    r.bootFile? m = (BootRow.first r m.traits).file r m.traits ∧
    (r.bootFile? m = none ↔
      m.userClass ≠ some r.userClass ∧
      ¬ "00:02:c9".toList <+: Text.lower m.chaddr.text.toList ∧
      ¬ "ec:a8:6b".toList <+: Text.lower m.chaddr.text.toList ∧ m.vendorClass = none) ∧
    (r.bootFile? m = some "monorail-efi64-snponly.efi" →
      (m.traits.arch = some 7 ∨ m.traits.arch = some 9) ∧
      (m.isEfiClient = true ↔ m.userClass = none)) ∧
    (r.bootFile? m = some "monorail-efi32-snponly.efi" →
      m.traits.arch = some 6 ∧ (m.isEfiClient = true ↔ m.userClass = none)) ∧
    (m.isEfiClient = true →
      r.bootFile? m ≠ some "monorail-undionly.kpxe" ∧ r.bootFile? m ≠ some "monorail.ipxe" ∧
      (m.vendorClass ≠ none → (∀ row ∈ [BootRow.ownLoader, .arista, .mellanox, .nuc],
          ¬ row.Fits r m.traits) →
        r.bootFile? m = some "monorail-efi64-snponly.efi" ∨
          r.bootFile? m = some "monorail-efi32-snponly.efi")) := by
  have h64 : r.bootFile? m = some "monorail-efi64-snponly.efi" ↔ _ :=
    BootRow.bootFile?_eq_file_iff .efi64 (by decide)
  have h32 : r.bootFile? m = some "monorail-efi32-snponly.efi" ↔ _ :=
    BootRow.bootFile?_eq_file_iff .efi32 (by decide)
  have hundi : r.bootFile? m = some "monorail-undionly.kpxe" ↔ _ :=
    BootRow.bootFile?_eq_file_iff .undi (by decide)
  have hipxe : r.bootFile? m = some "monorail.ipxe" ↔ _ :=
    BootRow.bootFile?_eq_file_iff .anyVendor (by decide)
  refine ⟨BootRow.bootFile?_eq_file_first r m, BootRow.bootFile?_eq_none_iff, ?_, ?_, ?_⟩
  · intro hfile
    obtain ⟨⟨_, harch⟩, _⟩ := BootRow.first_eq_iff.mp (h64.mp hfile)
    exact ⟨harch, Message.isEfiClient_iff_traits.trans (and_iff_left (Or.inr harch))⟩
  · intro hfile
    obtain ⟨⟨_, harch⟩, _⟩ := BootRow.first_eq_iff.mp (h32.mp hfile)
    exact ⟨harch, Message.isEfiClient_iff_traits.trans (and_iff_left (Or.inl harch))⟩
  · intro hefi
    obtain ⟨hnotUndi, hnotAny⟩ := BootRow.first_of_isEfiClient hefi (r := r)
    refine ⟨mt hundi.mp hnotUndi, mt hipxe.mp hnotAny, fun hvendor hspecial => ?_⟩
    by_cases hfits : BootRow.efi64.Fits r m.traits
    · exact Or.inl (h64.mpr (BootRow.first_eq_iff.mpr ⟨hfits, hspecial⟩))
    · -- The rows above the second one for firmware are the first four and the other one.
      have habove : ∀ row ∈ BootRow.efi32.above, ¬ row.Fits r m.traits :=
        List.forall_mem_append.mpr ⟨hspecial, List.forall_mem_singleton.mpr hfits⟩
      have hfits32 := (BootRow.fits_of_isEfiClient hefi hvendor).resolve_left hfits
      exact Or.inr (h32.mpr (BootRow.first_eq_iff.mpr ⟨hfits32, habove⟩))

/-- Firmware of x86-64 machines gets its loader, and the reply takes the way to firmware. -/
theorem firmware_gets_its_loader :
    efiRequest.isEfiClient = true ∧ efiRequest.vendorClass ≠ none ∧
    (∀ row ∈ [BootRow.ownLoader, .arista, .mellanox, .nuc],
      ¬ row.Fits labResponder.rules efiRequest.traits) ∧
    BootRow.first labResponder.rules efiRequest.traits = .efi64 ∧
    labResponder.rules.bootFile? efiRequest = some "monorail-efi64-snponly.efi" := by
  have hefi : efiRequest.isEfiClient = true := by decide +kernel
  have hvendor : efiRequest.vendorClass ≠ none := by decide +kernel
  have hspecial : ∀ row ∈ [BootRow.ownLoader, .arista, .mellanox, .nuc],
      ¬ row.Fits labResponder.rules efiRequest.traits := by decide +kernel
  have hrow : BootRow.first labResponder.rules efiRequest.traits = .efi64 := by decide +kernel
  obtain ⟨hfile, _, _, _, hfirmware⟩ :=
    boot_file_is_that_of_the_first_row labResponder.rules efiRequest
  refine ⟨hefi, hvendor, hspecial, hrow, ?_⟩
  rcases (hfirmware hefi).2.2 hvendor hspecial with h | h
  · exact h
  · rw [hrow] at hfile
    exact absurd (hfile.symm.trans h) (by decide)

end NetBoot
