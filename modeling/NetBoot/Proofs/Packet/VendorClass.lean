-- The architecture that a vendor class names: where its number stands, what plays no part in it,
-- and that cutting the text by places among its bytes never cuts a character.
import NetBoot.Packet.ClientArch
import NetBoot.Proofs.Text.Numerals
import NetBoot.Proofs.Text.Places

namespace NetBoot

open Text

namespace ClientArch

variable {s before field back : List Char}

/-- The characters that end the number of an architecture. -/
def isMark (c : Char) : Bool := c = ':' ∨ c = ' '

/-- The architecture whose code is written, with or without a plus sign in front. -/
def ofNumeral? (field : List Char) : Option ClientArch :=
  (readUpTo? 65535 field).map fun n => ofCode (UInt16.ofNat n)

/-- Here the text is at its end, or a character that ends the number follows. -/
def EndsField (back : List Char) : Prop := ∀ c ∈ back.head?, c = ':' ∨ c = ' '

-- The instance is named: a search may come upon the one that runs through all characters.
instance (back : List Char) : Decidable (EndsField back) := Option.decidableForallMem back.head?

/-- A text with its first `Arch:` after `before`, and the field from there up to the next colon or
space, or up to the end. -/
structure HasField (s before field back : List Char) : Prop where
  text : s = before ++ "Arch:".toList ++ (field ++ back)
  first : StandsFirst "Arch:".toList before s
  inside : ∀ c ∈ field, c ≠ ':' ∧ c ≠ ' '
  ended : EndsField back

/-! ## The field -/

theorem takeWhile_field (hinside : ∀ c ∈ field, c ≠ ':' ∧ c ≠ ' ')
    (hended : EndsField back) :
    (field ++ back).takeWhile (fun c => c ≠ ':' ∧ c ≠ ' ') = field := by
  apply takeWhile_append_of_stops
  · simpa using hinside
  · intro c hc
    rcases hended c hc with rfl | rfl
    · rfl
    · rfl

/-- A text with `Arch:` in it has a field. -/
theorem exists_hasField {rest : List Char} (h : afterFirst? "Arch:".toList s = some rest) :
    ∃ before back, HasField s before (rest.takeWhile fun c => c ≠ ':' ∧ c ≠ ' ') back := by
  obtain ⟨before, hbefore, hs⟩ := afterFirst?_eq_some.mp h
  refine ⟨before, rest.dropWhile fun c => c ≠ ':' ∧ c ≠ ' ', ?_, hbefore, ?_, ?_⟩
  · rw [List.takeWhile_append_dropWhile, hs]
  · intro c hc
    simpa using List.mem_takeWhile_imp hc
  · intro c hc
    have hstops := stops_dropWhile (fun c => decide (c ≠ ':' ∧ c ≠ ' ')) rest c hc
    by_cases hcolon : c = ':'
    · exact Or.inl hcolon
    · simpa [hcolon] using hstops

theorem HasField.afterFirst? (h : HasField s before field back) :
    afterFirst? "Arch:".toList s = some (field ++ back) :=
  afterFirst?_eq_some.mpr ⟨before, h.first, h.text⟩

theorem ofVendorClass?_eq (s : String) :
    ofVendorClass? s =
      if "PXEClient".toList <+: s.toList then
        (afterFirst? "Arch:".toList s.toList).bind fun rest =>
          ofNumeral? (rest.takeWhile fun c => c ≠ ':' ∧ c ≠ ' ')
      else none := by
  have hbind : ofVendorClass? s = (after? "PXEClient".toList s.toList).bind fun _ =>
      (afterFirst? "Arch:".toList s.toList).bind fun rest =>
        ofNumeral? (rest.takeWhile fun c => c ≠ ':' ∧ c ≠ ' ') := by
    simp only [ofNumeral?, Option.map_eq_bind]
    rfl
  rw [hbind]
  split
  · next hlead =>
    obtain ⟨rest, hrest⟩ := hlead
    rw [after?_eq_some.mpr hrest.symm, Option.bind_some]
  · next hlead =>
    cases hafter : after? "PXEClient".toList s.toList with
    | none => rfl
    | some rest => exact absurd ⟨rest, (after?_eq_some.mp hafter).symm⟩ hlead

/-- The architecture of a text with a field is that of the field, if the text before it is that of a
boot client. -/
theorem HasField.ofVendorClass?_eq (h : HasField s before field back) :
    ofVendorClass? (String.ofList s) =
      if "PXEClient".toList <+: before then ofNumeral? field else none := by
  have hlead : "PXEClient".toList <+: s ↔ "PXEClient".toList <+: before := by
    rw [h.text, List.append_assoc]
    exact prefix_append_cons_iff (c := 'A') (by decide)
  have htext : (String.ofList s).toList = s := String.toList_ofList
  rw [ClientArch.ofVendorClass?_eq, htext, h.afterFirst?, Option.bind_some,
    takeWhile_field h.inside h.ended]
  simp only [hlead]

theorem ofNumeral?_eq_some {a : ClientArch} :
    ofNumeral? field = some a ↔
      ∃ n, IsNumeral field n ∧ n ≤ 65535 ∧ a = ofCode (UInt16.ofNat n) := by
  rw [ofNumeral?, Option.map_eq_some_iff]
  refine exists_congr fun n => ?_
  rw [readUpTo?_eq_some, and_assoc, eq_comm (a := a)]

/-- A vendor class names an architecture exactly if it is that of a boot client and its field writes
the code of the architecture. -/
theorem ofVendorClass?_eq_some {text : String} {a : ClientArch} :
    ofVendorClass? text = some a ↔
      "PXEClient".toList <+: text.toList ∧ ∃ before field back n,
        HasField text.toList before field back ∧
        IsNumeral field n ∧ n ≤ 65535 ∧ a = ofCode (UInt16.ofNat n) := by
  rw [ClientArch.ofVendorClass?_eq, Option.ite_none_right_eq_some, Option.bind_eq_some_iff]
  refine and_congr_right fun _ => ⟨?_, ?_⟩
  · rintro ⟨rest, hrest, ha⟩
    obtain ⟨before, back, hfield⟩ := exists_hasField hrest
    obtain ⟨n, hn⟩ := ofNumeral?_eq_some.mp ha
    exact ⟨before, _, back, n, hfield, hn⟩
  · rintro ⟨before, field, back, n, hfield, hn⟩
    refine ⟨field ++ back, hfield.afterFirst?, ?_⟩
    rw [takeWhile_field hfield.inside hfield.ended]
    exact ofNumeral?_eq_some.mpr ⟨n, hn⟩

/-- The same field stands in a text that goes on otherwise after it. -/
theorem HasField.with_back {other : List Char} (h : HasField s before field back)
    (hended : EndsField other) :
    HasField (before ++ "Arch:".toList ++ (field ++ other)) before field other :=
  ⟨rfl, h.first.congr (List.prefix_append _ _), h.inside, hended⟩

theorem hasField_client (hinside : ∀ c ∈ field, c ≠ ':' ∧ c ≠ ' ')
    (hended : EndsField back) :
    HasField ("PXEClient:Arch:".toList ++ (field ++ back)) "PXEClient:".toList field back := by
  have hplace : Text.afterFirst? "Arch:".toList "PXEClient:Arch:".toList = some [] := by decide
  obtain ⟨before, hbefore, htext⟩ := afterFirst?_eq_some.mp hplace
  rw [List.append_nil] at htext
  have hsame : before = "PXEClient:".toList :=
    List.append_cancel_right (htext.symm.trans (by decide))
  subst hsame
  exact ⟨rfl, hbefore.congr (List.prefix_append _ _), hinside, hended⟩

theorem ofNumeral?_zeros (zeros : Nat) (n : UInt16) :
    ofNumeral? (List.replicate zeros '0' ++ showNat n.toNat) = some (ofCode n) := by
  refine ofNumeral?_eq_some.mpr ⟨n.toNat, isNumeral_zeros zeros n.toNat, ?_, ?_⟩
  · exact Nat.le_of_lt_succ n.toNat_lt
  · rw [UInt16.ofNat_toNat]

theorem hasField_zeros (zeros n : Nat) (hended : EndsField back) :
    HasField ("PXEClient:Arch:".toList ++ (List.replicate zeros '0' ++ showNat n ++ back))
      "PXEClient:".toList (List.replicate zeros '0' ++ showNat n) back := by
  apply hasField_client _ hended
  intro c hc
  have hdigit := isDigit_of_mem_zeros hc
  refine ⟨?_, ?_⟩
  · rintro rfl
    cases hdigit
  · rintro rfl
    cases hdigit

/-! ## The field by bytes -/

/-- The architecture by places among the bytes of a text. There is no result where a place at which
the bytes are cut falls within a character. -/
def ofVendorBytes? (bs : Bytes) : Option (Option ClientArch) :=
  if (Utf8.encode "PXEClient".toList).isPrefixOf bs then
    match Utf8.place? (Utf8.encode "Arch:".toList) bs with
    | none => some none
    | some i => do
      let rest ← Utf8.dropAt? bs (i + (Utf8.encode "Arch:".toList).length)
      let text ← Utf8.decode? rest
      let field ← Utf8.takeAt? rest ((Utf8.charPlace? isMark text).getD rest.length)
      return ofNumeral? (← Utf8.decode? field)
  else some none

/-- The bytes are cut between characters only, and give the architecture of the text. -/
theorem ofVendorBytes?_utf8 (text : String) :
    ofVendorBytes? (utf8 text) = some (ofVendorClass? text) := by
  have hmark : (fun c => !isMark c) = fun c => decide (c ≠ ':' ∧ c ≠ ' ') := by
    funext c
    simp [isMark]
  rw [ClientArch.ofVendorClass?_eq, ofVendorBytes?, utf8]
  simp only [List.isPrefixOf_iff_prefix, Utf8.encode_prefix_iff]
  split
  · cases hplace : afterFirst? "Arch:".toList text.toList with
    | none =>
      rw [Utf8.place?_encode_of_absent (by decide) hplace]
      rfl
    | some rest =>
      obtain ⟨before, hbefore, htext⟩ := afterFirst?_eq_some.mp hplace
      rw [(Utf8.place?_encode (by decide)).mpr ⟨before, hbefore, rfl⟩]
      dsimp only
      rw [← List.length_append, ← Utf8.encode_append, htext, Utf8.dropAt?_encode]
      simp only [Option.bind_eq_bind, Option.bind_some, Utf8.decode?_encode,
        Utf8.takeAt?_charPlace?, hmark]
      rfl
  · rfl

end ClientArch

/-- A vendor class names an architecture exactly if it starts as that of a boot client and writes
the code of the architecture between its first `Arch:` and the next colon or space, or the end, with
or without a plus sign in front. Every place at which its bytes are cut lies between two characters.
What comes after the number plays no part, whatever stands in it. The code may have any number of
zeros in front. -/
theorem vendor_class_names_its_first_architecture :
    (∀ (text : String) (a : ClientArch), ClientArch.ofVendorClass? text = some a ↔
      "PXEClient".toList <+: text.toList ∧ ∃ before field back n,
        ClientArch.HasField text.toList before field back ∧
        IsNumeral field n ∧ n ≤ 65535 ∧ a = ClientArch.ofCode (UInt16.ofNat n)) ∧
    (∀ text : String,
      ClientArch.ofVendorBytes? (utf8 text) = some (ClientArch.ofVendorClass? text)) ∧
    (∀ (text : String) (before field back other : List Char),
      ClientArch.HasField text.toList before field back →
      ClientArch.EndsField other →
        ClientArch.ofVendorClass? (String.ofList (before ++ "Arch:".toList ++ (field ++ other))) =
          ClientArch.ofVendorClass? text) ∧
    ∀ (n : UInt16) (zeros : Nat) (back : List Char),
      ClientArch.EndsField back →
        ClientArch.ofVendorClass? (String.ofList
          ("PXEClient:Arch:".toList ++ (List.replicate zeros '0' ++ showNat n.toNat ++ back))) =
            some (ClientArch.ofCode n) := by
  refine ⟨fun text a => ClientArch.ofVendorClass?_eq_some, ClientArch.ofVendorBytes?_utf8, ?_, ?_⟩
  · intro text before field back other hfield hended
    rw [(hfield.with_back hended).ofVendorClass?_eq, ← hfield.ofVendorClass?_eq,
      String.ofList_toList]
  · intro n zeros back hended
    rw [(ClientArch.hasField_zeros zeros n.toNat hended).ofVendorClass?_eq, if_pos (by decide),
      ClientArch.ofNumeral?_zeros]

/-- A second architecture is not read, and neither is what stands around it. -/
theorem second_architecture_is_not_read :
    ClientArch.HasField "PXEClient:Arch:00007:Arch:00009".toList "PXEClient:".toList
        "00007".toList ":Arch:00009".toList ∧
      ClientArch.ofVendorClass? "PXEClient:Arch:00007:Arch:00009" = some .efiByteCode ∧
      ClientArch.ofVendorClass? "PXEClient:Arch:00007 Ä:Arch:x" = some .efiByteCode ∧
      ClientArch.ofVendorClass? "PXEClient:Arch:0000011:UNDI" = some .efiArm64 := by
  have htext : "PXEClient:Arch:00007:Arch:00009".toList =
      "PXEClient:Arch:".toList ++ ("00007".toList ++ ":Arch:00009".toList) := by decide +kernel
  have hfield : ClientArch.HasField "PXEClient:Arch:00007:Arch:00009".toList "PXEClient:".toList
      "00007".toList ":Arch:00009".toList := by
    have hnumber : "00007".toList = List.replicate 4 '0' ++ showNat 7 := by decide +kernel
    rw [htext, hnumber]
    exact ClientArch.hasField_zeros 4 7 (by decide)
  have hread : ClientArch.ofVendorClass? "PXEClient:Arch:00007:Arch:00009" = some .efiByteCode := by
    decide +kernel
  have harch : ClientArch.ofCode 11 = .efiArm64 := by decide
  obtain ⟨_, _, hother, hcode⟩ := vendor_class_names_its_first_architecture
  refine ⟨hfield, hread, ?_, ?_⟩
  · rw [← hread, ← hother _ _ _ _ " Ä:Arch:x".toList hfield (by decide)]
    congr 1
  · rw [← harch, ← hcode 11 5 ":UNDI".toList (by decide)]
    congr 1

end NetBoot
