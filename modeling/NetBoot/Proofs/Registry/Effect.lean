-- What recording an address changes. A table with a line that is no row leaves the whole registry
-- as it is, with the error of the first such line. In any other table the other rows give the
-- address up and one row takes it, and nothing else changes.
import Mathlib.Data.List.Forall2
import NetBoot.Proofs.Registry.Recording

namespace NetBoot

/-! ## Lines that are not text -/

theorem byteLines_eq_self {line : Bytes} (h : 0x0A ∉ line) : byteLines line = [line] := by
  induction line with
  | nil => rfl
  | cons b line ih =>
    rw [List.mem_cons, not_or] at h
    rw [byteLines, if_neg (Ne.symm h.1), ih h.2]

theorem none_mem_read_iff {line : Bytes} (h : 0x0A ∉ line) (rest : Bytes) :
    none ∈ Utf8.read (line ++ rest) ↔ ∃ l ∈ byteLines (line ++ rest), none ∈ Utf8.read l := by
  induction rest generalizing line with
  | nil =>
    rw [List.append_nil, byteLines_eq_self h]
    simp
  | cons b rest ih =>
    by_cases hb : b = 0x0A
    · subst hb
      have hfeed : (0x0A : UInt8).toNat < 0x80 := by decide
      have hrest := ih List.not_mem_nil
      rw [List.nil_append] at hrest
      rw [byteLines_append h, Utf8.read_append line hfeed, Utf8.read_ascii_cons hfeed]
      simp [hrest]
    · -- the byte belongs to the line that is being read
      have hline : 0x0A ∉ line ++ [b] := by simp [h, Ne.symm hb]
      simpa using ih hline

/-- Bytes are text exactly if each of their lines is. -/
theorem decode?_eq_none_iff_line {content : Bytes} :
    Utf8.decode? content = none ↔ ∃ line ∈ byteLines content, Utf8.decode? line = none := by
  simpa [Utf8.decode?_eq_none] using none_mem_read_iff List.not_mem_nil content

/-! ## The first line that offends -/

namespace NodeRow

/-- A line of text that is not blank and is no row, with its fault. -/
def NoRow (line : Bytes) (fault : RowFault) : Prop :=
  ∃ text, Utf8.decode? line = some text ∧ Text.trim text ≠ [] ∧
    NodeRow.read (Text.trim text) = .error fault

/-- A line that a table of machines must not have, with the error that it makes. -/
inductive Offends (line : Bytes) : ServiceError → Prop
  | notText (h : Utf8.decode? line = none) : Offends line (.storage .notText)
  | noRow {fault : RowFault} (h : NoRow line fault) : Offends line (.corrupt fault.message)

theorem offends_iff {line : Bytes} {e : ServiceError} :
    Offends line e ↔ readRowLine NodeRow.read line = .error e := by
  constructor
  · rintro (hnone | ⟨text, htext, hblank, hread⟩)
    · rw [readRowLine, hnone]
    · rw [readRowLine, htext]
      cases htrim : Text.trim text with
      | nil => exact absurd htrim hblank
      | cons c rest =>
        rw [htrim] at hread
        simp only [htrim, hread]
  · intro h
    unfold readRowLine at h
    split at h
    · next hnone =>
      cases h
      exact .notText hnone
    · next text htext =>
      split at h
      · cases h
      · next hblank =>
        split at h
        · cases h
        · next fault hread =>
          cases h
          exact .noRow ⟨text, htext, hblank, hread⟩

/-! ## The rows that an announcement changes -/

/-- How a row stands that the announcement does not renew: if it claimed the address for another
hardware address, it has none now, and otherwise it is the same. -/
inductive Yields (mac : String) (ip : Ipv4) : NodeRow → NodeRow → Prop
  | lost {r : NodeRow} (hmac : r.mac ≠ mac) (hclaim : r.address = some ip) :
      Yields mac ip r { r with address := none }
  | kept {r : NodeRow} (h : r.mac = mac ∨ r.address ≠ some ip) : Yields mac ip r r

/-- The rows before and after an announcement: the first row of the hardware address gets the
address and a new instant, or a row comes in at the end if there is none, and the others yield. -/
inductive Announced (mac : String) (ip : Ipv4) (now : Instant) :
    List NodeRow → List NodeRow → Prop
  | renewed {front back front' back' : List NodeRow} {r : NodeRow}
      (hfront : ∀ s ∈ front, s.mac ≠ mac) (hmac : r.mac = mac)
      (hyield : List.Forall₂ (Yields mac ip) front front')
      (hyield' : List.Forall₂ (Yields mac ip) back back') :
      Announced mac ip now (front ++ r :: back)
        (front' ++ { r with address := some ip, lastSeen := now } :: back')
  | appended {rows rows' : List NodeRow} (hrows : ∀ s ∈ rows, s.mac ≠ mac)
      (hyield : List.Forall₂ (Yields mac ip) rows rows') :
      Announced mac ip now rows (rows' ++ [⟨"", mac, false, "", some ip, now⟩])

variable {mac : String} {ip : Ipv4} {now : Instant} {rows table : List NodeRow}

theorem yields_yieldAddress (mac : String) (ip : Ipv4) (r : NodeRow) :
    Yields mac ip r (yieldAddress mac ip r) := by
  unfold yieldAddress
  split
  · next h => exact .lost h.1 h.2
  · next h =>
    apply Yields.kept
    rwa [not_and_or, ne_eq, not_not] at h

theorem forall₂_yields (mac : String) (ip : Ipv4) (rows : List NodeRow) :
    List.Forall₂ (Yields mac ip) rows (rows.map (yieldAddress mac ip)) := by
  rw [List.forall₂_map_right_iff, List.forall₂_same]
  intro r _
  exact yields_yieldAddress mac ip r

theorem Announced.cons {r r' : NodeRow} (h : Announced mac ip now rows table) (hmac : r.mac ≠ mac)
    (hyield : Yields mac ip r r') : Announced mac ip now (r :: rows) (r' :: table) := by
  cases h with
  | renewed hfront hrow hyields hyields' =>
    exact .renewed (List.forall_mem_cons.mpr ⟨hmac, hfront⟩) hrow (.cons hyield hyields) hyields'
  | appended hrows hyields =>
    exact .appended (List.forall_mem_cons.mpr ⟨hmac, hrows⟩) (.cons hyield hyields)

/-- An announcement changes the rows in this way. -/
theorem announced_announce (hform : registryMac mac = mac) (rows : List NodeRow) :
    Announced mac ip now rows (announce mac ip now rows) := by
  induction rows with
  | nil =>
    rw [announce, List.map_nil, takeAddress, observed, hform]
    exact .appended (by simp) .nil
  | cons r rest ih =>
    have hsame : (yieldAddress mac ip r).mac = r.mac :=
      congrArg Identity.mac (identity_yieldAddress mac ip r)
    rw [announce, List.map_cons, takeAddress, hsame]
    by_cases hmac : r.mac = mac
    · -- only this row is renewed; later rows of the hardware address stay as they are
      have hkept : yieldAddress mac ip r = r := if_neg fun h => h.1 hmac
      rw [if_pos hmac, hkept]
      exact @Announced.renewed _ _ _ [] rest [] _ r (by simp) hmac .nil (forall₂_yields mac ip rest)
    · rw [if_neg hmac]
      exact ih.cons hmac (yields_yieldAddress mac ip r)

end NodeRow

namespace Registry

open NodeRow

variable {r : Registry} {rows : List NodeRow} {mac : String} {now : Instant}

/-! ## A table that cannot be read -/

/-- Opening a table that is there changes nothing. -/
theorem openNodes_of_read (htree : r.volume.IsTree) {content : Bytes}
    (hread : r.volume.read r.nodesPath = .ok content) : r.openNodes = (r, .ok content) := by
  have hget := Volume.get_of_read (nodesPath_ne_nil r) hread
  have hfolder : r.volume.isFolder r.home = true := by
    apply htree r.home "nodes.txt"
    rw [← nodesPath, hget]
    rfl
  have hhome : r.ensureHome = (r, .ok ()) := by
    rw [ensureHome, htree.makeFolder_of_isFolder hfolder]
  rw [openNodes, hhome]
  dsimp only
  rw [hread]

theorem recordAddress_of_error (htree : r.volume.IsTree) {content : Bytes}
    (hread : r.volume.read r.nodesPath = .ok content) {e : ServiceError}
    (herror : readNodeTable content = .error e) (now : Instant) (ip : Ipv4) (mac : String) :
    r.recordAddress now ip mac = (r, .error e) := by
  rw [recordAddress, updateNodes, openNodes_of_read htree hread]
  dsimp only
  rw [herror]
  rfl

theorem readNodeTable_eq_error {content : Bytes} {e : ServiceError} :
    readNodeTable content = .error e ↔
      ∃ front line back, byteLines content = front ++ line :: back ∧
        (∀ l ∈ front, ∀ f, ¬ Offends l f) ∧ Offends line e := by
  simp only [offends_iff]
  exact readRowLines_eq_error

theorem exists_offends_iff {content : Bytes} :
    (Utf8.decode? content = none ∨ ∃ line ∈ byteLines content, ∃ fault, NoRow line fault) ↔
      ∃ line ∈ byteLines content, ∃ e, Offends line e := by
  rw [decode?_eq_none_iff_line]
  constructor
  · rintro (⟨line, hline, hnone⟩ | ⟨line, hline, fault, hfault⟩)
    · exact ⟨line, hline, _, .notText hnone⟩
    · exact ⟨line, hline, _, .noRow hfault⟩
  · rintro ⟨line, hline, e, hnone | hfault⟩
    · exact Or.inl ⟨line, hline, hnone⟩
    · exact Or.inr ⟨line, hline, _, hfault⟩

theorem exists_error_of_offends {content line : Bytes} (hline : line ∈ byteLines content)
    {f : ServiceError} (hf : Offends line f) : ∃ e, readNodeTable content = .error e := by
  cases htable : readNodeTable content with
  | error e => exact ⟨e, rfl⟩
  | ok rows => exact absurd (offends_iff.mp hf) (readRowLine_ne_error htable hline f)

/-- Recording an address either changes what it has to or nothing. If the table is not UTF-8, or a
line of it is not blank and is no row, it fails with the error of the first such line and leaves the
whole registry as it is. If the table can be read, and its years have four digits, it succeeds, and
the table is read with the rows that yield and the one that is renewed or appended. -/
theorem recording_is_all_or_nothing (htree : r.volume.IsTree)
    (hmac : ∃ bs, mac = String.ofList (Text.colonHex bs)) (now : Instant) (ip : Ipv4) :
    (∀ content, r.volume.read r.nodesPath = .ok content →
      (Utf8.decode? content = none ∨ ∃ line ∈ byteLines content, ∃ fault, NoRow line fault) →
      ∃ front line back e, byteLines content = front ++ line :: back ∧
        (∀ l ∈ front, ∀ f, ¬ Offends l f) ∧ Offends line e ∧
        r.recordAddress now ip mac = (r, .error e)) ∧
    ∀ rows, r.nodes = .ok rows → (∀ row ∈ rows, row.lastSeen.InFourDigitYear) → now.IsWritable →
      (r.recordAddress now ip mac).2 = .ok () ∧
        ∃ table, (r.recordAddress now ip mac).1.nodes = .ok table ∧
          Announced mac ip now rows table := by
  refine ⟨?_, ?_⟩
  · intro content hread hoffends
    obtain ⟨line, hline, f, hf⟩ := exists_offends_iff.mp hoffends
    obtain ⟨e, herror⟩ := exists_error_of_offends hline hf
    obtain ⟨front, first, back, hlines, hfront, hfirst⟩ := readNodeTable_eq_error.mp herror
    exact ⟨front, first, back, e, hlines, hfront, hfirst,
      recordAddress_of_error htree hread herror now ip mac⟩
  · intro rows hnodes hyears hnow
    have htext := isMacText_of_colonHex hmac
    have hkeeps := keeps_of_years htree hnodes hyears
    obtain ⟨hdone, hkept⟩ := hkeeps.recordAddress_keeps hnow ip htext
    exact ⟨hdone, _, hkept.nodes, announced_announce (registryMac_of_isMacText htext) rows⟩

/-- A machine, and another one that was only seen. -/
def neighbours : List NodeRow :=
  [⟨"n1", "aa:bb:cc:dd:ee:01", true, "rescue", some ⟨10, 1, 1, 50⟩, ⟨1429565092, 500000000⟩⟩,
    ⟨"", "aa:bb:cc:dd:ee:02", false, "", none, ⟨1429565092, 0⟩⟩]

def neighboursText : String :=
  "n1,AA:BB:CC:DD:EE:01,true,rescue,10.1.1.50,2015-04-20T23:24:52.5+02:00\n\n" ++
    " ,aa:bb:cc:dd:ee:02,false,,,2015-04-20T21:24:52Z\r\n"

/-- A registry with this text in the table of machines. -/
def withTable (text : String) : Registry where
  home := ["data"]
  volume := ⟨[(["data"], .folder), (["data", "nodes.txt"], .file (utf8 text))]⟩

def spoiltText : String := neighboursText ++ "n2"

/-- The second machine gets the address of the first one, unless a line at the end is no row. -/
theorem address_changes_hands_or_nothing_does :
    (withTable neighboursText).volume.IsTree ∧ (withTable spoiltText).volume.IsTree ∧
      (∃ bs, "aa:bb:cc:dd:ee:02" = String.ofList (Text.colonHex bs)) ∧
      (withTable spoiltText).recordAddress ⟨1500000000, 0⟩ ⟨10, 1, 1, 50⟩ "aa:bb:cc:dd:ee:02" =
        (withTable spoiltText, .error (.corrupt "invalid node line: n2")) ∧
      ∃ table, ((withTable neighboursText).recordAddress ⟨1500000000, 0⟩ ⟨10, 1, 1, 50⟩
          "aa:bb:cc:dd:ee:02").1.nodes = .ok table ∧
        Announced "aa:bb:cc:dd:ee:02" ⟨10, 1, 1, 50⟩ ⟨1500000000, 0⟩ neighbours table := by
  have htree : (withTable neighboursText).volume.IsTree := by decide +kernel
  have htree' : (withTable spoiltText).volume.IsTree := by decide +kernel
  have hmac : ∃ bs, "aa:bb:cc:dd:ee:02" = String.ofList (Text.colonHex bs) :=
    ⟨[0xaa, 0xbb, 0xcc, 0xdd, 0xee, 0x02], by decide +kernel⟩
  refine ⟨htree, htree', hmac, ?_, ?_⟩
  · have hread : (withTable spoiltText).volume.read (withTable spoiltText).nodesPath =
        .ok (utf8 spoiltText) := by decide +kernel
    have hline : utf8 "n2" ∈ byteLines (utf8 spoiltText) := by decide +kernel
    have hrow : NoRow (utf8 "n2") (.nodeFields "n2") :=
      ⟨"n2".toList, by decide +kernel, by decide +kernel, by decide +kernel⟩
    obtain ⟨_, _, _, e, _, _, _, hrecord⟩ :=
      (recording_is_all_or_nothing htree' hmac ⟨1500000000, 0⟩ ⟨10, 1, 1, 50⟩).1 _ hread
        (Or.inr ⟨_, hline, _, hrow⟩)
    have herror : ((withTable spoiltText).recordAddress ⟨1500000000, 0⟩ ⟨10, 1, 1, 50⟩
        "aa:bb:cc:dd:ee:02").2 = .error (.corrupt "invalid node line: n2") := by
      decide +kernel
    rw [hrecord] at herror ⊢
    rw [← herror]
  · have hnodes : (withTable neighboursText).nodes = .ok neighbours := by decide +kernel
    have hyears : ∀ row ∈ neighbours, row.lastSeen.InFourDigitYear := by decide +kernel
    have hnow : Instant.IsWritable ⟨1500000000, 0⟩ := by decide +kernel
    exact ((recording_is_all_or_nothing htree hmac ⟨1500000000, 0⟩ ⟨10, 1, 1, 50⟩).2 neighbours
      hnodes hyears hnow).2

end Registry

end NetBoot
