-- Why a message has no packet. All that is wrong with a message is listed here in the order of its
-- parts, apart from the code that writes it. A message is written exactly where the list is empty,
-- and otherwise fails with the first error of the list.
import Mathlib.Algebra.Order.BigOperators.Group.List
import Mathlib.Algebra.Order.Ring.Nat
import NetBoot.Proofs.Packet.Encoding
import NetBoot.Proofs.Packet.ValueMeaning

namespace NetBoot

/-! ## Steps and complaints -/

section Steps

variable {ε α β : Type}

/-- The step fails with the first of these complaints, and succeeds if there is none. -/
def Finds (x : Except ε α) : List ε → Prop
  | [] => ∃ a, x = .ok a
  | e :: _ => x = .error e

/-- The complaint `e` where `p` holds, and none elsewhere. -/
def complaintIf (p : Prop) [Decidable p] (e : ε) : List ε := if p then [e] else []

theorem complaintIf_eq_nil {p : Prop} [Decidable p] {e : ε} : complaintIf p e = [] ↔ ¬ p := by
  unfold complaintIf
  split <;> simp [*]

theorem head?_complaintIf {p : Prop} [Decidable p] {d e : ε} :
    (complaintIf p d).head? = some e ↔ p ∧ e = d := by
  unfold complaintIf
  split <;> simp [*, eq_comm]

theorem head?_complaintIf_append {p : Prop} [Decidable p] {d e : ε} {es : List ε} :
    (complaintIf p d ++ es).head? = some e ↔ (p ∧ e = d) ∨ (¬ p ∧ es.head? = some e) := by
  unfold complaintIf
  split <;> simp [*, eq_comm]

theorem finds_ok (a : α) : Finds (.ok a : Except ε α) [] := ⟨a, rfl⟩

theorem finds_if_le (n limit : Nat) (a : α) (e : ε) :
    Finds (if n ≤ limit then .ok a else .error e) (complaintIf (limit < n) e) := by
  unfold complaintIf
  by_cases h : n ≤ limit
  · rw [if_pos h, if_neg (Nat.not_lt.mpr h)]
    exact finds_ok a
  · rw [if_neg h, if_pos (Nat.not_le.mp h)]
    rfl

namespace Finds

variable {x : Except ε α} {es : List ε}

/-- Two steps, one after the other, find what the first finds and then what the second finds. -/
theorem bind {f : α → Except ε β} {fs : List ε} (hx : Finds x es)
    (hf : ∀ a, x = .ok a → Finds (f a) fs) : Finds (x >>= f) (es ++ fs) := by
  cases es with
  | nil =>
    obtain ⟨a, rfl⟩ := hx
    exact hf a rfl
  | cons e es =>
    cases (hx : x = .error e)
    rfl

theorem bind_ok {f : α → Except ε β} (hx : Finds x es) (hf : ∀ a, x = .ok a → ∃ b, f a = .ok b) :
    Finds (x >>= f) es := by
  have h : Finds (x >>= f) (es ++ []) := hx.bind hf
  rwa [List.append_nil] at h

/-- What is found later does not matter if it needs something to be found before. -/
theorem of_append {fs : List ε} (h : Finds x (es ++ fs)) (hfs : es = [] → fs = []) :
    Finds x es := by
  cases es with
  | nil => rwa [hfs rfl] at h
  | cons e es => exact h

theorem ok_iff (h : Finds x es) : (∃ a, x = .ok a) ↔ es = [] := by
  cases es with
  | nil => exact ⟨fun _ => rfl, fun _ => h⟩
  | cons e es =>
    cases (h : x = .error e)
    simp

theorem error_iff (h : Finds x es) (e : ε) : x = .error e ↔ es.head? = some e := by
  cases es with
  | nil =>
    obtain ⟨a, rfl⟩ := h
    simp
  | cons d es =>
    cases (h : x = .error d)
    simp

end Finds

end Steps

/-! ## What is wrong with a value -/

theorem length_tripleBytes (code : UInt8) (value : Bytes) :
    (tripleBytes code value).length = 2 + value.length := by
  show value.length + 1 + 1 = 2 + value.length
  omega

/-- The bytes of a triple: its code, its length and its value. -/
def tripleSize (t : UInt8 × Bytes) : Nat := 2 + t.2.length

theorem length_layOut (ts : List (UInt8 × Bytes)) :
    (layOut ts).length = (ts.map tripleSize).sum := by
  induction ts with
  | nil => rfl
  | cons t ts ih =>
    rw [layOut_cons, List.length_append, length_tripleBytes, ih]
    rfl

theorem VendorTable.mem_entries {t : VendorTable} {code : UInt8} {value : Bytes} :
    (code, value) ∈ t.entries ↔ t.get code = some value := by
  unfold entries
  rw [List.mem_filterMap]
  refine ⟨?_, ?_⟩
  · rintro ⟨c, _, hc⟩
    obtain ⟨v, hv, heq⟩ := Option.map_eq_some_iff.mp hc
    cases heq
    exact hv
  · intro h
    exact ⟨code, mem_codes code, by rw [h, Option.map_some]⟩

namespace OptionValue

/-- The number of bytes of a value. -/
def size : (k : OptionKind) → k.Value → Nat
  | .address, _ => 4
  | .addresses, ips => 4 * ips.length
  | .word32, _ => 4
  | .word16, _ => 2
  | .word8, _ => 1
  | .text, s => (utf8 s).length
  | .bytes, bs => bs.length
  | .messageType, _ => 1
  | .clientId, id => 1 + (id.bytes?.getD []).length
  | .clientName, n => 3 + (utf8 n.name).length
  | .vendorTable, t => (t.entries.map tripleSize).sum

/-- What is wrong with one entry of a vendor table. -/
def entryComplaints (owner : UInt8) (e : UInt8 × Bytes) : List EncodeError :=
  complaintIf (e.1 = padCode ∨ e.1 = endCode) (.reservedVendorCode owner e.1) ++
    complaintIf (255 < e.2.length) (.optionTooLong owner e.2.length)

/-- What keeps a value from having bytes at all. -/
def shapeComplaints (owner : UInt8) : (k : OptionKind) → k.Value → List EncodeError
  | .addresses, ips => complaintIf (ips = []) (.noAddresses owner)
  | .clientId, id => complaintIf (id.bytes? = none) (.hardwareAddress id.text)
  | .vendorTable, t => t.entries.flatMap (entryComplaints owner)
  | _, _ => []

/-- What is wrong with a value: it has no bytes, or more than a length of one byte can count. -/
def complaints (owner : UInt8) (k : OptionKind) (v : k.Value) : List EncodeError :=
  shapeComplaints owner k v ++ complaintIf (255 < size k v) (.optionTooLong owner (size k v))

/-- The value has bytes: a list of addresses has at least one, the text of a hardware address can
be read, and a vendor table has no entry with the code of padding or of the end. -/
def HasShape : (k : OptionKind) → k.Value → Prop
  | .addresses, ips => ips ≠ []
  | .clientId, id => ∃ bs, id.bytes? = some bs
  | .vendorTable, t => t.get 0 = none ∧ t.get 255 = none
  | _, _ => True

theorem finds_writeTriple (owner code : UInt8) (value : Bytes) :
    Finds (writeTriple owner code value)
      (complaintIf (255 < value.length) (.optionTooLong owner value.length)) := by
  unfold writeTriple
  exact finds_if_le value.length 255 _ _

theorem finds_writeVendorEntries (owner : UInt8) (l : List (UInt8 × Bytes)) :
    Finds (writeVendorEntries owner l) (l.flatMap (entryComplaints owner)) := by
  induction l with
  | nil => exact finds_ok []
  | cons e l ih =>
    obtain ⟨code, value⟩ := e
    rw [List.flatMap_cons]
    unfold writeVendorEntries entryComplaints
    by_cases hcode : code = padCode ∨ code = endCode
    · rw [if_pos hcode, complaintIf, if_pos hcode]
      rfl
    · rw [if_neg hcode, complaintIf, if_neg hcode, List.nil_append]
      refine (finds_writeTriple owner code value).bind fun triple _ => ?_
      exact ih.bind_ok fun others _ => ⟨_, rfl⟩

theorem finds_writeAddresses (owner : UInt8) (ips : List Ipv4) :
    Finds (writeAddresses owner ips) (complaintIf (ips = []) (.noAddresses owner)) := by
  unfold writeAddresses complaintIf
  split
  · rfl
  · exact finds_ok _

theorem finds_writeClientId (id : HardwareAddress) :
    Finds (writeClientId id) (complaintIf (id.bytes? = none) (.hardwareAddress id.text)) := by
  unfold writeClientId
  cases id.bytes? with
  | none => rfl
  | some address => exact finds_ok _

theorem finds_write (owner : UInt8) (k : OptionKind) (v : k.Value) :
    Finds (write owner k v) (shapeComplaints owner k v) := by
  cases k with
  | addresses => exact finds_writeAddresses owner v
  | clientId => exact finds_writeClientId v
  | vendorTable => exact finds_writeVendorEntries owner _
  | _ => exact finds_ok _

theorem length_write {owner : UInt8} {k : OptionKind} {v : k.Value} {bs : Bytes}
    (h : write owner k v = .ok bs) : bs.length = size k v := by
  cases k with
  | addresses =>
    simp only [write, writeAddresses] at h
    split at h
    · cases h
    · cases h
      exact Ipv4.length_flatMap_octets _
  | clientId =>
    simp only [write, writeClientId] at h
    cases hb : HardwareAddress.bytes? v with
    | none =>
      rw [hb] at h
      cases h
    | some address =>
      rw [hb] at h
      cases h
      simp [size, hb, Nat.add_comm]
  | clientName =>
    cases h
    show (utf8 v.name).length + 1 + 1 + 1 = 3 + (utf8 v.name).length
    omega
  | vendorTable =>
    obtain ⟨_, rfl⟩ := writeVendorEntries_eq_ok.mp h
    exact length_layOut _
  | word32 =>
    cases h
    exact Bytes.length_ofNat 4 _
  | word16 =>
    cases h
    exact Bytes.length_ofNat 2 _
  | _ =>
    cases h
    rfl

theorem length_le_size {t : VendorTable} {e : UInt8 × Bytes} (he : e ∈ t.entries) :
    e.2.length ≤ size .vendorTable t := by
  have hle : 2 + e.2.length ≤ (t.entries.map tripleSize).sum :=
    List.le_sum_of_mem (List.mem_map_of_mem he)
  show e.2.length ≤ (t.entries.map tripleSize).sum
  omega

/-- Nothing is wrong with a vendor table of sound codes that is short as a whole. -/
theorem entryComplaints_eq_nil {owner : UInt8} {t : VendorTable}
    (hsize : size .vendorTable t ≤ 255) :
    t.entries.flatMap (entryComplaints owner) = [] ↔ t.get 0 = none ∧ t.get 255 = none := by
  rw [List.flatMap_eq_nil_iff]
  unfold entryComplaints
  simp only [List.append_eq_nil_iff, complaintIf_eq_nil, not_or]
  refine ⟨?_, ?_⟩
  · intro h
    have habsent : ∀ code, code = padCode ∨ code = endCode → t.get code = none := by
      intro code hcode
      refine Option.eq_none_iff_forall_ne_some.mpr fun value hvalue => ?_
      obtain ⟨⟨hpad, hend⟩, _⟩ := h _ (VendorTable.mem_entries.mpr hvalue)
      exact hcode.elim hpad hend
    exact ⟨habsent 0 (Or.inl rfl), habsent 255 (Or.inr rfl)⟩
  · rintro ⟨hpad, hend⟩ ⟨code, value⟩ he
    have hvalue : t.get code = some value := VendorTable.mem_entries.mp he
    have hle := length_le_size he
    refine ⟨⟨?_, ?_⟩, by omega⟩
    · rintro rfl
      rw [show t.get padCode = none from hpad] at hvalue
      cases hvalue
    · rintro rfl
      rw [show t.get endCode = none from hend] at hvalue
      cases hvalue

theorem complaints_eq_nil {owner : UInt8} {k : OptionKind} {v : k.Value} :
    complaints owner k v = [] ↔ HasShape k v ∧ size k v ≤ 255 := by
  unfold complaints
  rw [List.append_eq_nil_iff, complaintIf_eq_nil, Nat.not_lt]
  refine and_congr_left fun hsize => ?_
  cases k with
  | addresses => exact complaintIf_eq_nil
  | clientId =>
    refine complaintIf_eq_nil.trans ?_
    exact Option.ne_none_iff_exists'
  | vendorTable => exact entryComplaints_eq_nil hsize
  | _ => exact iff_of_true rfl trivial

end OptionValue

/-! ## What is wrong with the options -/

namespace Options

/-- The bytes of one option's triple, if the table has the option. -/
def sizeOf (t : Options) (o : OptionName) : Nat :=
  (t.get o).elim 0 fun v => 2 + OptionValue.size o.kind v

/-- The number of bytes of all triples. -/
def size (t : Options) : Nat := (OptionName.all.map t.sizeOf).sum

def complaintsOf (t : Options) (o : OptionName) : List EncodeError :=
  (t.get o).elim [] fun v => OptionValue.complaints o.code o.kind v

/-- What is wrong with the options, in ascending order of the codes. -/
def complaints (t : Options) : List EncodeError := OptionName.all.flatMap t.complaintsOf

variable (t : Options)

theorem complaints_eq_nil : t.complaints = [] ↔ ∀ o v, t.get o = some v →
    OptionValue.HasShape o.kind v ∧ OptionValue.size o.kind v ≤ 255 := by
  unfold complaints
  rw [List.flatMap_eq_nil_iff]
  refine forall_congr' fun o => ?_
  rw [forall_prop_of_true o.mem_all]
  unfold complaintsOf
  cases t.get o with
  | none => simp
  | some v => simp [OptionValue.complaints_eq_nil]

theorem finds_writeOne (o : OptionName) : Finds (t.writeOne o) (t.complaintsOf o) := by
  unfold writeOne complaintsOf
  cases t.get o with
  | none => exact finds_ok []
  | some v =>
    refine (OptionValue.finds_write o.code o.kind v).bind fun bs hbs => ?_
    rw [← OptionValue.length_write hbs]
    exact OptionValue.finds_writeTriple o.code o.code bs

theorem length_writeOne {o : OptionName} {bs : Bytes} (h : t.writeOne o = .ok bs) :
    bs.length = t.sizeOf o := by
  unfold writeOne at h
  unfold sizeOf
  cases hv : t.get o with
  | none =>
    rw [hv] at h
    cases h
    rfl
  | some v =>
    rw [hv] at h
    obtain ⟨value, hvalue, h⟩ := bind_eq_ok.mp h
    obtain ⟨_, rfl⟩ := OptionValue.writeTriple_eq_ok.mp h
    rw [length_tripleBytes, OptionValue.length_write hvalue]
    rfl

theorem finds_writeAll (os : List OptionName) :
    Finds (t.writeAll os) (os.flatMap t.complaintsOf) := by
  induction os with
  | nil => exact finds_ok []
  | cons o os ih =>
    rw [List.flatMap_cons]
    unfold writeAll
    refine (t.finds_writeOne o).bind fun triple _ => ?_
    exact ih.bind_ok fun others _ => ⟨_, rfl⟩

theorem length_writeAll {os : List OptionName} {bs : Bytes} (h : t.writeAll os = .ok bs) :
    bs.length = (os.map t.sizeOf).sum := by
  induction os generalizing bs with
  | nil =>
    cases h
    rfl
  | cons o os ih =>
    obtain ⟨triple, htriple, h⟩ := bind_eq_ok.mp h
    obtain ⟨others, hothers, h⟩ := bind_eq_ok.mp h
    cases h
    rw [List.length_append, t.length_writeOne htriple, ih hothers, List.map_cons, List.sum_cons]

theorem finds_write : Finds t.write t.complaints := t.finds_writeAll OptionName.all

theorem length_write {bs : Bytes} (h : t.write = .ok bs) : bs.length = t.size :=
  t.length_writeAll h

end Options

/-! ## What is wrong with a message -/

namespace Message

/-- The bytes of the header, of all options and of the end code. -/
def size (m : Message) : Nat := 241 + m.options.size

/-- What is wrong with a message, in the order of its parts: the hardware address, the two names,
the options and the length of the whole. -/
def complaints (m : Message) : List EncodeError :=
  complaintIf (m.chaddr.bytes?.map List.length ≠ some 6) (.hardwareAddress m.chaddr.text) ++
    (complaintIf (64 < (utf8 m.sname).length) (.tooLong .sname (utf8 m.sname).length) ++
      (complaintIf (128 < (utf8 m.fname).length) (.tooLong .fname (utf8 m.fname).length) ++
        (m.options.complaints ++
          complaintIf (1500 < m.size) (.tooLong .packet (m.size + m.size % 2)))))

/-- Every part of the message fits its place, and the whole fits a packet. -/
structure IsWritable (m : Message) : Prop where
  chaddr : ∃ bs, m.chaddr.bytes? = some bs ∧ bs.length = 6
  sname : (utf8 m.sname).length ≤ 64
  fname : (utf8 m.fname).length ≤ 128
  shapes : ∀ o v, m.options.get o = some v → OptionValue.HasShape o.kind v
  sizes : ∀ o v, m.options.get o = some v → OptionValue.size o.kind v ≤ 255
  whole : 241 + m.options.size ≤ 1500

end Message

theorem HardwareAddress.finds_sixBytes (a : HardwareAddress) :
    Finds a.sixBytes
      (complaintIf (a.bytes?.map List.length ≠ some 6) (.hardwareAddress a.text)) := by
  unfold sixBytes complaintIf
  cases a.bytes? with
  | none => rfl
  | some bs =>
    by_cases h : bs.length = 6
    · simpa [h] using finds_ok bs
    · simp [h, Finds]

theorem BoundedPart.finds_fit (part : BoundedPart) (s : String) :
    Finds (part.fit s)
      (complaintIf (part.limit < (utf8 s).length) (.tooLong part (utf8 s).length)) := by
  unfold fit
  exact finds_if_le (utf8 s).length part.limit _ _

/-- The length that is refused is the even one, and filling up to the smallest packet never makes
a packet too long. -/
theorem complaintIf_paddedLength (n : Nat) :
    complaintIf (1500 < n) (EncodeError.tooLong .packet (n + n % 2)) =
      complaintIf (BoundedPart.packet.limit < paddedLength n)
        (.tooLong .packet (paddedLength n)) := by
  have hlimit : BoundedPart.packet.limit = 1500 := rfl
  have h300 : shortestPacket = 300 := rfl
  unfold complaintIf paddedLength
  rw [hlimit, h300]
  by_cases h : 1500 < n
  · have hlong : max 300 (n + n % 2) = n + n % 2 := by omega
    rw [if_pos h, if_pos (by omega), hlong]
  · rw [if_neg h, if_neg (by omega)]

namespace Message

variable (m : Message)

/-- The parts of a packet that fit are together as long as the message says. -/
theorem length_parts {chaddr options : Bytes} (hc : chaddr.length = 6)
    (hs : (utf8 m.sname).length ≤ 64) (hf : (utf8 m.fname).length ≤ 128)
    (hoptions : m.options.write = .ok options) :
    (m.header chaddr (utf8 m.sname) (utf8 m.fname) ++ options ++ [endCode]).length = m.size := by
  have hheader := m.length_header (by omega : chaddr.length ≤ 16) hs hf
  have h240 : headerLength = 240 := rfl
  rw [List.length_append, List.length_append, hheader, m.options.length_write hoptions,
    List.length_singleton, h240]
  unfold size
  omega

theorem length_encode {m : Message} {b : Bytes} (h : m.encode = .ok b) :
    b.length = paddedLength m.size := by
  obtain ⟨chaddr, hm, rfl⟩ := encode_eq_ok.mp h
  have hwrite : m.options.write = .ok (layOut m.options.triples) :=
    Options.write_eq_ok.mpr ⟨hm.options, rfl⟩
  rw [length_padTo_paddedLength, ← m.length_parts hm.six hm.sname hm.fname hwrite]
  rfl

/-- Writing a message finds what is wrong with it. -/
theorem finds_encode : Finds m.encode m.complaints := by
  unfold encode complaints
  refine m.chaddr.finds_sixBytes.bind fun chaddr hchaddr => ?_
  refine (BoundedPart.sname.finds_fit m.sname).bind fun sname hsname => ?_
  refine (BoundedPart.fname.finds_fit m.fname).bind fun fname hfname => ?_
  refine m.options.finds_write.bind fun options hoptions => ?_
  have hsix := (HardwareAddress.sixBytes_eq_ok.mp hchaddr).2
  have hs := BoundedPart.fit_eq_ok.mp hsname
  have hf := BoundedPart.fit_eq_ok.mp hfname
  have hsize := m.length_parts hsix hs.1 hf.1 hoptions
  rw [hs.2, hf.2]
  generalize m.header chaddr (utf8 m.sname) (utf8 m.fname) ++ options ++ [endCode] = whole
    at hsize ⊢
  have hpacket := length_padTo_paddedLength whole
  dsimp only
  generalize Bytes.padTo (paddedLength whole.length) whole = packet at hpacket ⊢
  rw [complaintIf_paddedLength, ← hsize, ← hpacket]
  exact finds_if_le packet.length BoundedPart.packet.limit packet _

theorem complaints_eq_nil : m.complaints = [] ↔ m.IsWritable := by
  unfold complaints
  simp only [List.append_eq_nil_iff, complaintIf_eq_nil, Options.complaints_eq_nil,
    Decidable.not_not, Nat.not_lt, Option.map_eq_some_iff]
  refine ⟨?_, ?_⟩
  · rintro ⟨hchaddr, hsname, hfname, hoptions, hwhole⟩
    exact ⟨hchaddr, hsname, hfname, fun o v hv => (hoptions o v hv).1,
      fun o v hv => (hoptions o v hv).2, hwhole⟩
  · intro h
    exact ⟨h.chaddr, h.sname, h.fname, fun o v hv => ⟨h.shapes o v hv, h.sizes o v hv⟩, h.whole⟩

end Message

/-- A message is written exactly where every part of it fits. Where some do not, the error is that
of the first: the hardware address, the names, then the options in ascending order of their codes,
and the length of the whole at last. -/
theorem encode_fails_with_first_complaint (m : Message) :
    ((∃ b, m.encode = .ok b) ↔ m.IsWritable) ∧
      ∀ e, m.encode = .error e ↔ m.complaints.head? = some e :=
  ⟨m.finds_encode.ok_iff.trans m.complaints_eq_nil, m.finds_encode.error_iff⟩

/-- In a vendor table an entry that is too long comes before the code of the end, and both come
before a client identifier that is no address. -/
example : ({ chaddr := .ofBytes none [1, 2, 3, 4, 5, 6]
             options := (Options.empty.set .clientId ⟨none, "x"⟩).set .vendorOptions
               (.ofList [(255, []), (7, List.replicate 256 0)]) } : Message).encode =
    .error (.optionTooLong 43 256) := by
  decide +kernel

end NetBoot
