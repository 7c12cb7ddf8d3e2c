-- What the packet of a message consists of: a header with each field at its place, and one triple
-- for each option that the message carries. A message has a packet exactly where every part fits.
import NetBoot.Packet.Encode
import NetBoot.Proofs.Packet.Layout

namespace NetBoot

/-! ## Fields at fixed places -/

namespace Bytes

theorem slice_append_left {bs cs : Bytes} {width : Nat} (h : bs.length = width) :
    slice (bs ++ cs) 0 width = bs := by
  unfold slice
  rw [List.drop_zero, ← h, List.take_left]

theorem slice_append_right {bs cs : Bytes} {start : Nat} (h : bs.length ≤ start) (width : Nat) :
    slice (bs ++ cs) start width = slice cs (start - bs.length) width := by
  unfold slice
  rw [List.drop_append, List.drop_eq_nil_of_le h, List.nil_append]

/-- The first bytes of a field are a field at the same place. -/
theorem take_slice (bs : Bytes) (start : Nat) {narrow width : Nat} (h : narrow ≤ width) :
    (slice bs start width).take narrow = slice bs start narrow := by
  unfold slice
  rw [List.take_take, Nat.min_eq_left h]

end Bytes

theorem length_addressOctets (ip : Option Ipv4) : (addressOctets ip).length = 4 := by
  unfold addressOctets
  exact Ipv4.length_octets _

/-- The packet starts with the header of the message, each field at its place. -/
structure StartsWithHeader (p : Bytes) (m : Message) (chaddr sname fname : Bytes) : Prop where
  front : p.slice 0 4 = [(m.op.map BootpOp.code).getD 0, m.chaddr.typeCode, m.hlen, m.hops]
  xid : p.slice 4 4 = Bytes.ofNat 4 m.xid.toNat
  secs : p.slice 8 2 = Bytes.ofNat 2 m.secs.toNat
  flags : p.slice 10 2 = Bytes.ofNat 2 m.flags.toNat
  ciaddr : p.slice 12 4 = addressOctets m.ciaddr
  yiaddr : p.slice 16 4 = addressOctets m.yiaddr
  siaddr : p.slice 20 4 = addressOctets m.siaddr
  giaddr : p.slice 24 4 = addressOctets m.giaddr
  chaddr : p.slice 28 16 = Bytes.padTo 16 chaddr
  sname : p.slice 44 64 = Bytes.padTo 64 sname
  fname : p.slice 108 128 = Bytes.padTo 128 fname
  cookie : p.slice 236 4 = Bytes.ofNat 4 magicCookie.toNat

namespace Message

variable (m : Message) {chaddr sname fname : Bytes}

theorem length_header (hc : chaddr.length ≤ 16) (hs : sname.length ≤ 64)
    (hf : fname.length ≤ 128) : (m.header chaddr sname fname).length = headerLength := by
  have hcl : (Bytes.padTo hardwareFieldLength chaddr).length = 16 := Bytes.length_padTo hc
  have hsl : (Bytes.padTo BoundedPart.sname.limit sname).length = 64 := Bytes.length_padTo hs
  have hfl : (Bytes.padTo BoundedPart.fname.limit fname).length = 128 := Bytes.length_padTo hf
  unfold header
  simp only [List.length_append, List.length_cons, List.length_nil, Bytes.length_ofNat,
    length_addressOctets, hcl, hsl, hfl]
  rfl

theorem startsWithHeader (hc : chaddr.length ≤ 16) (hs : sname.length ≤ 64)
    (hf : fname.length ≤ 128) (rest : Bytes) :
    StartsWithHeader (m.header chaddr sname fname ++ rest) m chaddr sname fname := by
  have hcl := Bytes.length_padTo hc
  have hsl := Bytes.length_padTo hs
  have hfl := Bytes.length_padTo hf
  have h16 : hardwareFieldLength = 16 := rfl
  have h64 : BoundedPart.sname.limit = 64 := rfl
  have h128 : BoundedPart.fname.limit = 128 := rfl
  unfold header
  simp only [h16, h64, h128, List.append_assoc]
  -- Each field is reached by skipping the fields before it, whose lengths are known.
  constructor <;>
    simp (disch := simp [length_addressOctets, hcl, hsl, hfl]) only
      [Bytes.slice_append_right, Bytes.slice_append_left, length_addressOctets,
        Bytes.length_ofNat, hcl, hsl, hfl, List.length_cons, List.length_nil, Nat.reduceSub,
        Nat.reduceAdd]

end Message

/-! ## The triples of a message -/

namespace OptionValue

theorem writeTriple_eq_ok {owner code : UInt8} {value bs : Bytes} :
    writeTriple owner code value = .ok bs ↔
      value.length ≤ 255 ∧ bs = tripleBytes code value := by
  unfold writeTriple
  split
  · next h => simp [h, eq_comm]
  · next h => simp [h]

/-- A vendor table is written exactly where each of its entries is a triple. -/
theorem writeVendorEntries_eq_ok {owner : UInt8} {l : List (UInt8 × Bytes)} {bs : Bytes} :
    writeVendorEntries owner l = .ok bs ↔ (∀ e ∈ l, IsTriple e) ∧ bs = layOut l := by
  induction l generalizing bs with
  | nil => simp [writeVendorEntries, layOut, eq_comm]
  | cons e l ih =>
    obtain ⟨code, value⟩ := e
    rw [List.forall_mem_cons, layOut_cons]
    unfold writeVendorEntries
    by_cases hcode : code = padCode ∨ code = endCode
    · rw [if_pos hcode]
      refine ⟨?_, ?_⟩
      · intro h
        cases h
      · rintro ⟨⟨ht, _⟩, _⟩
        rcases hcode with h0 | h1
        · exact absurd h0 ht.not_pad
        · exact absurd h1 ht.not_end
    rw [if_neg hcode]
    rw [not_or] at hcode
    show (writeTriple owner code value >>= fun _ => _) = Except.ok bs ↔ _
    rw [bind_eq_ok]
    refine ⟨?_, ?_⟩
    · rintro ⟨triple, htriple, h⟩
      obtain ⟨others, hothers, h⟩ := bind_eq_ok.mp h
      obtain ⟨hlen, rfl⟩ := writeTriple_eq_ok.mp htriple
      obtain ⟨hl, rfl⟩ := ih.mp hothers
      cases h
      exact ⟨⟨⟨hcode.1, hcode.2, hlen⟩, hl⟩, rfl⟩
    · rintro ⟨⟨ht, hl⟩, rfl⟩
      exact ⟨_, writeTriple_eq_ok.mpr ⟨ht.length_le, rfl⟩,
        bind_eq_ok.mpr ⟨_, ih.mpr ⟨hl, rfl⟩, rfl⟩⟩

end OptionValue

theorem OptionName.code_ne_pad (o : OptionName) : o.code ≠ padCode := by cases o <;> decide

theorem OptionName.code_ne_end (o : OptionName) : o.code ≠ endCode := by cases o <;> decide

namespace Options

/-- The bytes of an option's value, if the table has one that can be written. -/
def valueBytes (t : Options) (o : OptionName) : Option Bytes :=
  (t.get o).bind fun v => (OptionValue.write o.code o.kind v).toOption

/-- The triples of some of the options, in the order given. -/
def triplesOf (t : Options) (os : List OptionName) : List (UInt8 × Bytes) :=
  os.filterMap fun o => (t.valueBytes o).map fun value => (o.code, value)

/-- The triples of all options that the table has, in ascending order of the codes. -/
def triples (t : Options) : List (UInt8 × Bytes) := t.triplesOf OptionName.all

/-- The option has no value, or one whose bytes fit a triple. -/
def Fits (t : Options) (o : OptionName) : Prop :=
  ∀ v, t.get o = some v →
    ∃ value, OptionValue.write o.code o.kind v = .ok value ∧ value.length ≤ 255

theorem Fits.valueBytes_eq {t : Options} {o : OptionName} (h : t.Fits o) {v : o.kind.Value}
    (hv : t.get o = some v) :
    ∃ value, OptionValue.write o.code o.kind v = .ok value ∧ value.length ≤ 255 ∧
      t.valueBytes o = some value := by
  obtain ⟨value, hvalue, hlen⟩ := h v hv
  refine ⟨value, hvalue, hlen, ?_⟩
  unfold valueBytes
  rw [hv, Option.bind_some, hvalue]
  rfl

theorem length_le_of_valueBytes {t : Options} {o : OptionName} (h : t.Fits o) {value : Bytes}
    (hv : t.valueBytes o = some value) : value.length ≤ 255 := by
  unfold valueBytes at hv
  obtain ⟨v, hget, hw⟩ := Option.bind_eq_some_iff.mp hv
  obtain ⟨other, hother, hlen⟩ := h v hget
  rw [hother] at hw
  cases hw
  exact hlen

/-- Every triple of options that fit can be written. -/
theorem isTriple_triples {t : Options} (h : ∀ o, t.Fits o) : ∀ e ∈ t.triples, IsTriple e := by
  intro e he
  obtain ⟨o, _, hmap⟩ := List.mem_filterMap.mp he
  obtain ⟨value, hvalue, rfl⟩ := Option.map_eq_some_iff.mp hmap
  exact ⟨o.code_ne_pad, o.code_ne_end, length_le_of_valueBytes (h o) hvalue⟩

/-- The last triple of an option's code is the one of that option. -/
theorem lastValue_triples (t : Options) (o : OptionName) :
    lastValue o.code t.triples = t.valueBytes o := by
  unfold triples triplesOf
  rw [lastValue_filterMap OptionName.code (fun j k => OptionName.code_injective), if_pos o.mem_all]

/-- The bytes of the triple of one option, if it has one. -/
def tripleOf (t : Options) (o : OptionName) : Bytes :=
  ((t.valueBytes o).map (tripleBytes o.code)).getD []

theorem layOut_triplesOf_cons (t : Options) (o : OptionName) (os : List OptionName) :
    layOut (t.triplesOf (o :: os)) = t.tripleOf o ++ layOut (t.triplesOf os) := by
  unfold triplesOf tripleOf
  cases hv : t.valueBytes o with
  | none =>
    rw [List.filterMap_cons_none (by rw [hv]; rfl)]
    rfl
  | some value =>
    rw [List.filterMap_cons_some (by rw [hv]; rfl)]
    rfl

/-- One option is written exactly where it fits. -/
theorem writeOne_eq_ok {t : Options} {o : OptionName} {bs : Bytes} :
    t.writeOne o = .ok bs ↔ t.Fits o ∧ bs = t.tripleOf o := by
  unfold writeOne Fits tripleOf valueBytes
  cases hv : t.get o with
  | none => simp [eq_comm]
  | some v =>
    simp only [Option.some.injEq, forall_eq']
    cases hw : OptionValue.write o.code o.kind v with
    | error e =>
      refine ⟨?_, ?_⟩
      · intro h
        cases h
      · rintro ⟨⟨value, h, _⟩, _⟩
        cases h
    | ok value =>
      show OptionValue.writeTriple o.code o.code value = .ok bs ↔ _
      rw [OptionValue.writeTriple_eq_ok]
      refine ⟨?_, ?_⟩
      · rintro ⟨hlen, rfl⟩
        exact ⟨⟨value, rfl, hlen⟩, by rw [Option.bind_some, hw]; rfl⟩
      · rintro ⟨⟨other, hother, hlen⟩, rfl⟩
        cases hother
        exact ⟨hlen, by rw [Option.bind_some, hw]; rfl⟩

/-- Options are written exactly where all of them fit, each as its triple. -/
theorem writeAll_eq_ok {t : Options} {os : List OptionName} {bs : Bytes} :
    t.writeAll os = .ok bs ↔ (∀ o ∈ os, t.Fits o) ∧ bs = layOut (t.triplesOf os) := by
  induction os generalizing bs with
  | nil => simp [writeAll, triplesOf, layOut, eq_comm]
  | cons o os ih =>
    rw [List.forall_mem_cons, layOut_triplesOf_cons]
    unfold writeAll
    rw [bind_eq_ok]
    refine ⟨?_, ?_⟩
    · rintro ⟨triple, htriple, h⟩
      obtain ⟨others, hothers, h⟩ := bind_eq_ok.mp h
      obtain ⟨hfit, rfl⟩ := writeOne_eq_ok.mp htriple
      obtain ⟨hfits, rfl⟩ := ih.mp hothers
      cases h
      exact ⟨⟨hfit, hfits⟩, rfl⟩
    · rintro ⟨⟨hfit, hfits⟩, rfl⟩
      exact ⟨_, writeOne_eq_ok.mpr ⟨hfit, rfl⟩, bind_eq_ok.mpr ⟨_, ih.mpr ⟨hfits, rfl⟩, rfl⟩⟩

theorem write_eq_ok {t : Options} {bs : Bytes} :
    t.write = .ok bs ↔ (∀ o, t.Fits o) ∧ bs = layOut t.triples := by
  unfold write
  rw [writeAll_eq_ok]
  refine ⟨?_, ?_⟩
  · rintro ⟨h, rfl⟩
    exact ⟨fun o => h o o.mem_all, rfl⟩
  · rintro ⟨h, rfl⟩
    exact ⟨fun o _ => h o, rfl⟩

end Options

/-! ## The packet as a whole -/

/-- The packet of a message with these bytes in its text fields, before it is filled up. -/
def Message.body (m : Message) (chaddr : Bytes) : Bytes :=
  m.header chaddr (utf8 m.sname) (utf8 m.fname) ++ layOut m.options.triples ++ [endCode]

/-- Every part of the message fits its place in a packet. -/
structure Message.Encodable (m : Message) (chaddr : Bytes) : Prop where
  bytes : m.chaddr.bytes? = some chaddr
  six : chaddr.length = 6
  sname : (utf8 m.sname).length ≤ 64
  fname : (utf8 m.fname).length ≤ 128
  options : ∀ o, m.options.Fits o
  whole : paddedLength (m.body chaddr).length ≤ 1500

theorem HardwareAddress.sixBytes_eq_ok {a : HardwareAddress} {bs : Bytes} :
    a.sixBytes = .ok bs ↔ a.bytes? = some bs ∧ bs.length = 6 := by
  unfold HardwareAddress.sixBytes
  cases a.bytes? with
  | none => simp
  | some cs =>
    simp only [Option.some.injEq]
    split
    · next h =>
      refine ⟨?_, ?_⟩
      · intro he
        cases he
        exact ⟨rfl, h⟩
      · rintro ⟨rfl, _⟩
        rfl
    · next h =>
      refine ⟨?_, ?_⟩
      · intro he
        cases he
      · rintro ⟨rfl, h6⟩
        exact absurd h6 h

theorem BoundedPart.fit_eq_ok {part : BoundedPart} {s : String} {bs : Bytes} :
    part.fit s = .ok bs ↔ (utf8 s).length ≤ part.limit ∧ bs = utf8 s := by
  unfold BoundedPart.fit
  split
  · next h => simp [h, eq_comm]
  · next h => simp [h]

theorem length_padTo_paddedLength (bs : Bytes) :
    (Bytes.padTo (paddedLength bs.length) bs).length = paddedLength bs.length := by
  apply Bytes.length_padTo
  unfold paddedLength
  omega

/-- A message has a packet exactly where all its parts fit, and the packet is then its header, its
triples and the end code, filled up with zeros. -/
theorem Message.encode_eq_ok {m : Message} {b : Bytes} :
    m.encode = .ok b ↔ ∃ chaddr, m.Encodable chaddr ∧
      b = Bytes.padTo (paddedLength (m.body chaddr).length) (m.body chaddr) := by
  unfold Message.encode
  rw [bind_eq_ok]
  refine ⟨?_, ?_⟩
  · rintro ⟨chaddr, hchaddr, h⟩
    obtain ⟨sname, hsname, h⟩ := bind_eq_ok.mp h
    obtain ⟨fname, hfname, h⟩ := bind_eq_ok.mp h
    obtain ⟨options, hoptions, h⟩ := bind_eq_ok.mp h
    obtain ⟨hbytes, hsix⟩ := HardwareAddress.sixBytes_eq_ok.mp hchaddr
    obtain ⟨hslen, rfl⟩ := BoundedPart.fit_eq_ok.mp hsname
    obtain ⟨hflen, rfl⟩ := BoundedPart.fit_eq_ok.mp hfname
    obtain ⟨hfits, rfl⟩ := Options.write_eq_ok.mp hoptions
    dsimp only at h
    split at h
    · next hle =>
      rw [length_padTo_paddedLength] at hle
      cases h
      exact ⟨chaddr, ⟨hbytes, hsix, hslen, hflen, hfits, hle⟩, rfl⟩
    · cases h
  · rintro ⟨chaddr, h, rfl⟩
    refine ⟨chaddr, HardwareAddress.sixBytes_eq_ok.mpr ⟨h.bytes, h.six⟩, bind_eq_ok.mpr
      ⟨_, BoundedPart.fit_eq_ok.mpr ⟨h.sname, rfl⟩, bind_eq_ok.mpr
        ⟨_, BoundedPart.fit_eq_ok.mpr ⟨h.fname, rfl⟩, bind_eq_ok.mpr
          ⟨_, Options.write_eq_ok.mpr ⟨h.options, rfl⟩, ?_⟩⟩⟩⟩
    exact if_pos (by rw [length_padTo_paddedLength]; exact h.whole)

end NetBoot
