-- The grammar of packets and what a packet says, apart from the code that reads it. A packet is
-- read exactly where the grammar derives it, and the message is what the packet says.
import NetBoot.Packet.Decode
import NetBoot.Proofs.Packet.ValueMeaning

namespace NetBoot

open OptionValue

/-! ## Options in triples -/

/-- Whether the code is that of an option with a meaning here. -/
def OptionName.IsCode (n : UInt8) : Prop := ∃ o : OptionName, o.code = n

theorem OptionName.isCode_iff (n : UInt8) : IsCode n ↔ (ofCode? n).isSome = true := by
  refine ⟨?_, ?_⟩
  · rintro ⟨o, rfl⟩
    rw [ofCode?_code]
    rfl
  · intro h
    obtain ⟨o, ho⟩ := Option.isSome_iff_exists.mp h
    exact ⟨o, code_of_ofCode? ho⟩

instance (n : UInt8) : Decidable (OptionName.IsCode n) :=
  decidable_of_iff _ (OptionName.isCode_iff n).symm

/-- Every triple with a known code has a value that its option can have. -/
def Readable (ts : List (UInt8 × Bytes)) : Prop :=
  ∀ t ∈ ts, ∀ o : OptionName, o.code = t.1 → WellFormed o.kind t.2

/-- The table of what the last value of each option means. -/
def Options.ofTriples (ts : List (UInt8 × Bytes)) : Options :=
  ⟨fun o => (lastValue o.code ts).bind fun bs => (OptionValue.read o.kind bs).toOption⟩

/-- The triples with an unknown code, as the code and the length of each. -/
def skippedOf (ts : List (UInt8 × Bytes)) : List SkippedOption :=
  (ts.filter fun t => ¬ OptionName.IsCode t.1).map fun t => ⟨t.1, UInt8.ofNat t.2.length⟩

/-- What has been read after some more triples. -/
def ReadOptions.after (r : ReadOptions) (ts : List (UInt8 × Bytes)) : ReadOptions where
  options := ⟨fun o => ((Options.ofTriples ts).get o).or (r.options.get o)⟩
  skipped := r.skipped ++ skippedOf ts

theorem readable_nil : Readable [] := fun _ h => absurd h List.not_mem_nil

theorem readable_cons {t : UInt8 × Bytes} {ts : List (UInt8 × Bytes)} :
    Readable (t :: ts) ↔
      (∀ o : OptionName, o.code = t.1 → WellFormed o.kind t.2) ∧ Readable ts := by
  unfold Readable
  simp only [List.forall_mem_cons]

/-- The last value of an option of readable triples is read. -/
theorem Readable.read_lastValue {ts : List (UInt8 × Bytes)} (h : Readable ts) {o : OptionName}
    {bs : Bytes} (hbs : lastValue o.code ts = some bs) :
    ∃ v, OptionValue.read o.kind bs = .ok v := by
  have hwf := h _ (mem_of_lastValue hbs) o rfl
  exact (wellFormed_iff_read o.kind bs).mp hwf

namespace ReadOptions

@[simp] theorem after_nil (r : ReadOptions) : r.after [] = r := by
  obtain ⟨options, skipped⟩ := r
  simp [after, skippedOf, Options.ofTriples]

theorem add_unknown (r : ReadOptions) {t : Triple} (h : ¬ OptionName.IsCode t.code) :
    r.add t = .ok { r with skipped := r.skipped ++ [⟨t.code, UInt8.ofNat t.value.length⟩] } := by
  have hnone : OptionName.ofCode? t.code = none := by
    rwa [OptionName.isCode_iff, Bool.not_eq_true, Option.isSome_eq_false_iff,
      Option.isNone_iff_eq_none] at h
  unfold add
  rw [hnone]

theorem add_known (r : ReadOptions) {t : Triple} {o : OptionName} (h : o.code = t.code) :
    r.add t =
      match OptionValue.read o.kind t.value with
      | .ok value => .ok { r with options := r.options.set o value }
      | .error fault => .error (.option t.offset t.code fault) := by
  have hcode : OptionName.ofCode? t.code = some o := by rw [← h, OptionName.ofCode?_code]
  unfold add
  cases hread : OptionValue.read o.kind t.value <;> simp only [hcode, hread]

/-- One more triple with an unknown code only adds to the skipped ones. -/
theorem after_unknown (r : ReadOptions) {code : UInt8} {value : Bytes}
    (h : ¬ OptionName.IsCode code) (ts : List (UInt8 × Bytes)) :
    r.after ((code, value) :: ts) =
      { r with skipped := r.skipped ++ [⟨code, UInt8.ofNat value.length⟩] : ReadOptions }.after
        ts := by
  have hopts : Options.ofTriples ((code, value) :: ts) = Options.ofTriples ts := by
    apply Options.ext
    intro o
    have hne : code ≠ o.code := fun he => h ⟨o, he.symm⟩
    unfold Options.ofTriples
    simp only [lastValue_cons]
    rw [if_neg hne, Option.or_none]
  unfold after
  rw [hopts]
  simp [skippedOf, h]

/-- One more triple of an option sets its value, unless a later triple sets it again. -/
theorem after_known (r : ReadOptions) {o : OptionName} {bs : Bytes} {v : o.kind.Value}
    (hv : OptionValue.read o.kind bs = .ok v) {ts : List (UInt8 × Bytes)} (hts : Readable ts) :
    r.after ((o.code, bs) :: ts) = { r with options := r.options.set o v : ReadOptions }.after ts := by
  have hskip : skippedOf ((o.code, bs) :: ts) = skippedOf ts := by
    have : OptionName.IsCode o.code := ⟨o, rfl⟩
    simp [skippedOf, this]
  unfold after
  rw [hskip]
  congr 1
  apply Options.ext
  intro p
  simp only [Options.ofTriples, lastValue_cons]
  cases hl : lastValue p.code ts with
  | some cs =>
    obtain ⟨w, hw⟩ := hts.read_lastValue hl
    simp [hw, Except.toOption]
  | none =>
    by_cases hp : p = o
    · subst hp
      simp [hv, Except.toOption]
    · have hne : o.code ≠ p.code := fun he => hp (OptionName.code_injective he.symm)
      simp [hne, Options.get_set_ne r.options v hp]

/-- Readable triples can be taken in one by one. -/
theorem after_cons (r : ReadOptions) {t : UInt8 × Bytes} {ts : List (UInt8 × Bytes)}
    (h : Readable (t :: ts)) : r.after (t :: ts) = (r.after [t]).after ts := by
  obtain ⟨code, bs⟩ := t
  obtain ⟨ht, hts⟩ := readable_cons.mp h
  by_cases hcode : OptionName.IsCode code
  · obtain ⟨o, rfl⟩ := hcode
    obtain ⟨v, hv⟩ := (wellFormed_iff_read o.kind bs).mp (ht o rfl)
    rw [after_known r hv hts, after_known r hv readable_nil, after_nil]
  · rw [after_unknown r hcode, after_unknown r hcode, after_nil]

/-- A triple is taken in exactly where it is readable. -/
theorem add_eq_ok (r r' : ReadOptions) (t : Triple) :
    r.add t = .ok r' ↔
      (∀ o : OptionName, o.code = t.code → WellFormed o.kind t.value) ∧
        r' = r.after [(t.code, t.value)] := by
  by_cases hcode : OptionName.IsCode t.code
  · obtain ⟨o, ho⟩ := hcode
    have honly : (∀ p : OptionName, p.code = t.code → WellFormed p.kind t.value) ↔
        ∃ v, OptionValue.read o.kind t.value = .ok v := by
      rw [← wellFormed_iff_read]
      refine ⟨fun h => h o ho, ?_⟩
      intro h p hp
      rw [OptionName.code_injective (hp.trans ho.symm)]
      exact h
    rw [add_known r ho, honly]
    cases hread : OptionValue.read o.kind t.value with
    | error fault => simp
    | ok v =>
      rw [← ho, after_known r hread readable_nil, after_nil]
      simp [eq_comm]
  · have hvac : ∀ p : OptionName, p.code = t.code → WellFormed p.kind t.value :=
      fun p hp => absurd ⟨p, hp⟩ hcode
    rw [add_unknown r hcode, after_unknown r hcode, after_nil, Except.ok.injEq]
    refine ⟨fun h => ⟨hvac, h.symm⟩, fun h => h.2.symm⟩

/-- Triples are taken in exactly where all of them are readable, and then all of them count. -/
theorem foldlM_add (triples : List Triple) (r r' : ReadOptions) :
    triples.foldlM add r = .ok r' ↔
      Readable (triples.map fun t => (t.code, t.value)) ∧
        r' = r.after (triples.map fun t => (t.code, t.value)) := by
  induction triples generalizing r with
  | nil =>
    rw [List.foldlM_nil, List.map_nil, after_nil]
    refine ⟨?_, ?_⟩
    · intro h
      cases h
      exact ⟨readable_nil, rfl⟩
    · intro h
      rw [h.2]
      rfl
  | cons t triples ih =>
    rw [List.foldlM_cons, bind_eq_ok, List.map_cons]
    refine ⟨?_, ?_⟩
    · intro h
      obtain ⟨next, hadd, hrest⟩ := h
      obtain ⟨ht, rfl⟩ := (add_eq_ok r next t).mp hadd
      obtain ⟨hts, rfl⟩ := (ih _).mp hrest
      have hall : Readable ((t.code, t.value) :: _) := readable_cons.mpr ⟨ht, hts⟩
      exact ⟨hall, (after_cons r hall).symm⟩
    · intro h
      obtain ⟨hall, rfl⟩ := h
      obtain ⟨ht, hts⟩ := readable_cons.mp hall
      exact ⟨_, (add_eq_ok r _ t).mpr ⟨ht, rfl⟩, (ih _).mpr ⟨hts, after_cons r hall⟩⟩

end ReadOptions

/-- The options of an area are read exactly where the area is laid out as readable triples. -/
theorem Area.options_eq_ok (offset : Nat) (bs : Bytes) (r : ReadOptions) :
    (Area.read offset bs).options = .ok r ↔
      ∃ ts, Layout bs ts ∧ Readable ts ∧ r = ReadOptions.after {} ts := by
  have hlayout := Area.layout_iff_read offset bs
  unfold Area.options
  rw [bind_eq_ok]
  refine ⟨?_, ?_⟩
  · intro h
    obtain ⟨r', hfold, h⟩ := h
    obtain ⟨hread, rfl⟩ := (ReadOptions.foldlM_add _ _ _).mp hfold
    cases hf : (Area.read offset bs).fault with
    | some e =>
      rw [hf] at h
      cases h
    | none =>
      rw [hf] at h
      cases h
      exact ⟨_, (hlayout _).mpr ⟨hf, rfl⟩, hread, rfl⟩
  · intro h
    obtain ⟨ts, hts, hread, rfl⟩ := h
    obtain ⟨hf, rfl⟩ := (hlayout ts).mp hts
    refine ⟨_, (ReadOptions.foldlM_add _ _ _).mpr ⟨hread, rfl⟩, ?_⟩
    split
    · next e he =>
      rw [hf] at he
      cases he
    · rfl

/-! ## Packets -/

/-- The bytes are a packet whose options are these triples. -/
structure IsPacket (p : Bytes) (ts : List (UInt8 × Bytes)) : Prop where
  header : headerLength ≤ p.length
  hlen : ∀ hlen : UInt8, p[2]? = some hlen → hlen.toNat ≤ hardwareFieldLength
  area : Layout (p.drop headerLength) ts
  values : Readable ts

/-- The message of a packet with these triples. -/
def Message.ofPacket (p : Bytes) (ts : List (UInt8 × Bytes)) : Message :=
  { Message.ofHeader p with options := Options.ofTriples ts, skipped := skippedOf ts }

theorem ReadOptions.after_empty (ts : List (UInt8 × Bytes)) :
    ReadOptions.after {} ts = ⟨Options.ofTriples ts, skippedOf ts⟩ := by
  simp [ReadOptions.after]

/-- The reader of packets without its notation for errors. -/
theorem Message.decode_eq (p : Bytes) :
    Message.decode p =
      if p.length < headerLength then .error (.tooShort p.length)
      else if hardwareFieldLength < (p.byteAt 2).toNat then .error (.hardwareLength (p.byteAt 2))
      else
        match (Area.read headerLength (p.drop headerLength)).options with
        | .error e => .error e
        | .ok r => .ok { Message.ofHeader p with options := r.options, skipped := r.skipped } := by
  unfold Message.decode
  split
  · rfl
  · split
    · rfl
    · cases (Area.read headerLength (p.drop headerLength)).options <;> rfl

/-- A packet is read exactly where it is one, and every part of its message is fixed. -/
theorem Message.decode_eq_ok (p : Bytes) (m : Message) :
    Message.decode p = .ok m ↔ ∃ ts, IsPacket p ts ∧ m = Message.ofPacket p ts := by
  rw [Message.decode_eq]
  split
  · next hshort =>
    refine ⟨?_, ?_⟩
    · intro h
      cases h
    · rintro ⟨ts, hp, _⟩
      have := hp.header
      omega
  next hlong =>
  have hbyte : p[2]? = some (p.byteAt 2) := by
    have : headerLength = 240 := rfl
    unfold Bytes.byteAt
    rw [List.getElem?_eq_getElem (by omega)]
    rfl
  split
  · next hwide =>
    refine ⟨?_, ?_⟩
    · intro h
      cases h
    · rintro ⟨ts, hp, _⟩
      have := hp.hlen _ hbyte
      omega
  next hfits =>
  have hoptions := Area.options_eq_ok headerLength (p.drop headerLength)
  cases ho : (Area.read headerLength (p.drop headerLength)).options with
  | error e =>
    refine ⟨?_, ?_⟩
    · intro h
      cases h
    · rintro ⟨ts, hp, _⟩
      rw [(hoptions _).mpr ⟨ts, hp.area, hp.values, rfl⟩] at ho
      cases ho
  | ok r =>
    refine ⟨?_, ?_⟩
    · intro h
      cases h
      obtain ⟨ts, harea, hvalues, rfl⟩ := (hoptions r).mp ho
      refine ⟨ts, ⟨by omega, ?_, harea, hvalues⟩, by rw [ReadOptions.after_empty]; rfl⟩
      intro hlen hh
      rw [hbyte] at hh
      cases hh
      omega
    · rintro ⟨ts, hp, rfl⟩
      rw [(hoptions _).mpr ⟨ts, hp.area, hp.values, rfl⟩] at ho
      cases ho
      rw [ReadOptions.after_empty]
      rfl

/-! ## What a packet says -/

/-- The message says what the packet says: each field of the header stands at its place of
RFC 2131 with the most significant byte first, each option has the meaning of the last triple with
its code, and the triples with unknown codes are listed in order. -/
structure PacketSays (p : Bytes) (ts : List (UInt8 × Bytes)) (m : Message) : Prop where
  op : ∀ op, m.op = some op ↔ p[0]? = some op.code
  kind : ∀ t, m.chaddr.kind = some t ↔ p[1]? = some t.code
  hlen : p[2]? = some m.hlen
  hops : p[3]? = some m.hops
  xid : m.xid.toNat = (p.slice 4 4).toNat
  secs : m.secs.toNat = (p.slice 8 2).toNat
  flags : m.flags.toNat = (p.slice 10 2).toNat
  ciaddr : ∀ ip, m.ciaddr = some ip ↔ p.slice 12 4 = ip.octets ∧ ip ≠ Ipv4.unspecified
  yiaddr : ∀ ip, m.yiaddr = some ip ↔ p.slice 16 4 = ip.octets ∧ ip ≠ Ipv4.unspecified
  siaddr : ∀ ip, m.siaddr = some ip ↔ p.slice 20 4 = ip.octets ∧ ip ≠ Ipv4.unspecified
  giaddr : ∀ ip, m.giaddr = some ip ↔ p.slice 24 4 = ip.octets ∧ ip ≠ Ipv4.unspecified
  chaddr : m.chaddr.text.toList = Text.colonHex (p.slice 28 m.hlen.toNat)
  sname : m.sname = lossy (p.slice 44 64).untilZero
  fname : m.fname = lossy (p.slice 108 128).untilZero
  magic : m.magic.toNat = (p.slice 236 4).toNat
  options : ∀ o v, m.options.get o = some v ↔
    ∃ bs, lastValue o.code ts = some bs ∧ Denotes o.kind bs v
  skipped : (m.skipped.map fun s => (s.code, s.length.toNat)) =
    (ts.filter fun t => ¬ OptionName.IsCode t.1).map fun t => (t.1, t.2.length)

/-- A packet says one message only. -/
theorem PacketSays.unique {p : Bytes} {ts : List (UInt8 × Bytes)} {m m' : Message}
    (h : PacketSays p ts m) (h' : PacketSays p ts m') : m = m' := by
  have hop : m.op = m'.op := Option.ext fun op => (h.op op).trans (h'.op op).symm
  have hkind : m.chaddr.kind = m'.chaddr.kind :=
    Option.ext fun t => (h.kind t).trans (h'.kind t).symm
  have hhlen : m.hlen = m'.hlen := Option.some.inj (h.hlen.symm.trans h'.hlen)
  have hhops : m.hops = m'.hops := Option.some.inj (h.hops.symm.trans h'.hops)
  have hxid : m.xid = m'.xid := UInt32.toNat_inj.mp (h.xid.trans h'.xid.symm)
  have hsecs : m.secs = m'.secs := UInt16.toNat_inj.mp (h.secs.trans h'.secs.symm)
  have hflags : m.flags = m'.flags := UInt16.toNat_inj.mp (h.flags.trans h'.flags.symm)
  have hci : m.ciaddr = m'.ciaddr := Option.ext fun ip => (h.ciaddr ip).trans (h'.ciaddr ip).symm
  have hyi : m.yiaddr = m'.yiaddr := Option.ext fun ip => (h.yiaddr ip).trans (h'.yiaddr ip).symm
  have hsi : m.siaddr = m'.siaddr := Option.ext fun ip => (h.siaddr ip).trans (h'.siaddr ip).symm
  have hgi : m.giaddr = m'.giaddr := Option.ext fun ip => (h.giaddr ip).trans (h'.giaddr ip).symm
  have htext : m.chaddr.text = m'.chaddr.text := by
    apply String.toList_injective
    rw [h.chaddr, h'.chaddr, hhlen]
  have hsname : m.sname = m'.sname := h.sname.trans h'.sname.symm
  have hfname : m.fname = m'.fname := h.fname.trans h'.fname.symm
  have hmagic : m.magic = m'.magic := UInt32.toNat_inj.mp (h.magic.trans h'.magic.symm)
  have hoptions : m.options = m'.options :=
    Options.ext fun o => Option.ext fun v => (h.options o v).trans (h'.options o v).symm
  have hskipped : m.skipped = m'.skipped := by
    refine (List.map_inj_right ?_).mp (h.skipped.trans h'.skipped.symm)
    rintro ⟨code, length⟩ ⟨code', length'⟩ heq
    simp only [Prod.mk.injEq] at heq
    rw [heq.1, UInt8.toNat_inj.mp heq.2]
  have hchaddr : m.chaddr = m'.chaddr := by
    generalize m.chaddr = a at hkind htext ⊢
    obtain ⟨kind, text⟩ := a
    simp only at hkind htext
    rw [hkind, htext]
  obtain ⟨⟩ := m
  obtain ⟨⟩ := m'
  simp_all only

/-! ### The header of the message that is read -/

theorem Bytes.getElem?_of_lt {p : Bytes} {i : Nat} (h : i < p.length) :
    p[i]? = some (p.byteAt i) := by
  unfold Bytes.byteAt
  rw [List.getElem?_eq_getElem h]
  rfl

/-- A number in a few bytes is below what they can hold. -/
theorem Bytes.toNat_slice_lt (p : Bytes) (start width : Nat) :
    (p.slice start width).toNat < capacity width := by
  have hlen : (p.slice start width).length ≤ width := by
    unfold Bytes.slice
    exact List.length_take_le _ _
  exact Nat.lt_of_lt_of_le (Bytes.toNat_lt _) (capacity_mono hlen)

theorem Bytes.addressAt_eq_some {p : Bytes} {start : Nat} {ip : Ipv4} :
    p.addressAt start = some ip ↔ p.slice start 4 = ip.octets ∧ ip ≠ Ipv4.unspecified := by
  unfold Bytes.addressAt Ipv4.unlessUnspecified
  rw [Option.bind_eq_some_iff]
  refine ⟨?_, ?_⟩
  · rintro ⟨a, ha, h⟩
    split at h
    · cases h
    · next hne =>
      cases h
      exact ⟨Ipv4.ofOctets?_eq_some.mp ha, hne⟩
  · rintro ⟨hslice, hne⟩
    exact ⟨ip, Ipv4.ofOctets?_eq_some.mpr hslice, if_neg hne⟩

theorem Options.get_ofTriples_eq_some {ts : List (UInt8 × Bytes)} {o : OptionName}
    {v : o.kind.Value} :
    (Options.ofTriples ts).get o = some v ↔
      ∃ bs, lastValue o.code ts = some bs ∧ Denotes o.kind bs v := by
  unfold Options.ofTriples
  simp only [Option.bind_eq_some_iff]
  refine exists_congr fun bs => and_congr_right fun _ => ?_
  rw [← read_eq_ok_iff]
  cases OptionValue.read o.kind bs <;> simp [Except.toOption]

/-- The message that is read from a packet says what the packet says. -/
theorem IsPacket.says {p : Bytes} {ts : List (UInt8 × Bytes)} (h : IsPacket p ts) :
    PacketSays p ts (Message.ofPacket p ts) := by
  have hlen : 240 ≤ p.length := h.header
  have hbyte : ∀ i < 4, p[i]? = some (p.byteAt i) := fun i hi => Bytes.getElem?_of_lt (by omega)
  constructor
  case op =>
    intro op
    rw [hbyte 0 (by omega), Option.some.injEq]
    exact BootpOp.ofCode?_eq_some
  case kind =>
    intro t
    rw [hbyte 1 (by omega), Option.some.injEq]
    exact HardwareType.ofCode?_eq_some
  case hlen => exact hbyte 2 (by omega)
  case hops => exact hbyte 3 (by omega)
  case xid => exact UInt32.toNat_ofNat_of_lt' (Bytes.toNat_slice_lt p 4 4)
  case secs => exact UInt16.toNat_ofNat_of_lt' (Bytes.toNat_slice_lt p 8 2)
  case flags => exact UInt16.toNat_ofNat_of_lt' (Bytes.toNat_slice_lt p 10 2)
  case ciaddr => exact fun ip => Bytes.addressAt_eq_some
  case yiaddr => exact fun ip => Bytes.addressAt_eq_some
  case siaddr => exact fun ip => Bytes.addressAt_eq_some
  case giaddr => exact fun ip => Bytes.addressAt_eq_some
  case chaddr => exact String.toList_ofList
  case sname => rfl
  case fname => rfl
  case magic => exact UInt32.toNat_ofNat_of_lt' (Bytes.toNat_slice_lt p 236 4)
  case options => exact fun o v => Options.get_ofTriples_eq_some
  case skipped =>
    show (skippedOf ts).map _ = _
    unfold skippedOf
    rw [List.map_map]
    apply List.map_congr_left
    intro t ht
    have htriple := h.area.isTriple t (List.mem_filter.mp ht).1
    have hle := htriple.length_le
    simp only [Function.comp_apply, Prod.mk.injEq, true_and]
    rw [UInt8.toNat_ofNat', Nat.mod_eq_of_lt (by omega)]

/-! ### The header alone -/

theorem Bytes.byteAt_take (p : Bytes) {n i : Nat} (h : i < n) :
    Bytes.byteAt (p.take n) i = p.byteAt i := by
  unfold Bytes.byteAt
  rw [List.getElem?_take_of_lt h]

theorem Bytes.slice_take (p : Bytes) {n start width : Nat} (h : start + width ≤ n) :
    Bytes.slice (p.take n) start width = p.slice start width := by
  unfold Bytes.slice
  rw [List.drop_take, List.take_take, Nat.min_eq_left (by omega)]

/-- What stands after the header plays no part in its fields. -/
theorem Message.ofHeader_take {p : Bytes} (h : (p.byteAt 2).toNat ≤ hardwareFieldLength) :
    Message.ofHeader (p.take headerLength) = Message.ofHeader p := by
  have hwhole : headerLength = 240 := rfl
  have hfield : hardwareFieldLength = 16 := rfl
  unfold Message.ofHeader Bytes.addressAt Bytes.textAt
  simp (disch := omega) only [Bytes.byteAt_take, Bytes.slice_take]

/-- With other options after the same header, bytes are a packet with the same fields. -/
theorem IsPacket.with_options {p q : Bytes} {ts us : List (UInt8 × Bytes)} (h : IsPacket p ts)
    (hheader : q.take headerLength = p.take headerLength)
    (harea : Layout (q.drop headerLength) us) (hvalues : Readable us) :
    IsPacket q us ∧ Message.ofHeader q = Message.ofHeader p := by
  have hwhole : headerLength = 240 := rfl
  have hlong := h.header
  have hlongq : headerLength ≤ q.length := by
    have hlen := congrArg List.length hheader
    rw [List.length_take, List.length_take] at hlen
    omega
  have hbyte : q.byteAt 2 = p.byteAt 2 := by
    rw [← Bytes.byteAt_take q (show 2 < headerLength by omega), hheader,
      Bytes.byteAt_take p (by omega)]
  have hhlen : (p.byteAt 2).toNat ≤ hardwareFieldLength :=
    h.hlen _ (Bytes.getElem?_of_lt (by omega))
  refine ⟨⟨hlongq, ?_, harea, hvalues⟩, ?_⟩
  · intro hlen hat
    rw [Bytes.getElem?_of_lt (by omega), hbyte, Option.some.injEq] at hat
    rwa [← hat]
  · rw [← Message.ofHeader_take (hbyte ▸ hhlen), hheader, Message.ofHeader_take hhlen]

/-- A packet is read exactly where the grammar derives it, and then its message is the one that
says what the last triple of each option means and what stands in the header. -/
theorem decode_iff_grammar (p : Bytes) :
    ((∃ m, Message.decode p = .ok m) ↔ ∃ ts, IsPacket p ts) ∧
      ∀ m, Message.decode p = .ok m ↔ ∃ ts, IsPacket p ts ∧ PacketSays p ts m := by
  have hok := Message.decode_eq_ok p
  refine ⟨?_, ?_⟩
  · refine ⟨?_, ?_⟩
    · rintro ⟨m, hm⟩
      obtain ⟨ts, hts, _⟩ := (hok m).mp hm
      exact ⟨ts, hts⟩
    · rintro ⟨ts, hts⟩
      exact ⟨_, (hok _).mpr ⟨ts, hts, rfl⟩⟩
  · intro m
    rw [hok m]
    refine exists_congr fun ts => and_congr_right fun hts => ?_
    refine ⟨?_, ?_⟩
    · rintro rfl
      exact hts.says
    · intro hm
      exact hm.unique hts.says

end NetBoot
