-- Where the options of a packet are refused: at the first option that is wrong. All that stands
-- before it is whole and can be read, so that the packet cut there is read.
import NetBoot.Proofs.Packet.Indices

namespace NetBoot

/-! ## What stands before a fault -/

/-- The bytes are padding and the triples in order, each with its whole value, and no end code. -/
inductive WholeTriples : Bytes → List (UInt8 × Bytes) → Prop
  | none : WholeTriples [] []
  | pad {bs : Bytes} {ts : List (UInt8 × Bytes)} :
    WholeTriples bs ts → WholeTriples (padCode :: bs) ts
  | triple {code len : UInt8} {value bs : Bytes} {ts : List (UInt8 × Bytes)} :
    code ≠ padCode → code ≠ endCode → value.length = len.toNat → WholeTriples bs ts →
    WholeTriples (code :: len :: (value ++ bs)) ((code, value) :: ts)

/-- Whole triples are laid out in front of whatever comes next. -/
theorem WholeTriples.layout_append {front rest : Bytes} {ts us : List (UInt8 × Bytes)}
    (h : WholeTriples front ts) (hrest : Layout rest us) : Layout (front ++ rest) (ts ++ us) := by
  induction h with
  | none => exact hrest
  | pad _ ih => exact Layout.pad ih
  | triple h0 h1 hlen _ ih =>
    rw [List.cons_append, List.cons_append, List.append_assoc]
    exact Layout.triple h0 h1 hlen ih

/-- They are laid out at the end of the bytes too. -/
theorem WholeTriples.layout {front : Bytes} {ts : List (UInt8 × Bytes)}
    (h : WholeTriples front ts) : Layout front ts := by
  simpa using h.layout_append Layout.finished

/-- An end code ends them, whatever stands after it. -/
theorem WholeTriples.layout_end {front : Bytes} {ts : List (UInt8 × Bytes)}
    (h : WholeTriples front ts) (rest : Bytes) : Layout (front ++ endCode :: rest) ts := by
  simpa using h.layout_append (Layout.ended rest)

/-- An area with a wrong option: readable triples stand before it, and the error names its place
and its code. -/
structure FirstWrong (bs : Bytes) (offset : Nat) (e : DecodeError) (front : Bytes)
    (ts : List (UInt8 × Bytes)) (code : UInt8) : Prop where
  whole : WholeTriples front ts
  readable : Readable ts
  stands : ∃ back, bs = front ++ code :: back
  not_pad : code ≠ padCode
  not_end : code ≠ endCode
  error : ∃ fault, e = .option (offset + front.length) code fault

section FirstWrong

variable {bs front : Bytes} {offset : Nat} {e : DecodeError} {ts : List (UInt8 × Bytes)}
  {code : UInt8}

theorem FirstWrong.here (h0 : code ≠ padCode) (h1 : code ≠ endCode) (back : Bytes)
    (fault : OptionFault) :
    FirstWrong (code :: back) offset (.option offset code fault) [] [] code :=
  ⟨.none, readable_nil, ⟨back, rfl⟩, h0, h1, fault, rfl⟩

theorem FirstWrong.pad (h : FirstWrong bs (offset + 1) e front ts code) :
    FirstWrong (padCode :: bs) offset e (padCode :: front) ts code := by
  obtain ⟨back, rfl⟩ := h.stands
  obtain ⟨fault, rfl⟩ := h.error
  refine ⟨.pad h.whole, h.readable, ⟨back, rfl⟩, h.not_pad, h.not_end, fault, ?_⟩
  rw [List.length_cons]
  congr 1
  omega

theorem FirstWrong.triple {c len : UInt8} {value : Bytes} (h0 : c ≠ padCode) (h1 : c ≠ endCode)
    (hlen : value.length = len.toNat)
    (hvalue : ∀ o : OptionName, o.code = c → OptionValue.WellFormed o.kind value)
    (h : FirstWrong bs (offset + 2 + len.toNat) e front ts code) :
    FirstWrong (c :: len :: (value ++ bs)) offset e (c :: len :: (value ++ front))
      ((c, value) :: ts) code := by
  obtain ⟨back, rfl⟩ := h.stands
  obtain ⟨fault, rfl⟩ := h.error
  refine ⟨.triple h0 h1 hlen h.whole, readable_cons.mpr ⟨hvalue, h.readable⟩, ⟨back, by simp⟩,
    h.not_pad, h.not_end, fault, ?_⟩
  simp only [List.length_cons, List.length_append]
  congr 1
  omega

end FirstWrong

theorem ReadOptions.add_eq_error {r : ReadOptions} {t : Triple} {e : DecodeError}
    (h : r.add t = .error e) : ∃ fault, e = .option t.offset t.code fault := by
  unfold add at h
  split at h
  · cases h
  · split at h
    · cases h
    · next fault _ =>
      cases h
      exact ⟨fault, rfl⟩

/-- Options are refused for the first wrong one, whichever were taken in before. -/
theorem Area.firstWrong_of_error {bs : Bytes} {offset : Nat} {r : ReadOptions} {e : DecodeError}
    (h : foldTriples ReadOptions.add AreaEnd.decodeError r (read offset bs) = .error e) :
    ∃ front ts code, FirstWrong bs offset e front ts code := by
  -- the walk goes from triple to triple, each of which is taken in or is the wrong one
  induction bs using byFront generalizing offset r with
  | nil => cases h
  | ended rest =>
    rw [read_end] at h
    cases h
  | pad rest ih =>
    rw [read_pad] at h
    obtain ⟨front, ts, code, hwrong⟩ := ih h
    exact ⟨_, ts, code, hwrong.pad⟩
  | lengthMissing code h0 h1 =>
    rw [read_lengthMissing offset h0 h1] at h
    cases h
    exact ⟨[], [], code, .here h0 h1 _ _⟩
  | cutShort code len cut h0 h1 hshort =>
    rw [read_cutShort offset h0 h1 hshort] at h
    cases h
    exact ⟨[], [], code, .here h0 h1 _ _⟩
  | triple code len value rest h0 h1 hlen ih =>
    rw [read_triple_append offset rest h0 h1 hlen, foldTriples_cons] at h
    cases hadd : r.add ⟨offset, code, value⟩ with
    | error e' =>
      rw [hadd] at h
      cases h
      obtain ⟨fault, rfl⟩ := ReadOptions.add_eq_error hadd
      exact ⟨[], [], code, .here h0 h1 _ fault⟩
    | ok r' =>
      rw [hadd] at h
      obtain ⟨front, ts, wrong, hwrong⟩ := ih h
      obtain ⟨hvalue, _⟩ := (ReadOptions.add_eq_ok r r' _).mp hadd
      exact ⟨_, _, wrong, hwrong.triple h0 h1 hlen hvalue⟩

/-! ## Packets -/

/-- A packet that is refused for an option has a whole header before its options. -/
theorem Message.decode_eq_option {p : Bytes} {offset : Nat} {code : UInt8} {fault : OptionFault}
    (h : Message.decode p = .error (.option offset code fault)) :
    headerLength ≤ p.length ∧ (p.byteAt 2).toNat ≤ hardwareFieldLength ∧
      (Area.read headerLength (p.drop headerLength)).options =
        .error (.option offset code fault) := by
  rw [Message.decode_eq] at h
  split at h
  · cases h
  next hlong =>
  split at h
  · cases h
  next hfits =>
  refine ⟨by omega, by omega, ?_⟩
  split at h
  · next e he =>
    cases h
    exact he
  · cases h

theorem drop_take_of_drop_eq {p front back : Bytes} {n : Nat} (h : p.drop n = front ++ back) :
    (p.take (n + front.length)).drop n = front := by
  rw [List.drop_take, Nat.add_sub_cancel_left, h, List.take_left]

/-- The bytes up to the first wrong option are a packet. -/
theorem FirstWrong.isPacket_take {p front : Bytes} {e : DecodeError} {ts : List (UInt8 × Bytes)}
    {code : UInt8} (h : FirstWrong (p.drop headerLength) headerLength e front ts code)
    (hlong : headerLength ≤ p.length) (hhlen : (p.byteAt 2).toNat ≤ hardwareFieldLength) :
    IsPacket (p.take (headerLength + front.length)) ts := by
  have hwhole : headerLength = 240 := rfl
  obtain ⟨back, hback⟩ := h.stands
  constructor
  case header =>
    rw [List.length_take]
    omega
  case hlen =>
    intro hlen hat
    rw [List.getElem?_take_of_lt (by omega), Bytes.getElem?_of_lt (by omega),
      Option.some.injEq] at hat
    rwa [← hat]
  case area =>
    rw [drop_take_of_drop_eq hback]
    exact h.whole.layout
  case values => exact h.readable

/-- A packet that goes on with an end code where another one is cut says the same. -/
theorem IsPacket.decode_of_end {p q front : Bytes} {ts : List (UInt8 × Bytes)}
    (hp : IsPacket p ts) (hfront : p.drop headerLength = front) (hwhole : WholeTriples front ts)
    (hq : q.take (headerLength + front.length) = p)
    (hend : q[headerLength + front.length]? = some endCode) :
    Message.decode q = .ok (Message.ofPacket p ts) := by
  have hheader : q.take headerLength = p.take headerLength := by
    rw [← hq, List.take_take, Nat.min_eq_left (by omega)]
  have hfirst : (q.drop headerLength).take front.length = front := by
    have hcut := congrArg (List.drop headerLength) hq
    rwa [List.drop_take, Nat.add_sub_cancel_left, hfront] at hcut
  obtain ⟨hlt, hat⟩ := List.getElem?_eq_some_iff.mp hend
  have hrest : q.drop headerLength =
      front ++ endCode :: q.drop (headerLength + front.length + 1) := by
    have hsplit := List.take_append_drop front.length (q.drop headerLength)
    rw [hfirst, List.drop_drop] at hsplit
    rw [← hat, List.getElem_cons_drop, hsplit]
  obtain ⟨hpacket, hfields⟩ :=
    hp.with_options hheader (hrest ▸ hwhole.layout_end _) hp.values
  refine (Message.decode_eq_ok q _).mpr ⟨ts, hpacket, ?_⟩
  simp only [Message.ofPacket, hfields]

/-- An error of an option names the first wrong option of the packet: it stands at the offset, with
the code, and the packet is read if it is cut there or ended there. Reading the options of any
bytes, and the vendor table of any bytes, stays within the bytes at every index, and no difference
is below zero. -/
theorem option_errors_name_the_first_wrong_option :
    (∀ (p : Bytes) (offset : Nat) (code : UInt8) (fault : OptionFault),
      Message.decode p = .error (.option offset code fault) →
        headerLength ≤ offset ∧ offset < p.length ∧ p[offset]? = some code ∧
          code ≠ padCode ∧ code ≠ endCode ∧
          ∃ m, Message.decode (p.take offset) = .ok m ∧
            ∀ q : Bytes, q.take offset = p.take offset → q[offset]? = some endCode →
              Message.decode q = .ok m) ∧
    (∀ bs, optionsByIndex bs = some (Area.read headerLength bs).options) ∧
      ∀ bs, OptionValue.readVendorTableByIndex bs = some (OptionValue.readVendorTable bs) := by
  refine ⟨?_, optionsByIndex_eq, OptionValue.readByIndex_eq .vendorTable⟩
  intro p offset code fault h
  obtain ⟨hlong, hhlen, hoptions⟩ := Message.decode_eq_option h
  obtain ⟨front, ts, wrong, hwrong⟩ := Area.firstWrong_of_error hoptions
  obtain ⟨fault', herror⟩ := hwrong.error
  cases herror
  obtain ⟨back, hback⟩ := hwrong.stands
  have hat : p[headerLength + front.length]? = some code := by
    rw [← List.getElem?_drop, hback]
    simp
  have hcut := hwrong.isPacket_take hlong hhlen
  refine ⟨Nat.le_add_right _ _, (List.getElem?_eq_some_iff.mp hat).1, hat, hwrong.not_pad,
    hwrong.not_end, Message.ofPacket _ ts, (Message.decode_eq_ok _ _).mpr ⟨ts, hcut, rfl⟩, ?_⟩
  intro q hq hend
  exact hcut.decode_of_end (drop_take_of_drop_eq hback) hwrong.whole hq hend

/-- A request with a host name, padding, an option without a meaning and a vendor table that is cut
short inside. -/
def cutShortPacket : Bytes :=
  [1, 1, 6] ++ List.replicate 237 0 ++ [12, 1, 0x61, 0, 200, 1, 7, 43, 3, 1, 9, 5, 53, 1, 1, 255]

/-- The same up to the vendor table, with an end code instead of it. -/
def endedPacket : Bytes := cutShortPacket.take 247 ++ [255, 43, 3, 1]

/-- The error names the option that holds the vendor table, and what stands before it is read. -/
theorem cut_short_vendor_table_is_named :
    Message.decode cutShortPacket = .error (.option 247 43 (.vendorCutShort 1 9 1)) ∧
      cutShortPacket[247]? = some 43 ∧
      ∃ m, Message.decode (cutShortPacket.take 247) = .ok m ∧
        Message.decode endedPacket = .ok m ∧ m.options.get .hostName = some "a" ∧
        m.skipped = [⟨200, 1⟩] := by
  have herror : Message.decode cutShortPacket =
      .error (.option 247 43 (.vendorCutShort 1 9 1)) := by decide +kernel
  obtain ⟨_, _, hat, _, _, m, hcut, hended⟩ :=
    option_errors_name_the_first_wrong_option.1 _ _ _ _ herror
  have hsame : Message.decode endedPacket = .ok m :=
    hended endedPacket (by decide +kernel) (by decide +kernel)
  have hsays : (Message.decode (cutShortPacket.take 247)).toOption.map
      (fun m => (m.options.get .hostName, m.skipped)) = some (some "a", [⟨200, 1⟩]) := by
    decide +kernel
  rw [hcut, Except.toOption, Option.map_some, Option.some.injEq, Prod.mk.injEq] at hsays
  exact ⟨herror, hat, m, hcut, hsame, hsays.1, hsays.2⟩

end NetBoot
