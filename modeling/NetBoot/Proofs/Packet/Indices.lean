-- The readers of options with every index and every difference checked. A reader that goes by
-- index gives the values of the readers of areas and never reads outside its bytes.
import NetBoot.Proofs.Packet.Grammar

namespace NetBoot

/-! ## Checked reading -/

/-- The bytes from `start` up to `stop`, if these are two places of the bytes, in order. -/
def Bytes.range? (bs : Bytes) (start stop : Nat) : Option Bytes :=
  if start ≤ stop ∧ stop ≤ bs.length then some (bs.slice start (stop - start)) else none

/-- The difference of two numbers, if it is not below zero. -/
def difference? (m n : Nat) : Option Nat := if n ≤ m then some (m - n) else none

theorem Bytes.range?_of_le {bs : Bytes} {start stop : Nat} (h : start ≤ stop)
    (hstop : stop ≤ bs.length) : bs.range? start stop = some (bs.slice start (stop - start)) :=
  if_pos ⟨h, hstop⟩

theorem difference?_of_le {m n : Nat} (h : n ≤ m) : difference? m n = some (m - n) := if_pos h

/-! ## A walk over an area -/

namespace Area

variable {σ ε : Type}

/-- What a state becomes by the triples of an area, one after the other. The first fault counts,
and the fault of the area itself comes last. -/
def foldTriples (add : σ → Triple → Except ε σ) (fault : AreaEnd → ε) (s : σ) (area : Area) :
    Except ε σ := do
  let s ← area.triples.foldlM add s
  match area.fault with
  | some e => throw (fault e)
  | none => return s

/-- Goes over an area from the index `i` on, hands each triple to `take`, and stops at the first
fault. Offsets are counted from `base`. There is no result where the walk reads outside the bytes,
or where a difference is below zero. -/
def walk (take : σ → Triple → Option (Except ε σ)) (fault : AreaEnd → ε) (base : Nat) (bs : Bytes)
    (i : Nat) (s : σ) : Option (Except ε σ) :=
  if i < bs.length then do
    let code ← bs[i]?
    if code = padCode then walk take fault base bs (i + 1) s
    else if code = endCode then return .ok s
    else if bs.length ≤ i + 1 then return .error (fault ⟨base + i, code, .lengthMissing⟩)
    else
      let len ← bs[i + 1]?
      if bs.length < i + 2 + len.toNat then
        let rest ← difference? bs.length i
        let available ← difference? rest 2
        return .error (fault ⟨base + i, code, .cutShort len.toNat available⟩)
      else
        let value ← bs.range? (i + 2) (i + 2 + len.toNat)
        match ← take s ⟨base + i, code, value⟩ with
        | .error e => return .error e
        | .ok s => walk take fault base bs (i + 2 + len.toNat) s
  else return .ok s
termination_by bs.length - i

theorem foldTriples_cons (add : σ → Triple → Except ε σ) (fault : AreaEnd → ε) (s : σ) (t : Triple)
    (area : Area) :
    foldTriples add fault s (cons t area) =
      match add s t with
      | .error e => .error e
      | .ok s => foldTriples add fault s area := by
  unfold foldTriples
  rw [cons, List.foldlM_cons]
  cases add s t <;> rfl

theorem of_drop_eq_cons {bs rest : Bytes} {i : Nat} {b : UInt8} (h : bs.drop i = b :: rest) :
    i < bs.length ∧ bs[i]? = some b ∧ bs.drop (i + 1) = rest := by
  have hlt : i < bs.length := by
    apply Nat.lt_of_not_le
    intro hle
    rw [List.drop_of_length_le hle] at h
    cases h
  rw [List.drop_eq_getElem_cons hlt, List.cons.injEq] at h
  exact ⟨hlt, by rw [List.getElem?_eq_getElem hlt, h.1], h.2⟩

/-- The walk over an area never reads outside its bytes, and it gives what the triples of the area
give one by one. -/
theorem walk_eq_some {take : σ → Triple → Option (Except ε σ)} {add : σ → Triple → Except ε σ}
    (htake : ∀ s t, take s t = some (add s t)) (fault : AreaEnd → ε) (base : Nat) (bs : Bytes)
    (i : Nat) (s : σ) :
    walk take fault base bs i s =
      some (foldTriples add fault s (read (base + i) (bs.drop i))) := by
  -- by the shape of what stands at the index and after it
  generalize hrest : bs.drop i = rest
  induction rest using byFront generalizing i s with
  | nil =>
    have hend : bs.length ≤ i := List.drop_eq_nil_iff.mp hrest
    rw [walk, if_neg (by omega)]
    rfl
  | pad rest ih =>
    obtain ⟨hlt, hcode, hdrop⟩ := of_drop_eq_cons hrest
    rw [walk, if_pos hlt, hcode, read_pad]
    simpa [Nat.add_assoc] using ih (i + 1) s hdrop
  | ended rest =>
    obtain ⟨hlt, hcode, _⟩ := of_drop_eq_cons hrest
    rw [walk, if_pos hlt, hcode, read_end]
    rfl
  | lengthMissing code h0 h1 =>
    obtain ⟨hlt, hcode, hdrop⟩ := of_drop_eq_cons hrest
    have hend : bs.length ≤ i + 1 := List.drop_eq_nil_iff.mp hdrop
    rw [walk, if_pos hlt, hcode, read_lengthMissing _ h0 h1]
    simp only [Option.bind_eq_bind, Option.bind_some, if_neg h0, if_neg h1, if_pos hend]
    rfl
  | cutShort code len cut h0 h1 hshort =>
    obtain ⟨hlt, hcode, hdrop⟩ := of_drop_eq_cons hrest
    obtain ⟨hlt', hlen, hcut⟩ := of_drop_eq_cons hdrop
    have hlength : bs.length = i + 2 + cut.length := by
      rw [← hcut, List.length_drop]
      omega
    have hover : bs.length < i + 2 + len.toNat := by omega
    have havailable : bs.length - i - 2 = cut.length := by omega
    rw [walk, if_pos hlt, hcode, read_cutShort _ h0 h1 hshort]
    simp only [Option.bind_eq_bind, Option.bind_some, if_neg h0, if_neg h1,
      if_neg (Nat.not_le.mpr hlt'), hlen, if_pos hover,
      difference?_of_le (show i ≤ bs.length by omega),
      difference?_of_le (show 2 ≤ bs.length - i by omega), havailable]
    rfl
  | triple code len value rest h0 h1 hlen ih =>
    obtain ⟨hlt, hcode, hdrop⟩ := of_drop_eq_cons hrest
    obtain ⟨hlt', hat, hvalue⟩ := of_drop_eq_cons hdrop
    have hlength : bs.length = i + 2 + len.toNat + rest.length := by
      have := congrArg List.length hvalue
      rw [List.length_drop, List.length_append] at this
      omega
    have hrange : bs.range? (i + 2) (i + 2 + len.toNat) = some value := by
      rw [Bytes.range?_of_le (by omega) (by omega), Bytes.slice, hvalue,
        Nat.add_sub_cancel_left, List.take_left' hlen]
    have hnext : bs.drop (i + 2 + len.toNat) = rest := by
      rw [← List.drop_drop, hvalue, List.drop_left' hlen]
    rw [walk, if_pos hlt, hcode, read_triple_append _ _ h0 h1 hlen, foldTriples_cons]
    simp only [Option.bind_eq_bind, Option.bind_some, if_neg h0, if_neg h1,
      if_neg (Nat.not_le.mpr hlt'), hat, if_neg (show ¬ bs.length < i + 2 + len.toNat by omega),
      hrange, htake]
    cases add s ⟨base + i, code, value⟩ with
    | error e => rfl
    | ok s' => simpa [Nat.add_assoc] using ih (i + 2 + len.toNat) s' hnext

end Area

/-! ## The values of options -/

namespace OptionValue

/-- The address in the first four places. -/
def addressByIndex (bs : Bytes) : Option Ipv4 := do
  return ⟨← bs[0]?, ← bs[1]?, ← bs[2]?, ← bs[3]?⟩

/-- The bytes in pieces of four. A last piece that is not whole is left out. -/
def quarters (bs : Bytes) : List Bytes :=
  (List.range (bs.length / 4)).map fun n => bs.slice (4 * n) 4

def readAddressesByIndex (bs : Bytes) : Option (Except OptionFault (List Ipv4)) :=
  if bs = [] ∨ bs.length % 4 ≠ 0 then return .error (.addressListLength bs.length)
  else do return .ok (← (quarters bs).mapM addressByIndex)

def readClientNameByIndex (bs : Bytes) : Option (Except OptionFault ClientName) :=
  if bs.length < 3 then return .error (.shortClientName bs.length)
  else do return .ok ⟨← bs[0]?, lossy (← bs.range? 3 bs.length)⟩

def readVendorTableByIndex (bs : Bytes) : Option (Except OptionFault VendorTable) :=
  Area.walk (fun table t => some (.ok (table.set t.code t.value))) vendorFault 0 bs 0 .empty

/-- The value of an option of kind `k`, with checked indices where the reader has any. -/
def readByIndex : (k : OptionKind) → Bytes → Option (Except OptionFault k.Value)
  | .addresses, bs => readAddressesByIndex bs
  | .clientName, bs => readClientNameByIndex bs
  | .vendorTable, bs => readVendorTableByIndex bs
  | k, bs => some (read k bs)

theorem quarters_append (ip : Ipv4) (rest : Bytes) :
    quarters (ip.octets ++ rest) = ip.octets :: quarters rest := by
  have hlength : (ip.octets ++ rest).length / 4 = rest.length / 4 + 1 := by
    rw [List.length_append, Ipv4.length_octets]
    omega
  unfold quarters
  rw [hlength, List.range_succ_eq_map, List.map_cons, List.map_map, List.cons.injEq]
  refine ⟨rfl, List.map_congr_left ?_⟩
  intro n _
  have hplace : 4 * n.succ = ip.octets.length + 4 * n := by
    rw [Ipv4.length_octets]
    omega
  rw [Function.comp_apply, Bytes.slice, Bytes.slice, hplace, ← List.drop_drop, List.drop_left]

theorem mapM_addressByIndex (ips : List Ipv4) :
    (quarters (ips.flatMap Ipv4.octets)).mapM addressByIndex = some ips := by
  induction ips with
  | nil => rfl
  | cons ip ips ih =>
    rw [List.flatMap_cons, quarters_append, List.mapM_cons, ih]
    rfl

theorem readAddressesByIndex_eq (bs : Bytes) :
    readAddressesByIndex bs = some (readAddresses bs) := by
  unfold readAddressesByIndex readAddresses
  split
  · rfl
  · next h =>
    have hfours : bs.length % 4 = 0 := by
      apply Decidable.not_not.mp
      exact fun hpart => h (Or.inr hpart)
    have hwhole := Ipv4.flatMap_listOfOctets bs hfours
    have haddresses := mapM_addressByIndex (Ipv4.listOfOctets bs)
    rw [hwhole] at haddresses
    rw [haddresses]
    rfl

theorem readClientNameByIndex_eq (bs : Bytes) :
    readClientNameByIndex bs = some (readClientName bs) := by
  unfold readClientNameByIndex
  match bs with
  | [] => rfl
  | [_] => rfl
  | [_, _] => rfl
  | flags :: b :: c :: name =>
    rw [if_neg (by simp), Bytes.range?_of_le (by simp) (Nat.le_refl _)]
    simp [readClientName, Bytes.slice]

theorem readVendorTable_eq (bs : Bytes) :
    readVendorTable bs =
      Area.foldTriples (fun table t => .ok (table.set t.code t.value)) vendorFault .empty
        (Area.read 0 bs) := by
  have hfold : ∀ ts : List Triple,
      ts.foldlM (fun table t => (.ok (table.set t.code t.value) : Except OptionFault VendorTable))
        VendorTable.empty = .ok (.ofList (ts.map fun t => (t.code, t.value))) := by
    intro ts
    rw [VendorTable.ofList, List.foldl_map]
    exact List.foldlM_pure
  unfold readVendorTable Area.foldTriples
  dsimp only
  rw [hfold]
  cases (Area.read 0 bs).fault <;> rfl

theorem readByIndex_eq (k : OptionKind) (bs : Bytes) : readByIndex k bs = some (read k bs) := by
  cases k with
  | addresses => exact readAddressesByIndex_eq bs
  | clientName => exact readClientNameByIndex_eq bs
  | vendorTable =>
    show readVendorTableByIndex bs = some (readVendorTable bs)
    rw [readVendorTable_eq, readVendorTableByIndex, Area.walk_eq_some fun _ _ => rfl]
    rfl
  | _ => rfl

end OptionValue

/-! ## The options of a packet -/

namespace ReadOptions

/-- Takes in one more triple, with checked indices. -/
def addByIndex (r : ReadOptions) (t : Triple) : Option (Except DecodeError ReadOptions) :=
  match OptionName.ofCode? t.code with
  | none =>
    some (.ok { r with skipped := r.skipped ++ [⟨t.code, UInt8.ofNat t.value.length⟩] })
  | some o => do
    match ← OptionValue.readByIndex o.kind t.value with
    | .ok value => return .ok { r with options := r.options.set o value }
    | .error fault => return .error (.option t.offset t.code fault)

theorem addByIndex_eq (r : ReadOptions) (t : Triple) : r.addByIndex t = some (r.add t) := by
  unfold addByIndex add
  cases OptionName.ofCode? t.code with
  | none => rfl
  | some o =>
    simp only [OptionValue.readByIndex_eq, Option.bind_eq_bind, Option.bind_some]
    cases OptionValue.read o.kind t.value <;> rfl

end ReadOptions

/-- The options of an area, read with checked indices. -/
def optionsByIndex (bs : Bytes) : Option (Except DecodeError ReadOptions) :=
  Area.walk ReadOptions.addByIndex AreaEnd.decodeError headerLength bs 0 {}

theorem optionsByIndex_eq (bs : Bytes) :
    optionsByIndex bs = some (Area.read headerLength bs).options := by
  rw [optionsByIndex, Area.walk_eq_some ReadOptions.addByIndex_eq]
  rfl

end NetBoot
