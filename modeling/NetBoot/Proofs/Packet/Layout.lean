-- The grammar of an area of triples, and that the reader of areas accepts exactly what the grammar
-- derives. Options and the vendor table inside option 43 are both areas.
import NetBoot.Packet.Triple

namespace NetBoot

/-! ## The grammar -/

/-- The bytes are padding and the triples in order, each with its whole value, up to an end code
with anything after it or up to the end of the bytes. -/
inductive Layout : Bytes → List (UInt8 × Bytes) → Prop
  | finished : Layout [] []
  | ended (rest : Bytes) : Layout (endCode :: rest) []
  | pad {bs : Bytes} {ts : List (UInt8 × Bytes)} : Layout bs ts → Layout (padCode :: bs) ts
  | triple {code len : UInt8} {value bs : Bytes} {ts : List (UInt8 × Bytes)} :
      code ≠ padCode → code ≠ endCode → value.length = len.toNat → Layout bs ts →
      Layout (code :: len :: (value ++ bs)) ((code, value) :: ts)

/-- A code and a value that a triple can have: the code is neither padding nor the end, and the
length fits one byte. -/
structure IsTriple (t : UInt8 × Bytes) : Prop where
  not_pad : t.1 ≠ padCode
  not_end : t.1 ≠ endCode
  length_le : t.2.length ≤ 255

/-- The bytes of triples one after the other. -/
def layOut (ts : List (UInt8 × Bytes)) : Bytes := ts.flatMap fun t => tripleBytes t.1 t.2

theorem layOut_cons (t : UInt8 × Bytes) (ts : List (UInt8 × Bytes)) :
    layOut (t :: ts) = tripleBytes t.1 t.2 ++ layOut ts := rfl

/-- Triples that are written one after the other are laid out in front of what comes next. -/
theorem layout_layOut_append {ts us : List (UInt8 × Bytes)} {rest : Bytes}
    (h : ∀ t ∈ ts, IsTriple t) (hrest : Layout rest us) :
    Layout (layOut ts ++ rest) (ts ++ us) := by
  induction ts with
  | nil => exact hrest
  | cons t ts ih =>
    have ht := h t List.mem_cons_self
    have htail := ih (fun u hu => h u (List.mem_cons_of_mem t hu))
    have hlen : t.2.length = (UInt8.ofNat t.2.length).toNat := by
      rw [UInt8.toNat_ofNat', Nat.mod_eq_of_lt]
      have := ht.length_le
      omega
    rw [layOut_cons, List.append_assoc]
    exact Layout.triple ht.not_pad ht.not_end hlen htail

theorem layout_layOut {ts : List (UInt8 × Bytes)} (h : ∀ t ∈ ts, IsTriple t) :
    Layout (layOut ts) ts := by
  have := layout_layOut_append h Layout.finished
  rwa [List.append_nil, List.append_nil] at this

/-- Every triple of a layout is one that can be written. -/
theorem Layout.isTriple {bs : Bytes} {ts : List (UInt8 × Bytes)} (h : Layout bs ts) :
    ∀ t ∈ ts, IsTriple t := by
  induction h with
  | finished => simp
  | ended rest => simp
  | pad _ ih => exact ih
  | @triple code len value bs ts h0 h1 hlen _ ih =>
    intro t ht
    rcases List.mem_cons.mp ht with rfl | ht
    · have := len.toNat_lt
      exact ⟨h0, h1, by simp only; omega⟩
    · exact ih t ht

/-! ## The reader -/

namespace Area

/-- The codes and values of the triples of an area, without their places. -/
def entries (area : Area) : List (UInt8 × Bytes) := area.triples.map fun t => (t.code, t.value)

@[simp] theorem entries_cons (t : Triple) (area : Area) :
    (cons t area).entries = (t.code, t.value) :: area.entries := rfl

theorem read_triple_append (offset : Nat) {code len : UInt8} {value : Bytes} (rest : Bytes)
    (h0 : code ≠ padCode) (h1 : code ≠ endCode) (hlen : value.length = len.toNat) :
    read offset (code :: len :: (value ++ rest)) =
      cons ⟨offset, code, value⟩ (read (offset + 2 + len.toNat) rest) := by
  have hle : len.toNat ≤ (value ++ rest).length := by
    rw [List.length_append]
    omega
  rw [read_triple offset h0 h1 hle, ← hlen, List.take_left, List.drop_left]

/-- The shapes that an area can have at its front. What holds of every area is proved by these
cases, whatever the reader does in each of them. -/
theorem byFront {motive : Bytes → Prop} (nil : motive [])
    (pad : ∀ rest, motive rest → motive (padCode :: rest))
    (ended : ∀ rest, motive (endCode :: rest))
    (lengthMissing : ∀ code, code ≠ padCode → code ≠ endCode → motive [code])
    (cutShort : ∀ code len bs, code ≠ padCode → code ≠ endCode → bs.length < len.toNat →
      motive (code :: len :: bs))
    (triple : ∀ code len value rest, code ≠ padCode → code ≠ endCode →
      value.length = len.toNat → motive rest → motive (code :: len :: (value ++ rest)))
    (bs : Bytes) : motive bs := by
  induction hn : bs.length using Nat.strongRecOn generalizing bs with
  | _ n ih =>
    subst hn
    rcases bs with _ | ⟨code, bs⟩
    · exact nil
    by_cases h0 : code = padCode
    · subst h0
      exact pad bs (ih bs.length (by simp) bs rfl)
    by_cases h1 : code = endCode
    · subst h1
      exact ended bs
    rcases bs with _ | ⟨len, bs⟩
    · exact lengthMissing code h0 h1
    by_cases hlen : bs.length < len.toNat
    · exact cutShort code len bs h0 h1 hlen
    have hvalue : (bs.take len.toNat).length = len.toNat := by
      rw [List.length_take]
      omega
    have hrest := ih (bs.drop len.toNat).length (by simp; omega) (bs.drop len.toNat) rfl
    have := triple code len (bs.take len.toNat) (bs.drop len.toNat) h0 h1 hvalue hrest
    rwa [List.take_append_drop] at this

/-- An area that is read to its end without a fault is laid out as its triples. -/
theorem layout_of_read (offset : Nat) (bs : Bytes) (h : (read offset bs).fault = none) :
    Layout bs (read offset bs).entries := by
  induction bs using byFront generalizing offset with
  | nil => exact Layout.finished
  | pad rest ih =>
    rw [read_pad] at h ⊢
    exact Layout.pad (ih (offset + 1) h)
  | ended rest =>
    rw [read_end]
    exact Layout.ended rest
  | lengthMissing code h0 h1 =>
    rw [read_lengthMissing offset h0 h1] at h
    cases h
  | cutShort code len bs h0 h1 hlen =>
    rw [read_cutShort offset h0 h1 hlen] at h
    cases h
  | triple code len value rest h0 h1 hlen ih =>
    rw [read_triple_append offset rest h0 h1 hlen] at h ⊢
    exact Layout.triple h0 h1 hlen (ih _ h)

/-- What the grammar derives is read as its triples, without a fault. -/
theorem read_of_layout {bs : Bytes} {ts : List (UInt8 × Bytes)} (h : Layout bs ts) (offset : Nat) :
    (read offset bs).fault = none ∧ (read offset bs).entries = ts := by
  induction h generalizing offset with
  | finished => exact ⟨rfl, rfl⟩
  | ended rest =>
    rw [read_end]
    exact ⟨rfl, rfl⟩
  | pad _ ih =>
    rw [read_pad]
    exact ih (offset + 1)
  | @triple code len value bs ts h0 h1 hlen _ ih =>
    obtain ⟨hfault, hentries⟩ := ih (offset + 2 + len.toNat)
    rw [read_triple_append offset bs h0 h1 hlen]
    exact ⟨hfault, by rw [entries_cons, hentries]⟩

/-- The reader accepts exactly the grammar, and finds its triples. -/
theorem layout_iff_read (offset : Nat) (bs : Bytes) (ts : List (UInt8 × Bytes)) :
    Layout bs ts ↔ (read offset bs).fault = none ∧ (read offset bs).entries = ts := by
  refine ⟨?_, ?_⟩
  · intro h
    exact read_of_layout h offset
  · rintro ⟨hfault, rfl⟩
    exact layout_of_read offset bs hfault

end Area

/-! ## The last value of a code -/

/-- The value of the last triple that has this code. -/
def lastValue (code : UInt8) (ts : List (UInt8 × Bytes)) : Option Bytes := ts.reverse.lookup code

@[simp] theorem lastValue_nil (code : UInt8) : lastValue code [] = none := rfl

theorem lastValue_cons (code : UInt8) (t : UInt8 × Bytes) (ts : List (UInt8 × Bytes)) :
    lastValue code (t :: ts) =
      (lastValue code ts).or (if t.1 = code then some t.2 else none) := by
  unfold lastValue
  rw [List.reverse_cons, List.lookup_append]
  congr 1
  obtain ⟨c, value⟩ := t
  by_cases h : c = code
  · subst h
    simp
  · have hne : (code == c) = false := beq_eq_false_iff_ne.mpr (Ne.symm h)
    rw [List.lookup_cons, hne, if_neg h]
    rfl

theorem mem_of_lastValue {code : UInt8} {value : Bytes} {ts : List (UInt8 × Bytes)}
    (h : lastValue code ts = some value) : (code, value) ∈ ts := by
  induction ts with
  | nil => simp at h
  | cons t ts ih =>
    rw [lastValue_cons, Option.or_eq_some_iff] at h
    rcases h with h | ⟨_, h⟩
    · exact List.mem_cons_of_mem t (ih h)
    · split at h
      · next hc =>
        cases h
        subst hc
        exact List.mem_cons_self
      · cases h

/-- In a list with one value for each of some keys, where keys have codes of their own, the last
value of a key's code is the value of that key. -/
theorem lastValue_filterMap {κ : Type} [DecidableEq κ] (code : κ → UInt8)
    (hinj : ∀ j k, code j = code k → j = k) (value : κ → Option Bytes) (ks : List κ) (k : κ) :
    lastValue (code k) (ks.filterMap fun j => (value j).map fun v => (code j, v)) =
      if k ∈ ks then value k else none := by
  induction ks with
  | nil => rfl
  | cons j ks ih =>
    by_cases hjk : j = k
    · subst hjk
      cases hv : value j with
      | none =>
        rw [List.filterMap_cons_none (by simp [hv]), ih, hv]
        simp
      | some v =>
        rw [List.filterMap_cons_some (by simp [hv]; rfl), lastValue_cons, ih, hv,
          if_pos List.mem_cons_self, if_pos rfl]
        split <;> rfl
    · have hcode : code j ≠ code k := fun he => hjk (hinj j k he)
      have hmem : k ∈ j :: ks ↔ k ∈ ks := by simp [Ne.symm hjk]
      simp only [hmem]
      cases hv : value j with
      | none => rw [List.filterMap_cons_none (by simp [hv]), ih]
      | some v =>
        rw [List.filterMap_cons_some (by simp [hv]; rfl), lastValue_cons, ih, if_neg hcode,
          Option.or_none]

end NetBoot
