-- Cutting a text at a separator: it undoes joining, and two texts that are put together are cut
-- as each of them is, but for the piece that they share. And reading all pieces, what trimming
-- leaves, and characters by number.
import Mathlib.Data.List.TakeWhile
import NetBoot.Text.Blank
import NetBoot.Text.Split

namespace NetBoot.Text

/-! ## Joining -/

/-- What stands before the first separator is a piece of its own. -/
theorem fields_append_sep (sep : Char) {piece : List Char} (h : sep ∉ piece) (rest : List Char) :
    fields sep (piece ++ sep :: rest) = piece :: fields sep rest := by
  induction piece with
  | nil => simp [fields]
  | cons c piece ih =>
    have hc : c ≠ sep := fun he => h (by simp [he])
    have htail := ih (fun hm => h (List.mem_cons_of_mem c hm))
    rw [List.cons_append, fields, if_neg hc, htail]

theorem fields_eq_self (sep : Char) {piece : List Char} (h : sep ∉ piece) :
    fields sep piece = [piece] := by
  induction piece with
  | nil => rfl
  | cons c piece ih =>
    have hc : c ≠ sep := fun he => h (by simp [he])
    have htail := ih (fun hm => h (List.mem_cons_of_mem c hm))
    rw [fields, if_neg hc, htail]

/-- Cutting undoes joining, where no piece holds the separator. -/
theorem fields_intercalate (sep : Char) {pieces : List (List Char)} (hne : pieces ≠ [])
    (h : ∀ piece ∈ pieces, sep ∉ piece) :
    fields sep (List.intercalate [sep] pieces) = pieces := by
  induction pieces with
  | nil => exact absurd rfl hne
  | cons piece rest ih =>
    have hpiece := h piece List.mem_cons_self
    cases rest with
    | nil =>
      rw [List.intercalate_singleton]
      exact fields_eq_self sep hpiece
    | cons next rest =>
      have htail := ih (by simp) (fun p hp => h p (List.mem_cons_of_mem _ hp))
      rw [List.intercalate_cons_cons, List.append_assoc, List.singleton_append,
        fields_append_sep sep hpiece, htail]

/-- Cutting a text whose characters have been changed, where no separator comes in or goes. -/
theorem fields_map {sep : Char} {f : Char → Char} {s : List Char}
    (h : ∀ c ∈ s, f c = sep ↔ c = sep) : fields sep (s.map f) = (fields sep s).map (List.map f) := by
  induction s with
  | nil => rfl
  | cons c rest ih =>
    obtain ⟨hc, hrest⟩ := List.forall_mem_cons.mp h
    rw [List.map_cons, fields, fields, ih hrest]
    by_cases hsep : c = sep
    · rw [if_pos (hc.mpr hsep), if_pos hsep]
      rfl
    · rw [if_neg (mt hc.mp hsep), if_neg hsep]
      cases fields sep rest with
      | nil => rfl
      | cons piece pieces => rfl

/-- What is joined holds the characters of the separator and of the pieces. -/
theorem mem_of_mem_intercalate {sep : List Char} {pieces : List (List Char)} {c : Char}
    (h : c ∈ List.intercalate sep pieces) : c ∈ sep ∨ ∃ piece ∈ pieces, c ∈ piece := by
  induction pieces with
  | nil => cases h
  | cons piece rest ih =>
    cases rest with
    | nil =>
      rw [List.intercalate_singleton] at h
      exact Or.inr ⟨piece, List.mem_cons_self, h⟩
    | cons next rest =>
      rw [List.intercalate_cons_cons, List.append_assoc, List.mem_append, List.mem_append] at h
      rcases h with h | h | h
      · exact Or.inr ⟨piece, List.mem_cons_self, h⟩
      · exact Or.inl h
      · rcases ih h with h | ⟨other, hother, h⟩
        · exact Or.inl h
        · exact Or.inr ⟨other, List.mem_cons_of_mem piece hother, h⟩

/-- No piece holds the separator. -/
theorem sep_not_mem_of_mem_fields {sep : Char} {s piece : List Char}
    (h : piece ∈ fields sep s) : sep ∉ piece := by
  induction s generalizing piece with
  | nil =>
    rw [fields, List.mem_singleton] at h
    simp [h]
  | cons c s ih =>
    rw [fields] at h
    by_cases hc : c = sep
    · rw [if_pos hc] at h
      rcases List.mem_cons.mp h with rfl | htail
      · exact List.not_mem_nil
      · exact ih htail
    · rw [if_neg hc] at h
      cases hcut : fields sep s with
      | nil => exact absurd hcut (fields_ne_nil sep s)
      | cons first pieces =>
        rw [hcut] at h ih
        rcases List.mem_cons.mp h with rfl | htail
        · rw [List.mem_cons, not_or]
          exact ⟨Ne.symm hc, ih List.mem_cons_self⟩
        · exact ih (List.mem_cons_of_mem first htail)

/-- There is one piece more than separators. -/
theorem length_fields (sep : Char) (s : List Char) : (fields sep s).length = s.count sep + 1 := by
  induction s with
  | nil => rfl
  | cons c s ih =>
    rw [fields]
    by_cases hc : c = sep
    · rw [if_pos hc, List.length_cons, ih, hc, List.count_cons_self]
    · rw [if_neg hc, List.count_cons_of_ne hc]
      cases hcut : fields sep s with
      | nil => exact absurd hcut (fields_ne_nil sep s)
      | cons piece pieces =>
        rw [hcut] at ih
        exact ih

/-! ## The first separator -/

theorem splitOnce?_eq_some {sep : Char} {s before after : List Char} :
    splitOnce? sep s = some (before, after) ↔ s = before ++ sep :: after ∧ sep ∉ before := by
  induction s generalizing before with
  | nil => simp [splitOnce?]
  | cons c s ih =>
    rw [splitOnce?]
    by_cases hc : c = sep
    · rw [if_pos hc, Option.some.injEq, Prod.mk.injEq, hc]
      cases before with
      | nil => simp
      | cons d before =>
        refine ⟨fun h => absurd h.1 (by simp), ?_⟩
        rintro ⟨h, hsep⟩
        rw [List.cons_append, List.cons.injEq] at h
        exact absurd (h.1 ▸ List.mem_cons_self) hsep
    · rw [if_neg hc, Option.map_eq_some_iff]
      cases before with
      | nil => simp [hc]
      | cons d before =>
        rw [List.cons_append, List.cons.injEq, List.mem_cons, not_or]
        refine ⟨?_, ?_⟩
        · rintro ⟨⟨front, back⟩, hcut, h⟩
          cases h
          obtain ⟨hs, hsep⟩ := ih.mp hcut
          exact ⟨⟨rfl, hs⟩, Ne.symm hc, hsep⟩
        · rintro ⟨⟨rfl, hs⟩, _, hsep⟩
          exact ⟨_, ih.mpr ⟨hs, hsep⟩, rfl⟩

/-! ## Two texts put together -/

theorem exists_last_field (sep : Char) (s : List Char) :
    ∃ front last, fields sep s = front ++ [last] :=
  ⟨_, _, (List.dropLast_concat_getLast (fields_ne_nil sep s)).symm⟩

/-- The last piece of a text and the first piece of what is put after it become one. -/
theorem fields_append {sep : Char} {s t : List Char} {front back : List (List Char)}
    {last first : List Char} (hs : fields sep s = front ++ [last])
    (ht : fields sep t = first :: back) :
    fields sep (s ++ t) = front ++ (last ++ first) :: back := by
  induction s generalizing front last with
  | nil =>
    obtain ⟨rfl, hlast⟩ := List.append_inj' (show [] ++ [[]] = front ++ [last] from hs) rfl
    cases hlast
    exact ht
  | cons c s ih =>
    obtain ⟨front', last', hcut⟩ := exists_last_field sep s
    have htail := ih hcut
    rw [fields, hcut] at hs
    rw [List.cons_append, fields, htail]
    by_cases hc : c = sep
    · rw [if_pos hc] at hs ⊢
      obtain ⟨rfl, hlast⟩ := List.append_inj' (show [] :: front' ++ [last'] = _ from hs) rfl
      cases hlast
      rfl
    · rw [if_neg hc] at hs ⊢
      -- The character joins the first piece, which is the last one too where there is no other.
      cases front' with
      | nil =>
        obtain ⟨rfl, hlast⟩ := List.append_inj' (show [] ++ [c :: last'] = _ from hs) rfl
        cases hlast
        rfl
      | cons piece pieces =>
        obtain ⟨rfl, hlast⟩ :=
          List.append_inj' (show (c :: piece) :: pieces ++ [last'] = _ from hs) rfl
        cases hlast
        rfl

/-- The pieces of a text hold no other characters than the text. -/
theorem mem_of_mem_fields {sep c : Char} {s piece : List Char} (hpiece : piece ∈ fields sep s)
    (hc : c ∈ piece) : c ∈ s := by
  induction s generalizing piece with
  | nil =>
    rw [fields, List.mem_singleton] at hpiece
    rwa [hpiece] at hc
  | cons a s ih =>
    rw [fields] at hpiece
    by_cases ha : a = sep
    · rw [if_pos ha] at hpiece
      rcases List.mem_cons.mp hpiece with rfl | htail
      · cases hc
      · exact List.mem_cons_of_mem a (ih htail hc)
    · rw [if_neg ha] at hpiece
      cases hcut : fields sep s with
      | nil => exact absurd hcut (fields_ne_nil sep s)
      | cons first pieces =>
        rw [hcut] at hpiece ih
        rcases List.mem_cons.mp hpiece with rfl | htail
        · rcases List.mem_cons.mp hc with rfl | hrest
          · exact List.mem_cons_self
          · exact List.mem_cons_of_mem a (ih List.mem_cons_self hrest)
        · exact List.mem_cons_of_mem a (ih (List.mem_cons_of_mem first htail) hc)

/-! ## Readers of pieces -/

/-- All pieces are read exactly if each of them is. -/
theorem isSome_mapM {α β : Type} {f : α → Option β} {l : List α} :
    (l.mapM f).isSome ↔ ∀ x ∈ l, (f x).isSome := by
  induction l with
  | nil => simp
  | cons x l ih =>
    rw [List.mapM_cons, List.forall_mem_cons, ← ih]
    cases f x with
    | none => simp
    | some y => cases l.mapM f <;> simp

/-! ## Trimming -/

/-- Trimming the end of a text keeps what stands at its front. -/
theorem head?_trim (s : List Char) : (trim s).head? = (trimStart s).head? := by
  unfold trim trimEnd
  cases hs : trimStart s with
  | nil => rfl
  | cons c rest =>
    have hc : isBlank c = false := by
      have := List.head?_dropWhile_not isBlank s
      unfold trimStart at hs
      simpa [hs] using this
    have hkept : ((c :: rest).reverse.dropWhile isBlank) =
        (rest.reverse.dropWhile isBlank) ++ [c] := by
      rw [List.reverse_cons, List.dropWhile_append]
      split
      · next h => simp_all
      · rfl
    rw [hkept, List.reverse_append]
    rfl

theorem trim_of_blank {s : List Char} (h : ∀ c ∈ s, isBlank c = true) : trim s = [] := by
  unfold trim trimStart
  rw [List.dropWhile_eq_nil_iff.mpr h]
  rfl

/-- A text with no blank at either end. -/
def IsTrimmed (s : List Char) : Prop :=
  ∀ c, s.head? = some c ∨ s.getLast? = some c → isBlank c = false

theorem trimStart_eq_self {s : List Char} (h : ∀ c, s.head? = some c → isBlank c = false) :
    trimStart s = s := by
  unfold trimStart
  cases s with
  | nil => rfl
  | cons c rest => exact List.dropWhile_cons_of_neg (by simp [h c rfl])

theorem isBlank_of_head?_trimStart {s : List Char} {c : Char} (h : (trimStart s).head? = some c) :
    isBlank c = false := by
  have := List.head?_dropWhile_not isBlank s
  unfold trimStart at h
  simpa [h] using this

theorem trimEnd_eq (s : List Char) : trimEnd s = (trimStart s.reverse).reverse := rfl

theorem IsTrimmed.trim_eq {s : List Char} (h : IsTrimmed s) : trim s = s := by
  have hend : trimStart s.reverse = s.reverse := by
    apply trimStart_eq_self
    intro c hc
    rw [List.head?_reverse] at hc
    exact h c (Or.inr hc)
  rw [trim, trimStart_eq_self fun c hc => h c (Or.inl hc), trimEnd_eq, hend, List.reverse_reverse]

theorem isTrimmed_trim (s : List Char) : IsTrimmed (trim s) := by
  rintro c (hhead | hlast)
  · rw [head?_trim] at hhead
    exact isBlank_of_head?_trimStart hhead
  · rw [trim, trimEnd_eq, List.getLast?_reverse] at hlast
    exact isBlank_of_head?_trimStart hlast

theorem mem_of_mem_trim {s : List Char} {c : Char} (h : c ∈ trim s) : c ∈ s := by
  rw [trim, trimEnd_eq, List.mem_reverse] at h
  have hend := List.mem_reverse.mp ((List.dropWhile_sublist isBlank).subset h)
  exact (List.dropWhile_sublist isBlank).subset hend

theorem mem_trimStart {s : List Char} {c : Char} (h : c ∈ s) (hc : isBlank c = false) :
    c ∈ trimStart s := by
  rw [← List.takeWhile_append_dropWhile (p := isBlank) (l := s), List.mem_append] at h
  refine h.resolve_left fun hfront => ?_
  rw [List.mem_takeWhile_imp hfront] at hc
  cases hc

/-- Trimming takes nothing but blanks. -/
theorem mem_trim {s : List Char} {c : Char} (h : c ∈ s) (hc : isBlank c = false) : c ∈ trim s := by
  have hstart := mem_trimStart h hc
  rw [trim, trimEnd_eq, List.mem_reverse]
  exact mem_trimStart (List.mem_reverse.mpr hstart) hc

/-! ## Characters by number -/

theorem toNat_ofNat {n : Nat} (h : n.isValidChar) : (Char.ofNat n).toNat = n := by
  rw [Char.ofNat, dif_pos h]
  rfl

theorem toNat_ofNat_of_lt {n : Nat} (h : n < 0x80) : (Char.ofNat n).toNat = n :=
  toNat_ofNat (Or.inl (by omega))

end NetBoot.Text
