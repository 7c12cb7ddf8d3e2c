-- The lines of a file that assign a text to a setting, and what one layer of assignments makes of the
-- settings: the last text of a key counts, and the first text that is not taken is the error.
import NetBoot.Packet.Error
import NetBoot.Proofs.Settings.ValueTexts
import NetBoot.Proofs.Text.LastLine

namespace NetBoot

/-! ## Lines -/

theorem Setting.ofKey?_eq_some {key : String} {s : Setting} : ofKey? key = some s ↔ key = s.key := by
  refine ⟨?_, ?_⟩
  · intro h
    have hkey := List.find?_some h
    exact (of_decide_eq_true hkey).symm
  · rintro rfl
    cases s <;> decide

namespace Settings

/-- The line gives this text to the setting: the key and the text stand on the two sides of the
first equals sign, with or without blanks around them. -/
def Assigns (line : List Char) (s : Setting) (text : String) : Prop :=
  ∃ key value, Text.trim line = key ++ '=' :: value ∧ '=' ∉ key ∧ Text.trim key = s.key.toList ∧
    text = String.ofList (Text.trim value)

variable {line : List Char} {s : Setting} {text : String}

/-- No key starts with a number sign. -/
theorem Assigns.not_comment (h : Assigns line s text) (rest : List Char) :
    Text.trim line ≠ '#' :: rest := by
  obtain ⟨key, value, hline, _, hkey, _⟩ := h
  intro hcomment
  rw [hcomment] at hline
  cases key with
  | nil => cases hline
  | cons c key =>
    rw [List.cons_append, List.cons.injEq] at hline
    obtain ⟨rfl, _⟩ := hline
    have hhead : (Text.trim ('#' :: key)).head? = some '#' := by
      rw [Text.head?_trim]
      rfl
    rw [hkey] at hhead
    cases s <;> exact absurd hhead (by decide)

theorem assignment?_eq_some : assignment? line = some (s, text) ↔ Assigns line s text := by
  unfold assignment?
  split
  · next h =>
    refine ⟨nofun, ?_⟩
    rintro ⟨key, value, hline, _⟩
    rw [h] at hline
    simp at hline
  · next rest h =>
    exact ⟨nofun, fun hassigns => absurd h (hassigns.not_comment rest)⟩
  · simp only [Option.bind_eq_bind, Option.bind_eq_some_iff, Prod.exists, Text.splitOnce?_eq_some,
      Setting.ofKey?_eq_some, Option.pure_def, Option.some.injEq, Prod.mk.injEq]
    refine ⟨?_, ?_⟩
    · rintro ⟨key, value, ⟨hline, hsign⟩, t, hkey, rfl, htext⟩
      exact ⟨key, value, hline, hsign, by rw [← hkey, String.toList_ofList], htext.symm⟩
    · rintro ⟨key, value, hline, hsign, hkey, htext⟩
      exact ⟨key, value, ⟨hline, hsign⟩, s, by rw [hkey, String.ofList_toList], rfl, htext.symm⟩

/-- The setting that a line gives a text to. -/
def key? (line : List Char) : Option Setting := (assignment? line).map Prod.fst

/-- The lines that give a text to this setting. -/
def linesOf (s : Setting) (lines : List (List Char)) : List (List Char) :=
  lines.filter (key? · = some s)

theorem key?_eq_some : key? line = some s ↔ ∃ text, Assigns line s text := by
  simp only [key?, Option.map_eq_some_iff, Prod.exists, assignment?_eq_some]
  refine ⟨?_, ?_⟩
  · rintro ⟨t, text, h, rfl⟩
    exact ⟨text, h⟩
  · rintro ⟨text, h⟩
    exact ⟨s, text, h, rfl⟩

theorem mem_linesOf {lines : List (List Char)} :
    line ∈ linesOf s lines ↔ line ∈ lines ∧ ∃ text, Assigns line s text := by
  rw [linesOf, List.mem_filter, decide_eq_true_eq, key?_eq_some]

theorem Assigns.unique {other : String} (h : Assigns line s text) (h' : Assigns line s other) :
    text = other := by
  have hsame := (assignment?_eq_some.mpr h).symm.trans (assignment?_eq_some.mpr h')
  cases hsame
  rfl

/-- Lines that are no assignments: blank ones, comments, those without an equals sign, and those with
a key that is not known. -/
inductive IsIdle (line : List Char) : Prop
  | blank (h : ∀ c ∈ line, Text.isBlank c = true)
  | comment {rest : List Char} (h : Text.trim line = '#' :: rest)
  | noSign (h : '=' ∉ line)
  | unknownKey {key value : List Char} (h : Text.trim line = key ++ '=' :: value) (hsign : '=' ∉ key)
    (hkey : ∀ s : Setting, Text.trim key ≠ s.key.toList)

/-- The lines that are no assignments are those that give no setting a text. -/
theorem isIdle_iff : IsIdle line ↔ key? line = none := by
  refine ⟨?_, ?_⟩
  · intro h
    refine Option.eq_none_iff_forall_ne_some.mpr fun s hs => ?_
    obtain ⟨text, hassigns⟩ := key?_eq_some.mp hs
    obtain ⟨key, value, hline, hsign, hkey, _⟩ := id hassigns
    cases h with
    | blank h =>
      rw [Text.trim_of_blank h] at hline
      simp at hline
    | comment h => exact hassigns.not_comment _ h
    | noSign h => exact h (Text.mem_of_mem_trim (hline ▸ by simp))
    | @unknownKey key' value' h hsign' hunknown =>
      have hcut := Text.splitOnce?_eq_some.mpr ⟨hline, hsign⟩
      rw [Text.splitOnce?_eq_some.mpr ⟨h, hsign'⟩] at hcut
      cases hcut
      exact hunknown s hkey
  · intro h
    by_cases hsign : '=' ∈ line
    · obtain ⟨key, value, hline, hkey⟩ :=
        List.eq_append_cons_of_mem (Text.mem_trim hsign (by decide))
      refine .unknownKey hline hkey fun s hs => ?_
      rw [key?_eq_some.mpr ⟨_, key, value, hline, hkey, hs, rfl⟩] at h
      cases h
    · exact .noSign hsign

instance decidableIsIdle (line : List Char) : Decidable (IsIdle line) :=
  decidable_of_iff (key? line = none) isIdle_iff.symm

/-! ## One layer -/

theorem assign_eq_ok {c d : Settings} {a : Setting × String} :
    c.assign a = .ok d ↔ ∃ v, a.1.Denotes a.2 v ∧ d = c.set a.1 v := by
  unfold assign
  simp only [← Setting.read?_eq_some]
  cases a.1.read? a.2 with
  | none => simp
  | some v => simp [eq_comm]

theorem assign_eq_error {c : Settings} {a : Setting × String} {e : SettingsError} :
    c.assign a = .error e ↔ ¬ a.1.Takes a.2 ∧ e = .invalid a.1 a.2 := by
  unfold assign
  rw [← Setting.read?_eq_none]
  cases a.1.read? a.2 with
  | none => simp [eq_comm]
  | some v => simp

section Layer

variable {α : Type} {gives : α → Setting → String → Prop} {f : α → Option (Setting × String)}
  {sources : List α} {source : α} {c d : Settings}

/-- Every text that the sources give to a setting is taken. -/
def AllTaken (gives : α → Setting → String → Prop) (sources : List α) : Prop :=
  ∀ source ∈ sources, ∀ s text, gives source s text → s.Takes text

/-- Of the texts that the sources give to settings, this one is the first that is not taken. -/
def FirstRefused (gives : α → Setting → String → Prop) (sources : List α) (s : Setting)
    (text : String) : Prop :=
  ∃ before source after, sources = before ++ source :: after ∧ gives source s text ∧
    ¬ s.Takes text ∧ AllTaken gives before

theorem firstRefused_cons :
    FirstRefused gives (source :: sources) s text ↔
      (gives source s text ∧ ¬ s.Takes text) ∨
      ((∀ t other, gives source t other → t.Takes other) ∧ FirstRefused gives sources s text) := by
  refine ⟨?_, ?_⟩
  · rintro ⟨before, first, after, hcut, hgives, hnot, hbefore⟩
    cases before with
    | nil =>
      cases hcut
      exact Or.inl ⟨hgives, hnot⟩
    | cons other before =>
      rw [List.cons_append, List.cons.injEq] at hcut
      obtain ⟨rfl, rfl⟩ := hcut
      obtain ⟨hhead, hrest⟩ := List.forall_mem_cons.mp hbefore
      exact Or.inr ⟨hhead, before, first, after, rfl, hgives, hnot, hrest⟩
  · rintro (⟨hgives, hnot⟩ | ⟨hhead, before, first, after, rfl, hgives, hnot, hbefore⟩)
    · exact ⟨[], source, sources, rfl, hgives, hnot, by simp [AllTaken]⟩
    · exact ⟨source :: before, first, after, rfl, hgives, hnot,
        List.forall_mem_cons.mpr ⟨hhead, hbefore⟩⟩

theorem exists_firstRefused :
    (∃ s text, FirstRefused gives sources s text) ↔ ¬ AllTaken gives sources := by
  induction sources with
  | nil => simp [FirstRefused, AllTaken]
  | cons source sources ih =>
    have hhead : (∃ s text, gives source s text ∧ ¬ s.Takes text) ↔
        ¬ ∀ s text, gives source s text → s.Takes text := by
      simp only [not_forall, exists_prop]
    rw [AllTaken, List.forall_mem_cons, ← AllTaken, not_and_or, ← ih, ← hhead]
    simp only [firstRefused_cons, exists_or, exists_and_left, hhead]
    tauto

/-- The first text that is not taken is the error of a layer. -/
theorem foldlM_eq_error (hf : ∀ {x s text}, f x = some (s, text) ↔ gives x s text)
    {e : SettingsError} :
    (sources.filterMap f).foldlM assign c = .error e ↔
      ∃ s text, FirstRefused gives sources s text ∧ e = .invalid s text := by
  induction sources generalizing c with
  | nil =>
    refine ⟨nofun, ?_⟩
    rintro ⟨s, text, ⟨before, source, after, hcut, _⟩, _⟩
    simp at hcut
  | cons source sources ih =>
    simp only [firstRefused_cons]
    cases hsource : f source with
    | none =>
      have hnone : ∀ s text, ¬ gives source s text := by
        intro s text hgives
        rw [hf.mpr hgives] at hsource
        cases hsource
      rw [List.filterMap_cons_none hsource, ih]
      simp [hnone]
    | some a =>
      obtain ⟨t, other⟩ := a
      have hgives : ∀ s text, gives source s text ↔ t = s ∧ other = text := by
        intro s text
        rw [← hf, hsource, Option.some.injEq, Prod.mk.injEq]
      rw [List.filterMap_cons_some hsource, List.foldlM_cons]
      simp only [hgives]
      cases hassign : c.assign (t, other) with
      | error d =>
        obtain ⟨hnot, rfl⟩ := assign_eq_error.mp hassign
        show Except.error _ = Except.error e ↔ _
        refine ⟨?_, ?_⟩
        · intro h
          cases h
          exact ⟨t, other, Or.inl ⟨⟨rfl, rfl⟩, hnot⟩, rfl⟩
        · rintro ⟨s, text, ⟨⟨rfl, rfl⟩, _⟩ | ⟨htakes, _⟩, rfl⟩
          · rfl
          · exact absurd (htakes t other ⟨rfl, rfl⟩) hnot
      | ok m =>
        obtain ⟨v, hv, _⟩ := assign_eq_ok.mp hassign
        have htakes : t.Takes other := ⟨v, hv⟩
        show (sources.filterMap f).foldlM assign m = .error e ↔ _
        rw [ih]
        refine exists_congr fun s => exists_congr fun text => and_congr_left fun _ => ?_
        refine ⟨?_, ?_⟩
        · intro hrest
          refine Or.inr ⟨?_, hrest⟩
          rintro _ _ ⟨rfl, rfl⟩
          exact htakes
        · rintro (⟨⟨rfl, rfl⟩, hnot⟩ | ⟨_, hrest⟩)
          · exact absurd htakes hnot
          · exact hrest

/-- A layer is read exactly if all its texts are taken. -/
theorem exists_foldlM_eq_ok (hf : ∀ {x s text}, f x = some (s, text) ↔ gives x s text) :
    (∃ d, (sources.filterMap f).foldlM assign c = .ok d) ↔ AllTaken gives sources := by
  rw [← not_iff_not, ← exists_firstRefused]
  cases h : (sources.filterMap f).foldlM assign c with
  | ok d =>
    refine iff_of_false (not_not.mpr ⟨d, rfl⟩) ?_
    rintro ⟨s, text, hfirst⟩
    rw [(foldlM_eq_error hf).mpr ⟨s, text, hfirst, rfl⟩] at h
    cases h
  | error e =>
    obtain ⟨s, text, hfirst, _⟩ := (foldlM_eq_error hf).mp h
    exact iff_of_true nofun ⟨s, text, hfirst⟩

/-- After a layer a setting has the value of the last text that it was given, or the value that it
had before. -/
theorem get_of_foldlM (hf : ∀ {x s text}, f x = some (s, text) ↔ gives x s text)
    (h : (sources.filterMap f).foldlM assign c = .ok d) (s : Setting) :
    (∀ text, LastSays (fun x text => gives x s text) sources text → s.Denotes text (d.get s)) ∧
      ((∀ x ∈ sources, ∀ text, ¬ gives x s text) → d.get s = c.get s) := by
  induction sources using List.reverseRecOn generalizing d with
  | nil =>
    cases h
    exact ⟨fun text hlast => absurd hlast not_lastSays_nil, fun _ => rfl⟩
  | append_singleton sources source ih =>
    rw [List.filterMap_append, List.foldlM_append] at h
    obtain ⟨m, hm, h⟩ := bind_eq_ok.mp h
    obtain ⟨hlast, hnone⟩ := ih hm
    simp only [lastSays_concat, List.forall_mem_append, List.forall_mem_singleton]
    have hgives : ∀ text, gives source s text ↔ f source = some (s, text) :=
      fun text => hf.symm
    simp only [hgives]
    cases hsource : f source with
    | none =>
      rw [List.filterMap_cons_none hsource] at h
      cases h
      refine ⟨?_, fun hrest => hnone hrest.1⟩
      rintro text (hnew | ⟨_, hold⟩)
      · cases hnew
      · exact hlast text hold
    | some a =>
      obtain ⟨t, other⟩ := a
      rw [List.filterMap_cons_some hsource, List.filterMap_nil, List.foldlM_cons] at h
      obtain ⟨_, hassign, h⟩ := bind_eq_ok.mp h
      cases h
      obtain ⟨v, hv, rfl⟩ := assign_eq_ok.mp hassign
      by_cases hst : s = t
      · subst hst
        refine ⟨?_, fun hrest => absurd rfl (hrest.2 other)⟩
        rintro text (hnew | ⟨hold, _⟩)
        · cases hnew
          rwa [get_set_self]
        · exact absurd rfl (hold other)
      · rw [get_set_ne m v hst]
        refine ⟨?_, fun hrest => hnone hrest.1⟩
        rintro text (hnew | ⟨_, hold⟩)
        · cases hnew
          exact absurd rfl hst
        · exact hlast text hold

end Layer

end Settings

end NetBoot
