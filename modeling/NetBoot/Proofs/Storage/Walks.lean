-- Where a written path leads: step by step from a folder, down by names and up by dots. A path of
-- names leads to what they name below the folder, and one with dots may lead out of it.
import Mathlib.Data.List.Induction
import NetBoot.Proofs.Storage.FolderTree

namespace NetBoot.Volume

/-! ## One step -/

/-- A step that names an entry, and does not stay or climb. -/
structure IsDown (step : String) : Prop where
  ne_empty : step ≠ ""
  ne_dot : step ≠ "."
  ne_dots : step ≠ ".."
  named : isName step = true

/-- A name of an entry, as one step of a written path. -/
structure IsPlain (name : String) : Prop extends IsDown name where
  no_slash : '/' ∉ name.toList

instance : DecidablePred IsDown := fun step =>
  decidable_of_iff (step ≠ "" ∧ step ≠ "." ∧ step ≠ ".." ∧ isName step = true)
    ⟨fun h => ⟨h.1, h.2.1, h.2.2.1, h.2.2.2⟩,
      fun h => ⟨h.ne_empty, h.ne_dot, h.ne_dots, h.named⟩⟩

instance : DecidablePred IsPlain := fun name =>
  decidable_of_iff (IsDown name ∧ '/' ∉ name.toList)
    ⟨fun h => ⟨h.1, h.2⟩, fun h => ⟨h.toIsDown, h.no_slash⟩⟩

/-- What one step of a path does from a folder. -/
inductive Step (here : Path) : String → Path → Prop
  | stay {step : String} (h : step = "" ∨ step = ".") : Step here step here
  | climb : Step here ".." here.dropLast
  | down {step : String} (h : IsDown step) : Step here step (here ++ [step])

theorem Step.unique {here next other : Path} {step : String} (h : Step here step next)
    (h' : Step here step other) : next = other := by
  cases h with
  | stay hstay =>
    cases h' with
    | stay _ => rfl
    | climb => simp at hstay
    | down hdown => exact absurd hstay (not_or.mpr ⟨hdown.ne_empty, hdown.ne_dot⟩)
  | climb =>
    cases h' with
    | stay hstay => simp at hstay
    | climb => rfl
    | down hdown => exact absurd rfl hdown.ne_dots
  | down hdown =>
    cases h' with
    | stay hstay => exact absurd hstay (not_or.mpr ⟨hdown.ne_empty, hdown.ne_dot⟩)
    | climb => exact absurd rfl hdown.ne_dots
    | down _ => rfl

theorem Step.isDown {here next : Path} {step : String} (h : Step here step next)
    (hstay : step ≠ "" ∧ step ≠ ".") (hclimb : step ≠ "..") : IsDown step := by
  cases h with
  | stay h => exact absurd h (not_or.mpr hstay)
  | climb => exact absurd rfl hclimb
  | down h => exact h

theorem step_down {here next : Path} {step : String} (h : IsDown step) :
    Step here step next ↔ next = here ++ [step] := by
  refine ⟨fun hstep => hstep.unique (.down h), ?_⟩
  rintro rfl
  exact .down h

/-! ## A way -/

variable {v : Volume} {here place : Path} {way : List String}

/-- The way leads from the first folder to the place. Each step has to start from a folder that
stands. -/
inductive Leads (v : Volume) : Path → List String → Path → Prop
  | arrived (here : Path) : Leads v here [] here
  | goes {here next place : Path} {step : String} {rest : List String}
      (hfolder : v.isFolder here = true) (hstep : Step here step next)
      (hrest : Leads v next rest place) : Leads v here (step :: rest) place

/-- Something stands at the path. -/
def Stands (v : Volume) (p : Path) : Prop := p = [] ∨ v.get p ≠ none

theorem leads_nil : v.Leads here [] place ↔ place = here := by
  refine ⟨?_, ?_⟩
  · rintro ⟨⟩
    rfl
  · rintro rfl
    exact .arrived place

theorem leads_cons {step : String} {rest : List String} :
    v.Leads here (step :: rest) place ↔
      v.isFolder here = true ∧ ∃ next, Step here step next ∧ v.Leads next rest place := by
  refine ⟨?_, ?_⟩
  · rintro (_ | ⟨hfolder, hstep, hrest⟩)
    exact ⟨hfolder, _, hstep, hrest⟩
  · rintro ⟨hfolder, next, hstep, hrest⟩
    exact .goes hfolder hstep hrest

theorem Leads.unique {other : Path} (h : v.Leads here way place) (h' : v.Leads here way other) :
    place = other := by
  induction h with
  | arrived => exact (leads_nil.mp h').symm
  | goes _ hstep _ ih =>
    obtain ⟨_, next, hstep', hrest⟩ := leads_cons.mp h'
    rw [hstep'.unique hstep] at hrest
    exact ih hrest

theorem leads_append {rest : List String} :
    v.Leads here (way ++ rest) place ↔ ∃ mid, v.Leads here way mid ∧ v.Leads mid rest place := by
  induction way generalizing here with
  | nil => simp [leads_nil]
  | cons step way ih =>
    simp only [List.cons_append, leads_cons, ih]
    refine ⟨?_, ?_⟩
    · rintro ⟨hfolder, next, hstep, mid, hway, hrest⟩
      exact ⟨mid, ⟨hfolder, next, hstep, hway⟩, hrest⟩
    · rintro ⟨mid, ⟨hfolder, next, hstep, hway⟩, hrest⟩
      exact ⟨hfolder, next, hstep, mid, hway, hrest⟩

theorem reaches_cons {step : String} {rest : List String} :
    v.reaches here (step :: rest) = true ↔
      v.isFolder here = true ∧ ∃ next, Step here step next ∧ v.reaches next rest = true := by
  rw [reaches, Bool.and_eq_true]
  apply and_congr_right
  intro _
  refine ⟨?_, ?_⟩
  · intro h
    split at h
    · next hstay => exact ⟨here, .stay hstay, h⟩
    · next hstay =>
      split at h
      · next hclimb =>
        subst hclimb
        exact ⟨here.dropLast, .climb, h⟩
      · next hclimb =>
        obtain ⟨hempty, hdot⟩ := not_or.mp hstay
        obtain ⟨hname, hrest⟩ := (Bool.and_eq_true _ _).mp h
        exact ⟨_, .down ⟨hempty, hdot, hclimb, hname⟩, hrest⟩
  · rintro ⟨next, hstep, hrest⟩
    cases hstep with
    | stay hstay => rwa [if_pos hstay]
    | climb => rwa [if_neg (by decide), if_pos rfl]
    | down hdown =>
      rw [if_neg (not_or.mpr ⟨hdown.ne_empty, hdown.ne_dot⟩), if_neg hdown.ne_dots, hdown.named]
      exact hrest

/-- The end of a way is reached exactly if the way leads to a place where something stands. -/
theorem reaches_iff :
    v.reaches here way = true ↔ ∃ place, v.Leads here way place ∧ v.Stands place := by
  induction way generalizing here with
  | nil => simp [reaches, leads_nil, Stands, Option.isSome_iff_ne_none]
  | cons step rest ih =>
    simp only [reaches_cons, leads_cons, ih]
    refine ⟨?_, ?_⟩
    · rintro ⟨hfolder, next, hstep, place, hrest, hstands⟩
      exact ⟨place, ⟨hfolder, next, hstep, hrest⟩, hstands⟩
    · rintro ⟨place, ⟨hfolder, next, hstep, hrest⟩, hstands⟩
      exact ⟨hfolder, next, hstep, place, hrest, hstands⟩

/-- Names lead to what they name below the folder. -/
theorem Leads.eq_append (h : v.Leads here way place) (hdown : ∀ step ∈ way, IsDown step) :
    place = here ++ way := by
  induction h with
  | arrived => simp
  | goes _ hstep _ ih =>
    obtain ⟨hfirst, hrest⟩ := List.forall_mem_cons.mp hdown
    rw [ih hrest, (step_down hfirst).mp hstep, List.append_assoc, List.singleton_append]

/-- A way that does not climb stays below the folder. -/
theorem Leads.stays_below (h : v.Leads here way place) (hclimb : ".." ∉ way) : here <+: place := by
  induction h with
  | arrived => exact List.prefix_rfl
  | goes _ hstep _ ih =>
    obtain ⟨hfirst, hrest⟩ := not_or.mp (mt List.mem_cons.mpr hclimb)
    cases hstep with
    | stay _ => exact ih hrest
    | climb => exact absurd rfl hfirst
    | down _ => exact (List.prefix_append _ _).trans (ih hrest)

/-- The names of an entry of a tree lead to it. -/
theorem IsTree.leads (h : v.IsTree) (hdown : ∀ step ∈ way, IsDown step)
    (hstands : v.Stands (here ++ way)) : v.Leads here way (here ++ way) := by
  induction way generalizing here with
  | nil => simpa using Leads.arrived here
  | cons step rest ih =>
    obtain ⟨hfirst, hrest⟩ := List.forall_mem_cons.mp hdown
    have hget : v.get (here ++ step :: rest) ≠ none := hstands.resolve_left (by simp)
    have hfolder : v.isFolder here = true :=
      h.isFolder_above _ (List.cons_ne_nil step rest) (Option.isSome_iff_ne_none.mpr hget)
    rw [List.append_cons] at hstands ⊢
    exact .goes hfolder (.down hfirst) (ih hrest hstands)

/-! ## Written paths -/

/-- The path that a text stands for from a folder, written from the root. -/
def written (base : Path) (text : String) : String :=
  if text.toList.head? = some '/' then text
  else String.join (base.map fun name => "/" ++ name) ++ "/" ++ text

theorem holds_iff {base : Path} {text : String} :
    v.holds base text = true ↔ (utf8 (written base text)).length ≤ pathLimit ∧
      ∃ place, v.Leads [] (steps (written base text)) place ∧ v.Stands place := by
  rw [← reaches_iff, ← decide_eq_true_iff (p := _ ≤ _), ← Bool.and_eq_true]
  rfl

theorem steps_append_slash (front text : String) :
    steps (front ++ "/" ++ text) = steps front ++ steps text := by
  obtain ⟨before, last, hfront⟩ := Text.exists_last_field '/' front.toList
  have hslash : Text.fields '/' ('/' :: text.toList) = [] :: Text.fields '/' text.toList := rfl
  have hcut := Text.fields_append hfront hslash
  simp [steps, hcut, hfront]

theorem steps_eq_self {name : String} (h : '/' ∉ name.toList) : steps name = [name] := by
  rw [steps, Text.fields_eq_self '/' h, List.map_singleton, String.ofList_toList]

theorem steps_join {base : Path} (h : ∀ name ∈ base, '/' ∉ name.toList) :
    steps (String.join (base.map fun name => "/" ++ name)) = "" :: base := by
  induction base using List.reverseRecOn with
  | nil => rfl
  | append_singleton base name ih =>
    rw [List.forall_mem_append, List.forall_mem_singleton] at h
    have hjoin : String.join ((base ++ [name]).map fun name => "/" ++ name) =
        String.join (base.map fun name => "/" ++ name) ++ "/" ++ name := by
      simp [String.append_assoc]
    rw [hjoin, steps_append_slash, ih h.1, steps_eq_self h.2, List.cons_append]

/-- The folder from which a written path starts. -/
def origin (base : Path) (text : String) : Path := if text.toList.head? = some '/' then [] else base

theorem steps_ne_nil (text : String) : steps text ≠ [] := by
  simpa [steps] using Text.fields_ne_nil '/' text.toList

/-- The way of a written path from the root goes through the folder where the path starts. -/
theorem IsTree.leads_written (h : v.IsTree) {base : Path} (hbase : ∀ name ∈ base, IsPlain name)
    (text : String) :
    v.Leads [] (steps (written base text)) place ↔
      v.Leads (origin base text) (steps text) place := by
  unfold written origin
  split
  · rfl
  · rw [steps_append_slash, steps_join fun name hname => (hbase name hname).no_slash, leads_append]
    have hdown : ∀ name ∈ base, IsDown name := fun name hname => (hbase name hname).toIsDown
    refine ⟨?_, ?_⟩
    · rintro ⟨mid, hmid, hrest⟩
      obtain ⟨_, root, hroot, hnames⟩ := leads_cons.mp hmid
      rw [hroot.unique (.stay (Or.inl rfl))] at hnames
      rwa [hnames.eq_append hdown, List.nil_append] at hrest
    · -- the text has a first step, which starts from the folder, so the folder stands
      intro hrest
      obtain ⟨step, rest, hsteps⟩ := List.exists_cons_of_ne_nil (steps_ne_nil text)
      have hfolder : v.isFolder base = true := by
        rw [hsteps, leads_cons] at hrest
        exact hrest.1
      have hstands : v.Stands ([] ++ base) := by
        rcases isFolder_iff.mp hfolder with hroot | hget
        · exact Or.inl hroot
        · exact Or.inr (by simp [hget])
      have hroot : v.isFolder [] = true := isFolder_iff.mpr (Or.inl rfl)
      exact ⟨base, .goes hroot (.stay (Or.inl rfl)) (h.leads hdown hstands), hrest⟩

end NetBoot.Volume
