-- A volume whose entries all stand in folders: what is found at a path there, and what making
-- folders and putting a file changes.
import NetBoot.Proofs.Text.Pieces
import NetBoot.Storage.Volume

namespace NetBoot.Volume

/-- Every entry stands in a folder. -/
def IsTree (v : Volume) : Prop :=
  ∀ (p : Path) (name : String), (v.get (p ++ [name])).isSome = true → v.isFolder p = true

variable {v : Volume}

theorem isFolder_iff {p : Path} : v.isFolder p = true ↔ p = [] ∨ v.get p = some .folder := by
  rw [isFolder, decide_eq_true_iff]

theorem isFolder_congr {w : Volume} {p : Path} (h : w.get p = v.get p) :
    w.isFolder p = v.isFolder p := by
  simp only [isFolder, h]

/-- Everything above an entry is a folder. -/
theorem IsTree.isFolder_above (h : v.IsTree) {p : Path} (rest : Path) (hrest : rest ≠ [])
    (hsome : (v.get (p ++ rest)).isSome = true) : v.isFolder p = true := by
  induction rest generalizing p with
  | nil => exact absurd rfl hrest
  | cons name rest ih =>
    cases rest with
    | nil => exact h p name hsome
    | cons next rest =>
      have hbelow : v.isFolder (p ++ [name]) = true :=
        ih (List.cons_ne_nil next rest) (by simpa using hsome)
      rcases isFolder_iff.mp hbelow with hroot | hfolder
      · simp at hroot
      · exact h p name (by rw [hfolder]; rfl)

/-- Nothing stands below a path that is no folder. -/
theorem IsTree.get_below (h : v.IsTree) {p : Path} (hp : v.isFolder p ≠ true) (rest : Path)
    (hrest : rest ≠ []) : v.get (p ++ rest) = none := by
  cases hget : v.get (p ++ rest) with
  | none => rfl
  | some e => exact absurd (h.isFolder_above rest hrest (by rw [hget]; rfl)) hp

theorem IsTree.isFolder_of_prefix (h : v.IsTree) {p q : Path} (hp : v.isFolder p = true)
    (hq : q <+: p) : v.isFolder q = true := by
  obtain ⟨rest, rfl⟩ := hq
  by_cases hrest : rest = []
  · simpa [hrest] using hp
  · apply h.isFolder_above rest hrest
    rcases isFolder_iff.mp hp with hroot | hget
    · simp [hrest] at hroot
    · rw [hget]
      rfl

/-! ## Finding -/

theorem descend_of_isFolder {here : Path} (h : v.isFolder here = true) (name : String)
    (rest : Path) : v.descend here (name :: rest) = v.descend (here ++ [name]) rest := by
  rw [descend, if_pos h]

/-- Going down through folders arrives at the path. -/
theorem descend_of_folders {here rest : Path}
    (h : ∀ q, q <+: rest → q ≠ rest → v.isFolder (here ++ q) = true) :
    v.descend here rest = v.descend (here ++ rest) [] := by
  induction rest generalizing here with
  | nil => rw [List.append_nil]
  | cons name rest ih =>
    have hhere : v.isFolder here = true := by
      simpa using h [] List.nil_prefix (List.cons_ne_nil name rest).symm
    rw [descend_of_isFolder hhere, ih]
    · simp
    · intro q hq hne
      simpa using h (name :: q) (List.cons_prefix_cons.mpr ⟨rfl, hq⟩) (by simpa using hne)

/-- What stands at a path of a tree is found there. -/
theorem IsTree.find_of_get (h : v.IsTree) {p : Path} (hp : p ≠ []) {e : Entry}
    (hget : v.get p = some e) : v.find p = .ok e := by
  have habove : ∀ q, q <+: p → q ≠ p → v.isFolder ([] ++ q) = true := by
    rintro q ⟨rest, rfl⟩ hne
    apply h.isFolder_above rest
    · rintro rfl
      simp at hne
    · simp [hget]
  rw [find, descend_of_folders habove, List.nil_append, descend, if_neg hp, hget]

/-- A path is open if nothing stands on the way to it but folders. -/
def IsOpen (v : Volume) (p : Path) : Prop :=
  ∀ q, q <+: p → v.isFolder q = true ∨ v.get q = none

theorem IsOpen.of_prefix {p q : Path} (h : v.IsOpen p) (hq : q <+: p) : v.IsOpen q :=
  fun s hs => h s (hs.trans hq)

theorem descend_eq_missing (here : Path) {rest : Path}
    (hopen : ∀ q, q <+: rest → v.isFolder (here ++ q) = true ∨ v.get (here ++ q) = none)
    (hnone : v.get (here ++ rest) = none) (hne : here ++ rest ≠ []) :
    v.descend here rest = .error .missing := by
  induction rest generalizing here with
  | nil =>
    rw [List.append_nil] at hnone hne
    rw [descend, if_neg hne, hnone]
  | cons name rest ih =>
    rw [descend]
    split
    · apply ih
      · intro q hq
        simpa using hopen (name :: q) (List.cons_prefix_cons.mpr ⟨rfl, hq⟩)
      · simpa using hnone
      · simp
    · next hhere =>
      rcases hopen [] List.nil_prefix with hfolder | hget
      · simp [hhere] at hfolder
      · rw [List.append_nil] at hget
        rw [hget]
        rfl

theorem find_eq_missing {p : Path} (hp : p ≠ []) (hopen : v.IsOpen p) (hnone : v.get p = none) :
    v.find p = .error .missing :=
  descend_eq_missing [] hopen hnone hp

theorem IsTree.of_descend_eq_missing (h : v.IsTree) (here : Path) {rest : Path}
    (hmissing : v.descend here rest = .error .missing) :
    v.get (here ++ rest) = none ∧
      ∀ q, q <+: rest → v.isFolder (here ++ q) = true ∨ v.get (here ++ q) = none := by
  induction rest generalizing here with
  | nil =>
    rw [descend] at hmissing
    split at hmissing
    · cases hmissing
    · split at hmissing
      · next hnone =>
        rw [List.append_nil]
        refine ⟨hnone, fun q hq => ?_⟩
        rw [List.prefix_nil.mp hq, List.append_nil]
        exact Or.inr hnone
      · cases hmissing
  | cons name rest ih =>
    rw [descend] at hmissing
    split at hmissing
    · next hhere =>
      obtain ⟨hnone, hopen⟩ := ih _ hmissing
      refine ⟨by simpa using hnone, fun q hq => ?_⟩
      cases q with
      | nil => exact Or.inl (by simpa using hhere)
      | cons first q =>
        obtain ⟨rfl, hrest⟩ := List.cons_prefix_cons.mp hq
        simpa using hopen q hrest
    · next hhere =>
      split at hmissing
      · next hnone =>
        refine ⟨h.get_below hhere _ (List.cons_ne_nil name rest), fun q _ => Or.inr ?_⟩
        cases q with
        | nil => simpa using hnone
        | cons first q => exact h.get_below hhere _ (List.cons_ne_nil first q)
      · cases hmissing

/-- In a tree, a file is missing exactly where nothing stands and the way to it is open. -/
theorem IsTree.find_eq_missing_iff (h : v.IsTree) {p : Path} (hp : p ≠ []) :
    v.find p = .error .missing ↔ v.get p = none ∧ v.IsOpen p := by
  constructor
  · exact fun hmissing => h.of_descend_eq_missing [] hmissing
  · rintro ⟨hnone, hopen⟩
    exact find_eq_missing hp hopen hnone

theorem descend_eq_ok (here : Path) {rest : Path} {e : Entry} (h : v.descend here rest = .ok e)
    (hne : here ++ rest ≠ []) : v.get (here ++ rest) = some e := by
  induction rest generalizing here with
  | nil =>
    rw [List.append_nil] at hne ⊢
    rw [descend, if_neg hne] at h
    split at h
    · cases h
    · next hget =>
      cases h
      exact hget
  | cons name rest ih =>
    rw [descend] at h
    split at h
    · simpa using ih _ h (by simp)
    · split at h <;> cases h

/-! ## Reading -/

/-- In a tree, the content of a file is read. -/
theorem IsTree.read_of_get (h : v.IsTree) {p : Path} (hp : p ≠ []) {content : Bytes}
    (hget : v.get p = some (.file content)) : v.read p = .ok content := by
  rw [read, h.find_of_get hp hget]

theorem get_of_read {p : Path} (hp : p ≠ []) {content : Bytes} (h : v.read p = .ok content) :
    v.get p = some (.file content) := by
  unfold read at h
  split at h
  · cases h
  · cases h
  · next hfind =>
    cases h
    exact descend_eq_ok [] hfind hp

theorem read_eq_missing {p : Path} : v.read p = .error .missing ↔ v.find p = .error .missing := by
  unfold read
  split
  · next h => rw [h]; simp
  · next h => rw [h]; simp
  · next h => rw [h]; simp

/-- Finding looks only at what stands on the way. -/
theorem descend_congr {w : Volume} (here : Path) {rest : Path}
    (h : ∀ q, q <+: rest → here ++ q ≠ [] → w.get (here ++ q) = v.get (here ++ q)) :
    w.descend here rest = v.descend here rest := by
  induction rest generalizing here with
  | nil =>
    by_cases hroot : here = []
    · simp only [descend, if_pos hroot]
    · have hhere : w.get here = v.get here := by simpa [hroot] using h [] List.nil_prefix
      simp only [descend, hhere]
  | cons name rest ih =>
    have hbelow : w.descend (here ++ [name]) rest = v.descend (here ++ [name]) rest := by
      apply ih
      intro q hq _
      simpa using h (name :: q) (List.cons_prefix_cons.mpr ⟨rfl, hq⟩)
    by_cases hroot : here = []
    · have hfolder : ∀ u : Volume, u.isFolder here = true := fun u =>
        isFolder_iff.mpr (Or.inl hroot)
      rw [descend_of_isFolder (hfolder w), descend_of_isFolder (hfolder v), hbelow]
    · have hhere : w.get here = v.get here := by simpa [hroot] using h [] List.nil_prefix
      rw [descend, descend, isFolder_congr hhere, hhere, hbelow]

theorem read_congr {w : Volume} {p : Path} (h : ∀ q, q <+: p → q ≠ [] → w.get q = v.get q) :
    w.read p = v.read p := by
  simp only [read, find, descend_congr [] h]

/-! ## Making folders -/

theorem mem_leading {above p q : Path} :
    q ∈ leading above p ↔ ∃ s, s ≠ [] ∧ s <+: p ∧ q = above ++ s := by
  induction p generalizing above with
  | nil =>
    simp only [leading, List.not_mem_nil, List.prefix_nil, false_iff]
    rintro ⟨s, hne, hs, _⟩
    exact hne hs
  | cons name rest ih =>
    rw [leading, List.mem_cons, ih]
    constructor
    · rintro (rfl | ⟨s, _, hs, rfl⟩)
      · exact ⟨[name], by simp, by simp, rfl⟩
      · exact ⟨name :: s, by simp, List.cons_prefix_cons.mpr ⟨rfl, hs⟩, by simp⟩
    · rintro ⟨s, hne, hs, rfl⟩
      cases s with
      | nil => exact absurd rfl hne
      | cons first s =>
        obtain ⟨rfl, hrest⟩ := List.cons_prefix_cons.mp hs
        cases s with
        | nil => exact Or.inl rfl
        | cons second s => exact Or.inr ⟨second :: s, by simp, hrest, by simp⟩

theorem mem_leading_root {p q : Path} : q ∈ leading [] p ↔ q ≠ [] ∧ q <+: p := by
  rw [mem_leading]
  constructor
  · rintro ⟨s, hne, hs, rfl⟩
    exact ⟨hne, hs⟩
  · rintro ⟨hne, hq⟩
    exact ⟨q, hne, hq, rfl⟩

theorem get_addFolder (v : Volume) (p q : Path) :
    (v.addFolder p).get q = if q = p ∧ v.get q = none then some .folder else v.get q := by
  unfold addFolder
  by_cases hq : q = p
  · subst hq
    by_cases hnone : v.get q = none
    · simp [hnone]
    · simp [hnone]
  · by_cases hnone : v.get p = none
    · rw [if_pos hnone, get_put_ne _ _ hq, if_neg fun h => hq h.1]
    · rw [if_neg hnone, if_neg fun h => hq h.1]

theorem get_foldl_addFolder (paths : List Path) (v : Volume) (q : Path) :
    (paths.foldl addFolder v).get q =
      if q ∈ paths ∧ v.get q = none then some .folder else v.get q := by
  induction paths generalizing v with
  | nil => simp
  | cons p paths ih =>
    rw [List.foldl_cons, ih, get_addFolder]
    by_cases hp : q = p
    · subst hp
      by_cases hnone : v.get q = none
      · simp [hnone]
      · simp [hnone]
    · simp [hp]

/-- What making the folder at a path does: folders stand all along the path, nothing that stood is
lost, and nothing appears off the path. -/
structure MadeFolder (v w : Volume) (p : Path) : Prop where
  folders : ∀ q, q <+: p → w.isFolder q = true
  kept : ∀ q, v.get q ≠ none → w.get q = v.get q
  others : ∀ q, ¬ q <+: p → w.get q = v.get q

/-- Folders can be made along an open path. -/
theorem makeFolder_of_isOpen {p : Path} (hopen : v.IsOpen p) :
    ∃ w, v.makeFolder p = .ok w ∧ v.MadeFolder w p := by
  have hall : (leading [] p).all (fun q => v.get q = none ∨ v.get q = some .folder) = true := by
    rw [List.all_eq_true]
    intro q hq
    obtain ⟨hne, hprefix⟩ := mem_leading_root.mp hq
    rw [decide_eq_true_iff]
    rcases hopen q hprefix with hfolder | hnone
    · rcases isFolder_iff.mp hfolder with hroot | hget
      · exact absurd hroot hne
      · exact Or.inr hget
    · exact Or.inl hnone
  refine ⟨(leading [] p).foldl addFolder v, by rw [makeFolder, if_pos hall], ?_⟩
  constructor
  case folders =>
    intro q hq
    rw [isFolder_iff, get_foldl_addFolder]
    by_cases hne : q = []
    · exact Or.inl hne
    · right
      have hmem : q ∈ leading [] p := mem_leading_root.mpr ⟨hne, hq⟩
      rcases hopen q hq with hfolder | hnone
      · rcases isFolder_iff.mp hfolder with hroot | hget
        · exact absurd hroot hne
        · simp [hget]
      · simp [hnone, hmem]
  case kept =>
    intro q hsome
    rw [get_foldl_addFolder, if_neg fun h => hsome h.2]
  case others =>
    intro q hq
    rw [get_foldl_addFolder, if_neg fun h => hq (mem_leading_root.mp h.1).2]

theorem foldl_addFolder_of_stands {paths : List Path} (h : ∀ q ∈ paths, v.get q ≠ none) :
    paths.foldl addFolder v = v := by
  induction paths with
  | nil => rfl
  | cons q paths ih =>
    obtain ⟨hq, hpaths⟩ := List.forall_mem_cons.mp h
    rw [List.foldl_cons, addFolder, if_neg hq, ih hpaths]

/-- Making a folder that stands leaves the volume as it is. -/
theorem IsTree.makeFolder_of_isFolder (h : v.IsTree) {p : Path} (hp : v.isFolder p = true) :
    v.makeFolder p = .ok v := by
  have hstands : ∀ q ∈ leading [] p, v.get q = some .folder := by
    intro q hq
    obtain ⟨hne, hprefix⟩ := mem_leading_root.mp hq
    exact (isFolder_iff.mp (h.isFolder_of_prefix hp hprefix)).resolve_left hne
  have hall : (leading [] p).all (fun q => v.get q = none ∨ v.get q = some .folder) = true :=
    List.all_eq_true.mpr fun q hq => decide_eq_true (Or.inr (hstands q hq))
  rw [makeFolder, if_pos hall, foldl_addFolder_of_stands]
  intro q hq
  rw [hstands q hq]
  simp

section MadeFolder

variable {w : Volume} {p : Path}

theorem MadeFolder.isFolder (hmade : v.MadeFolder w p) {q : Path} (hq : v.isFolder q = true) :
    w.isFolder q = true := by
  rcases isFolder_iff.mp hq with hroot | hget
  · exact isFolder_iff.mpr (Or.inl hroot)
  · rw [isFolder_iff, hmade.kept q (by simp [hget])]
    exact Or.inr hget

theorem MadeFolder.isTree (hmade : v.MadeFolder w p) (h : v.IsTree) : w.IsTree := by
  intro q name hsome
  by_cases hprefix : q ++ [name] <+: p
  · exact hmade.folders q ((List.prefix_append q [name]).trans hprefix)
  · rw [hmade.others _ hprefix] at hsome
    exact hmade.isFolder (h q name hsome)

/-- Where the folder stands, making it changes nothing. -/
theorem MadeFolder.get_of_isFolder (hmade : v.MadeFolder w p) (h : v.IsTree)
    (hfolder : v.isFolder p = true) {q : Path} (hq : q ≠ []) : w.get q = v.get q := by
  by_cases hprefix : q <+: p
  · apply hmade.kept
    have hstands := (isFolder_iff.mp (h.isFolder_of_prefix hfolder hprefix)).resolve_left hq
    simp [hstands]
  · exact hmade.others q hprefix

end MadeFolder

/-! ## Putting a file -/

section Put

variable {p : Path} {name : String}

theorem append_name_ne_nil (p : Path) (name : String) : p ++ [name] ≠ [] := by
  simp

theorem IsTree.isOpen_of_get (h : v.IsTree) (hsome : v.get (p ++ [name]) ≠ none) : v.IsOpen p := by
  rintro q ⟨rest, rfl⟩
  left
  apply h.isFolder_above (rest ++ [name]) (append_name_ne_nil rest name)
  rw [← List.append_assoc]
  exact Option.isSome_iff_ne_none.mpr hsome

/-- A file can be put into a folder, unless a folder of that name stands there. -/
theorem IsTree.write_of_isFolder (h : v.IsTree) (hfolder : v.isFolder p = true)
    (hfile : v.get (p ++ [name]) ≠ some .folder) (content : Bytes) :
    v.write (p ++ [name]) content = .ok (v.put (p ++ [name]) (.file content)) := by
  unfold write
  cases hget : v.get (p ++ [name]) with
  | some e =>
    rw [h.find_of_get (append_name_ne_nil p name) hget]
    cases e with
    | folder => exact absurd hget hfile
    | file old => rfl
  | none =>
    have hopen : v.IsOpen (p ++ [name]) := by
      intro q hq
      rcases List.prefix_concat_iff.mp hq with rfl | hprefix
      · exact Or.inr hget
      · exact Or.inl (h.isFolder_of_prefix hfolder hprefix)
    rw [find_eq_missing (append_name_ne_nil p name) hopen hget]
    dsimp only
    rw [List.dropLast_concat, if_pos hfolder]

theorem IsTree.put_file (h : v.IsTree) (hfolder : v.isFolder p = true)
    (hfile : v.get (p ++ [name]) ≠ some .folder) (content : Bytes) :
    (v.put (p ++ [name]) (.file content)).IsTree := by
  intro q next hsome
  have hq : v.isFolder q = true := by
    by_cases heq : q ++ [next] = p ++ [name]
    · rw [(List.append_inj' heq rfl).1]
      exact hfolder
    · rw [get_put_ne _ _ heq] at hsome
      exact h q next hsome
  by_cases heq : q = p ++ [name]
  · rcases isFolder_iff.mp hq with hroot | hget
    · exact isFolder_iff.mpr (Or.inl hroot)
    · rw [heq] at hget
      exact absurd hget hfile
  · rwa [isFolder_congr (get_put_ne _ _ heq)]

end Put

/-! ## Trees stay trees -/

theorem isSome_get {p : Path} : (v.get p).isSome = true ↔ ∃ x ∈ v.entries, p = x.1 := by
  simp [get, List.lookup_isSome_iff]

/-- Whether a volume is a tree is seen from its list of entries. -/
theorem isTree_iff : v.IsTree ↔ ∀ x ∈ v.entries, v.isFolder x.1.dropLast = true := by
  constructor
  · intro h x hx
    have hsome : (v.get x.1).isSome = true := isSome_get.mpr ⟨x, hx, rfl⟩
    rcases List.eq_nil_or_concat x.1 with hroot | ⟨p, name, hpath⟩
    · rw [hroot]
      exact isFolder_iff.mpr (Or.inl rfl)
    · rw [hpath] at hsome ⊢
      rw [List.concat_eq_append] at hsome ⊢
      rw [List.dropLast_concat]
      exact h p name hsome
  · intro h p name hsome
    obtain ⟨x, hx, hpath⟩ := isSome_get.mp hsome
    simpa [← hpath] using h x hx

instance (v : Volume) : Decidable v.IsTree := decidable_of_iff _ isTree_iff.symm

theorem isTree_empty : empty.IsTree := isTree_iff.mpr fun _ hx => by cases hx

theorem IsTree.makeFolder (h : v.IsTree) {p : Path} {w : Volume} (hmake : v.makeFolder p = .ok w) :
    w.IsTree := by
  have hopen : v.IsOpen p := by
    intro q hq
    by_cases hroot : q = []
    · exact Or.inl (isFolder_iff.mpr (Or.inl hroot))
    · unfold Volume.makeFolder at hmake
      split at hmake
      · next hall =>
        rw [List.all_eq_true] at hall
        have hstands := hall q (mem_leading_root.mpr ⟨hroot, hq⟩)
        rcases of_decide_eq_true hstands with hnone | hfolder
        · exact Or.inr hnone
        · exact Or.inl (isFolder_iff.mpr (Or.inr hfolder))
      · cases hmake
  obtain ⟨u, hu, hmade⟩ := makeFolder_of_isOpen hopen
  rw [hmake] at hu
  cases hu
  exact hmade.isTree h

theorem IsTree.write (h : v.IsTree) {p : Path} {content : Bytes} {w : Volume}
    (hwrite : v.write p content = .ok w) : w.IsTree := by
  rcases List.eq_nil_or_concat p with rfl | ⟨q, name, rfl⟩
  · cases hwrite
  rw [List.concat_eq_append] at hwrite
  unfold Volume.write at hwrite
  split at hwrite
  · next hfind =>
    have hget := descend_eq_ok [] hfind (append_name_ne_nil q name)
    rw [List.nil_append] at hget
    cases hwrite
    apply h.put_file (h q name (by rw [hget]; rfl))
    rw [hget]
    simp
  · cases hwrite
  · next hfind =>
    obtain ⟨hnone, _⟩ := (h.find_eq_missing_iff (append_name_ne_nil q name)).mp hfind
    split at hwrite
    · next hfolder =>
      cases hwrite
      rw [List.dropLast_concat] at hfolder
      apply h.put_file hfolder
      rw [hnone]
      simp
    · cases hwrite
  · cases hwrite

theorem IsTree.remove (h : v.IsTree) (p : Path) : (v.remove p).IsTree := by
  intro q name hsome
  rw [get_remove] at hsome
  split at hsome
  · cases hsome
  · next hprefix =>
    have hq : ¬ p.isPrefixOf q = true := by
      intro hpq
      rw [List.isPrefixOf_iff_prefix] at hprefix hpq
      exact hprefix (hpq.trans (List.prefix_append q [name]))
    have hget : (v.remove p).get q = v.get q := by rw [get_remove, if_neg hq]
    rw [isFolder_congr hget]
    exact h q name hsome

/-! ## Reaching -/

/-- Two volumes that agree but for a file, which stands in none, one or both of them. -/
structure AgreesBut (v w : Volume) (file : Path) : Prop where
  ne_nil : file ≠ []
  before : v.get file ≠ some .folder
  after : w.get file ≠ some .folder
  others : ∀ q, q ≠ [] → q ≠ file → w.get q = v.get q

section AgreesBut

variable {w : Volume} {file : Path}

theorem AgreesBut.isFolder_eq (h : v.AgreesBut w file) (q : Path) :
    w.isFolder q = v.isFolder q := by
  by_cases hroot : q = []
  · simp [isFolder, hroot]
  · by_cases hq : q = file
    · subst hq
      simp [isFolder, h.ne_nil, h.before, h.after]
    · exact isFolder_congr (h.others q hroot hq)

/-- The same is reached by ways that do not end in the file's name: one cannot go on from it,
whether it stands or not. -/
theorem AgreesBut.reaches_eq (h : v.AgreesBut w file) {front : List String} {last : String}
    (hlast : file.getLast? ≠ some last) (hstep : last ≠ "" ∧ last ≠ "." ∧ last ≠ "..")
    (here : Path) : w.reaches here (front ++ [last]) = v.reaches here (front ++ [last]) := by
  induction front generalizing here with
  | nil =>
    have hend : w.get (here ++ [last]) = v.get (here ++ [last]) := by
      apply h.others _ (append_name_ne_nil here last)
      rintro rfl
      simp at hlast
    obtain ⟨hempty, hdot, hdots⟩ := hstep
    simp only [List.nil_append, reaches, h.isFolder_eq, hempty, hdot, hdots, hend, or_self,
      if_false]
  | cons step front ih => simp only [List.cons_append, reaches, h.isFolder_eq, ih]

/-- The last step of a path that ends in a name without slashes ends in that name. -/
theorem exists_steps_append (front : String) {name : String} (h : '/' ∉ name.toList) :
    ∃ before start, steps (front ++ name) = before ++ [start ++ name] := by
  obtain ⟨pieces, piece, hpieces⟩ := Text.exists_last_field '/' front.toList
  have hcut := Text.fields_append hpieces (Text.fields_eq_self '/' h)
  refine ⟨pieces.map String.ofList, String.ofList piece, ?_⟩
  rw [steps, String.toList_append, hcut, List.map_append, List.map_singleton, String.ofList_append,
    String.ofList_toList]

/-- The same paths stand that are written with another name at their end. -/
theorem AgreesBut.holds_eq (h : v.AgreesBut w file) {name : String} (hslash : '/' ∉ name.toList)
    (hname : ∀ start : String, file.getLast? ≠ some (start ++ name) ∧
      start ++ name ≠ "" ∧ start ++ name ≠ "." ∧ start ++ name ≠ "..")
    (base : Path) (front : String) :
    w.holds base (front ++ name) = v.holds base (front ++ name) := by
  have hreach : ∀ text : String,
      w.reaches [] (steps (text ++ name)) = v.reaches [] (steps (text ++ name)) := by
    intro text
    obtain ⟨before, start, hsteps⟩ := exists_steps_append text hslash
    obtain ⟨hlast, hstep⟩ := hname start
    rw [hsteps]
    exact h.reaches_eq hlast hstep []
  unfold holds
  dsimp only
  split
  · rw [hreach]
  · rw [← String.append_assoc, hreach]

end AgreesBut

end NetBoot.Volume
