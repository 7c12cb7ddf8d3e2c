-- The settings in force, layer by layer: the environment over the file, and the file over the
-- defaults. Each setting depends on its own key only, and the first text that is not taken is the
-- error.
import Mathlib.Data.List.Basic
import NetBoot.Proofs.Settings.Assignments

namespace NetBoot

theorem Setting.mem_all (s : Setting) : s ∈ all := by cases s <;> decide

namespace Settings

theorem ext_get {c d : Settings} (h : ∀ s, c.get s = d.get s) : c = d := by
  cases c
  cases d
  rw [mk.injEq]
  exact ⟨h .bindAddress, h .bindPort, h .outPort, h .efiOutPort, h .interface, h .apiHost,
    h .apiPort, h .gateway, h .checkFirst, h .userClass, h .dataFolder, h .leaseFile,
    h .leasePollSeconds, h .logFilter⟩

/-! ## The layer of the environment -/

section Environment

variable {env : String → Option String} {s : Setting} {text : String}

/-- The variable of a setting gives this text to that setting and to no other. -/
def Overrides (env : String → Option String) (source s : Setting) (text : String) : Prop :=
  source = s ∧ env source.envName = some text

theorem override_eq_some {source : Setting} :
    ((env source.envName).map fun value => (source, value)) = some (s, text) ↔
      Overrides env source s text := by
  rw [Option.map_eq_some_iff, Overrides]
  refine ⟨?_, ?_⟩
  · rintro ⟨value, h, hpair⟩
    cases hpair
    exact ⟨rfl, h⟩
  · rintro ⟨rfl, h⟩
    exact ⟨text, h, rfl⟩

theorem lastSays_overrides :
    LastSays (fun source text => Overrides env source s text) Setting.all text ↔
      env s.envName = some text := by
  refine ⟨?_, ?_⟩
  · rintro ⟨before, source, after, _, ⟨rfl, h⟩, _⟩
    exact h
  · intro h
    obtain ⟨before, after, hall⟩ := List.append_of_mem s.mem_all
    have hnodup : (before ++ s :: after).Nodup := hall ▸ (by decide : Setting.all.Nodup)
    refine ⟨before, s, after, hall, ⟨rfl, h⟩, ?_⟩
    rintro other hother _ ⟨rfl, _⟩
    exact (List.nodup_cons.mp (List.nodup_append.mp hnodup).2.1).1 hother

theorem allTaken_overrides :
    AllTaken (Overrides env) Setting.all ↔
      ∀ (s : Setting) (text : String), env s.envName = some text → s.Takes text := by
  refine ⟨?_, ?_⟩
  · intro h s text hset
    exact h s s.mem_all s text ⟨rfl, hset⟩
  · rintro h source _ s text ⟨rfl, hset⟩
    exact h source text hset

theorem overrides_congr {env' : String → Option String}
    (h : ∀ s : Setting, env s.envName = env' s.envName) : overrides env = overrides env' := by
  simp only [overrides, h]

end Environment

/-! ## The layer of the file -/

section File

variable {readFile : String → Except FileFault Bytes} {named path : Option String}
  {env : String → Option String} {text : List Char} {c : Settings}

/-- A file that is named and the default file differ only where they are missing. -/
theorem base_eq (readFile : String → Except FileFault Bytes) (named : Option String) :
    base readFile named =
      match readFile (named.getD defaultPath) with
      | .ok content => parseBytes content
      | .error fault =>
        if named = none ∧ fault = .missing then .ok {} else .error (.unreadable fault) := by
  cases named with
  | some path =>
    show (match readFile path with | .ok content => _ | .error fault => _) = _
    simp only [Option.getD_some, reduceCtorEq, false_and, if_false]
  | none =>
    unfold base
    rw [Option.getD_none]
    cases readFile defaultPath with
    | ok content => rfl
    | error fault => cases fault <;> rfl

/-- The file that the settings are read from has this text. Where no file is named it is the default
file, and if that is missing nothing is read. -/
inductive FileText (readFile : String → Except FileFault Bytes) (named : Option String) :
    List Char → Prop
  | read {content : Bytes} {text : List Char} (h : readFile (named.getD defaultPath) = .ok content)
    (htext : Utf8.decode? content = some text) : FileText readFile named text
  | missing (h : named = none) (hmissing : readFile defaultPath = .error .missing) :
    FileText readFile named []

theorem base_of_fileText (h : FileText readFile named text) :
    base readFile named = ((Text.lines text).filterMap assignment?).foldlM assign {} := by
  cases h with
  | read h htext =>
    simp only [base_eq, h, parseBytes, htext, parse, String.toList_ofList, assignments]
  | missing h hmissing =>
    subst h
    rw [base_eq, Option.getD_none, hmissing]
    rfl

theorem fileText_of_base (h : base readFile named = .ok c) : ∃ text, FileText readFile named text := by
  rw [base_eq] at h
  split at h
  · next content hread =>
    unfold parseBytes at h
    split at h
    · next text htext => exact ⟨text, .read hread htext⟩
    · cases h
  · next fault hread =>
    split at h
    · next hmissing =>
      obtain ⟨rfl, rfl⟩ := hmissing
      exact ⟨[], .missing rfl hread⟩
    · cases h

theorem load_of_fileText (h : FileText readFile (path.or (env pathVariable)) text) :
    load readFile path env =
      ((Text.lines text).filterMap assignment?).foldlM assign {} >>= (overrides env).foldlM assign := by
  rw [load, base_of_fileText h]

theorem fileText_of_load (h : load readFile path env = .ok c) :
    ∃ text, FileText readFile (path.or (env pathVariable)) text := by
  obtain ⟨d, hbase, _⟩ := bind_eq_ok.mp h
  exact fileText_of_base hbase

end File

/-! ## The settings in force -/

section InForce

variable {override : Option String} {lines : List (List Char)} {s : Setting} {v : s.Value}

/-- A setting has the value of its variable in the environment, or else that of the last line that
gives it a text, or else its default. -/
inductive InForce (override : Option String) (lines : List (List Char)) (s : Setting) (v : s.Value) :
    Prop
  | override {text : String} (h : override = some text) (hv : s.Denotes text v)
  | line {text : String} (hunset : override = none)
    (h : LastSays (fun line text => Assigns line s text) lines text) (hv : s.Denotes text v)
  | default (hunset : override = none) (hnone : ∀ line ∈ lines, ∀ text, ¬ Assigns line s text)
    (hv : v = ({} : Settings).get s)

theorem InForce.unique {w : s.Value} (hv : InForce override lines s v)
    (hw : InForce override lines s w) : v = w := by
  have hline : ∀ {text}, LastSays (fun line text => Assigns line s text) lines text →
      ¬ ∀ line ∈ lines, ∀ text, ¬ Assigns line s text := by
    rintro text ⟨before, line, after, rfl, hassigns, _⟩ hnone
    exact hnone line (by simp) text hassigns
  have hone : ∀ line x y, Assigns line s x → Assigns line s y → x = y :=
    fun line x y hx hy => hx.unique hy
  cases hv with
  | override h hv =>
    cases hw with
    | override h' hw =>
      cases h.symm.trans h'
      exact hv.unique hw
    | line hunset => cases h.symm.trans hunset
    | default hunset => cases h.symm.trans hunset
  | line hunset h hv =>
    cases hw with
    | override h' => cases hunset.symm.trans h'
    | line _ h' hw =>
      cases h.unique hone h'
      exact hv.unique hw
    | default _ hnone => exact absurd hnone (hline h)
  | default hunset hnone hv =>
    cases hw with
    | override h' => cases hunset.symm.trans h'
    | line _ h' => exact absurd hnone (hline h')
    | default _ _ hw => exact hv.trans hw.symm

/-- What holds of the default and of all that a text can mean holds of the value in force. -/
theorem InForce.of_denotes {P : s.Value → Prop} (h : InForce override lines s v)
    (hdefault : P (({} : Settings).get s)) (htext : ∀ text w, s.Denotes text w → P w) : P v := by
  cases h with
  | override _ hv => exact htext _ v hv
  | line _ _ hv => exact htext _ v hv
  | default _ _ hv => exact hv ▸ hdefault

/-- A setting depends on the lines with its own key only. -/
theorem inForce_linesOf :
    InForce override (linesOf s lines) s v ↔ InForce override lines s v := by
  have hkey : ∀ line text, Assigns line s text → decide (key? line = some s) = true :=
    fun line text h => decide_eq_true (key?_eq_some.mpr ⟨text, h⟩)
  refine ⟨?_, ?_⟩
  · intro h
    cases h with
    | override h hv => exact .override h hv
    | line hunset h hv => exact .line hunset ((lastSays_filter hkey).mp h) hv
    | default hunset hnone hv =>
      refine .default hunset (fun line hline text hassigns => ?_) hv
      exact hnone line (mem_linesOf.mpr ⟨hline, text, hassigns⟩) text hassigns
  · intro h
    cases h with
    | override h hv => exact .override h hv
    | line hunset h hv => exact .line hunset ((lastSays_filter hkey).mpr h) hv
    | default hunset hnone hv =>
      exact .default hunset (fun line hline => hnone line (mem_linesOf.mp hline).1) hv

end InForce

section Layered

variable {env env' : String → Option String} {lines lines' : List (List Char)}
  {result result' : Except SettingsError Settings} {c d : Settings}

/-- What is read from the lines of a file and from the environment. -/
structure Layered (env : String → Option String) (lines : List (List Char))
    (result : Except SettingsError Settings) : Prop where
  /-- There are settings exactly if every text is taken, those that are overridden too. -/
  success : (∃ c, result = .ok c) ↔
    AllTaken Assigns lines ∧
      ∀ (s : Setting) (text : String), env s.envName = some text → s.Takes text
  value {c : Settings} (h : result = .ok c) (s : Setting) :
    InForce (env s.envName) lines s (c.get s)
  /-- The first text that is not taken is the error, and the file comes before the environment. -/
  failure {e : SettingsError} : result = .error e ↔
    ∃ s text, e = .invalid s text ∧
      (FirstRefused Assigns lines s text ∨
        AllTaken Assigns lines ∧ FirstRefused (Overrides env) Setting.all s text)

theorem layered_foldlM (env : String → Option String) (lines : List (List Char)) :
    Layered env lines
      ((lines.filterMap assignment?).foldlM assign {} >>= (overrides env).foldlM assign) where
  success := by
    rw [← allTaken_overrides]
    refine ⟨?_, ?_⟩
    · rintro ⟨c, h⟩
      obtain ⟨m, hfile, henv⟩ := bind_eq_ok.mp h
      exact ⟨(exists_foldlM_eq_ok assignment?_eq_some).mp ⟨m, hfile⟩,
        (exists_foldlM_eq_ok override_eq_some).mp ⟨c, henv⟩⟩
    · rintro ⟨hfile, henv⟩
      obtain ⟨m, hfile⟩ := (exists_foldlM_eq_ok assignment?_eq_some).mpr hfile
      obtain ⟨c, henv⟩ := (exists_foldlM_eq_ok override_eq_some).mpr henv
      exact ⟨c, bind_eq_ok.mpr ⟨m, hfile, henv⟩⟩
  value := by
    intro c h s
    obtain ⟨m, hfile, henv⟩ := bind_eq_ok.mp h
    obtain ⟨hset, hunset⟩ := get_of_foldlM override_eq_some henv s
    obtain ⟨hlast, hnone⟩ := get_of_foldlM assignment?_eq_some hfile s
    cases hvar : env s.envName with
    | some text => exact .override rfl (hset text (lastSays_overrides.mpr hvar))
    | none =>
      have hkept : c.get s = m.get s := by
        refine hunset ?_
        rintro source _ text ⟨rfl, htext⟩
        cases hvar.symm.trans htext
      rw [hkept]
      by_cases h : ∃ line ∈ lines, ∃ text, Assigns line s text
      · obtain ⟨text, h⟩ := exists_lastSays.mpr h
        exact .line rfl h (hlast text h)
      · have hnothing : ∀ line ∈ lines, ∀ text, ¬ Assigns line s text :=
          fun line hline text hassigns => h ⟨line, hline, text, hassigns⟩
        exact .default rfl hnothing (hnone hnothing)
  failure := by
    intro e
    cases hfile : (lines.filterMap assignment?).foldlM assign {} with
    | error d =>
      obtain ⟨s, text, hfirst, rfl⟩ := (foldlM_eq_error assignment?_eq_some).mp hfile
      show Except.error _ = Except.error e ↔ _
      refine ⟨?_, ?_⟩
      · intro h
        cases h
        exact ⟨s, text, rfl, Or.inl hfirst⟩
      · rintro ⟨t, other, rfl, hother | ⟨htaken, _⟩⟩
        · rw [← hfile]
          exact (foldlM_eq_error assignment?_eq_some).mpr ⟨t, other, hother, rfl⟩
        · exact absurd htaken (exists_firstRefused.mp ⟨s, text, hfirst⟩)
    | ok m =>
      have htaken := (exists_foldlM_eq_ok assignment?_eq_some).mp ⟨m, hfile⟩
      show (overrides env).foldlM assign m = .error e ↔ _
      rw [overrides, foldlM_eq_error override_eq_some]
      refine exists_congr fun s => exists_congr fun text => ?_
      have hnot : ¬ FirstRefused Assigns lines s text :=
        fun hfirst => exists_firstRefused.mp ⟨s, text, hfirst⟩ htaken
      rw [or_iff_right hnot, and_iff_right htaken, and_comm]

/-- A setting is the same where the lines with its key and its variable are. -/
theorem Layered.get_congr (h : Layered env lines (.ok c)) (h' : Layered env' lines' (.ok d))
    {s : Setting} (henv : env s.envName = env' s.envName)
    (hlines : linesOf s lines = linesOf s lines') :
    c.get s = d.get s := by
  have hc := inForce_linesOf.mpr (h.value rfl s)
  have hd := inForce_linesOf.mpr (h'.value rfl s)
  rw [henv, hlines] at hc
  exact hc.unique hd

theorem allTaken_congr (hlines : ∀ s, linesOf s lines = linesOf s lines') :
    AllTaken Assigns lines → AllTaken Assigns lines' := by
  intro h line hline s text hassigns
  have hmem : line ∈ linesOf s lines := by
    rw [hlines]
    exact mem_linesOf.mpr ⟨hline, text, hassigns⟩
  exact h line (mem_linesOf.mp hmem).1 s text hassigns

/-- The settings are the same where the lines of each key are, in whatever order the keys come. -/
theorem Layered.ok_congr (h : Layered env lines result) (h' : Layered env' lines' result')
    (henv : ∀ s : Setting, env s.envName = env' s.envName)
    (hlines : ∀ s, linesOf s lines = linesOf s lines')
    (hresult : result = .ok c) : result' = .ok c := by
  obtain ⟨hfile, hset⟩ := h.success.mp ⟨c, hresult⟩
  simp only [henv] at hset
  obtain ⟨d, hd⟩ := h'.success.mpr ⟨allTaken_congr hlines hfile, hset⟩
  subst hresult hd
  rw [ext_get fun s => h.get_congr h' (henv s) (hlines s)]

end Layered

/-- Lines that are no assignments are passed over. -/
theorem filterMap_assignment?_filter (lines : List (List Char)) :
    (lines.filter (¬ IsIdle ·)).filterMap assignment? = lines.filterMap assignment? := by
  rw [List.filterMap_filter]
  refine List.filterMap_congr fun line _ => ?_
  by_cases h : IsIdle line
  · rw [if_neg (by simpa using h), Option.map_eq_none_iff.mp (isIdle_iff.mp h)]
  · rw [if_pos (by simpa using h)]

/-! ## Loading -/

/-- There are no settings with an interval of zero or with an interface without a name. -/
theorem load_bounds {readFile : String → Except FileFault Bytes} {path : Option String}
    {env : String → Option String} {c : Settings} (h : load readFile path env = .ok c) :
    1 ≤ c.leasePollSeconds.toNat ∧ c.interface ≠ some "" := by
  obtain ⟨text, hfile⟩ := fileText_of_load h
  have hvalue := (layered_foldlM env (Text.lines text)).value (load_of_fileText hfile ▸ h)
  refine ⟨?_, ?_⟩
  · have hseconds : c.get .leasePollSeconds ≠ 0 := by
      refine (hvalue .leasePollSeconds).of_denotes (P := (· ≠ 0)) (by decide) ?_
      rintro text seconds ⟨_, hne⟩
      exact hne
    exact Nat.pos_of_ne_zero fun hzero => hseconds (UInt64.toNat_inj.mp hzero)
  · refine (hvalue .interface).of_denotes (P := (· ≠ some "")) (by decide) ?_
    intro text name hname
    rw [show name = if text = "" then none else some text from hname]
    split
    · exact nofun
    · next hne => exact fun h => hne (Option.some.inj h)

/-- Settings are layered by key. They load exactly if every value of the file and of the environment
is taken, and the first one that is not is the error. Each of them is what its variable says, or
else the last line with its key, or else its default. So the order of the lines of different keys
plays no part, and neither do lines that are no assignments. The leases are never polled without a
pause, and an interface has a name. -/
theorem settings_are_layered_by_key (readFile : String → Except FileFault Bytes)
    (path : Option String) (env : String → Option String) :
    (∀ c, load readFile path env = .ok c →
      1 ≤ c.leasePollSeconds.toNat ∧ c.interface ≠ some "") ∧
    ∀ text, FileText readFile (path.or (env pathVariable)) text →
      Layered env (Text.lines text) (load readFile path env) ∧
      ∀ readFile' path' env' text', FileText readFile' (path'.or (env' pathVariable)) text' →
        (∀ (s : Setting) (c d : Settings), env s.envName = env' s.envName →
          linesOf s (Text.lines text) = linesOf s (Text.lines text') →
          load readFile path env = .ok c → load readFile' path' env' = .ok d →
          c.get s = d.get s) ∧
        ((∀ s : Setting, env s.envName = env' s.envName) →
          (∀ s, linesOf s (Text.lines text) = linesOf s (Text.lines text')) →
          ∀ c, load readFile path env = .ok c ↔ load readFile' path' env' = .ok c) ∧
        ((∀ s : Setting, env s.envName = env' s.envName) →
          (Text.lines text).filter (¬ IsIdle ·) = (Text.lines text').filter (¬ IsIdle ·) →
          load readFile path env = load readFile' path' env') := by
  refine ⟨fun c => load_bounds, fun text hfile => ?_⟩
  have hlayered := load_of_fileText hfile ▸ layered_foldlM env (Text.lines text)
  refine ⟨hlayered, fun readFile' path' env' text' hfile' => ?_⟩
  have hlayered' := load_of_fileText hfile' ▸ layered_foldlM env' (Text.lines text')
  refine ⟨?_, ?_, ?_⟩
  · intro s c d henv hlines hc hd
    rw [hc] at hlayered
    rw [hd] at hlayered'
    exact hlayered.get_congr hlayered' henv hlines
  · intro henv hlines c
    refine ⟨hlayered.ok_congr hlayered' henv hlines, ?_⟩
    exact hlayered'.ok_congr hlayered (fun s => (henv s).symm) fun s => (hlines s).symm
  · intro henv hlines
    rw [load_of_fileText hfile, load_of_fileText hfile', ← filterMap_assignment?_filter, hlines,
      filterMap_assignment?_filter, overrides_congr henv]

/-- A file that names two ports. -/
def portsFile : String := "out_port = 1068\nefi_out_port = 5011\n"

/-- The same ports the other way round, among lines that are no assignments. -/
def mixedPortsFile : String := "# ports\n\nefi_out_port = 5011\nport = x\nout_port = 1068"

/-- The two files, by name. -/
def portFiles (path : String) : Except FileFault Bytes :=
  if path = "ports" then .ok (utf8 portsFile)
  else if path = "mixed" then .ok (utf8 mixedPortsFile)
  else .error .missing

/-- An environment with one variable. -/
def outPortVariable (name : String) : Option String :=
  if name = "PXE_PROXY_OUT_PORT" then some "2068" else none

theorem environment_goes_over_the_file :
    ∃ c, load portFiles (some "ports") outPortVariable = .ok c ∧
      load portFiles (some "mixed") outPortVariable = .ok c ∧ c.outPort = 2068 ∧
      c.efiOutPort = 5011 ∧ c.bindPort = 4011 := by
  have hfile : FileText portFiles ((some "ports").or (outPortVariable pathVariable))
      portsFile.toList := .read rfl (by decide +kernel)
  have hmixed : FileText portFiles ((some "mixed").or (outPortVariable pathVariable))
      mixedPortsFile.toList := .read rfl (by decide +kernel)
  have hlines : ∀ s ∈ Setting.all, linesOf s (Text.lines portsFile.toList) =
      linesOf s (Text.lines mixedPortsFile.toList) := by decide +kernel
  have hload : load portFiles (some "ports") outPortVariable =
      .ok { outPort := 2068, efiOutPort := 5011 } := by decide +kernel
  obtain ⟨_, hlayers⟩ := settings_are_layered_by_key portFiles (some "ports") outPortVariable
  obtain ⟨_, hother⟩ := hlayers _ hfile
  obtain ⟨_, hsame, _⟩ := hother portFiles (some "mixed") outPortVariable _ hmixed
  exact ⟨_, hload, (hsame (fun _ => rfl) (fun s => hlines s s.mem_all) _).mp hload, rfl, rfl, rfl⟩

end Settings

end NetBoot
