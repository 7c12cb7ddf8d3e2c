-- A volume of folders and files, by path from its root. Reading and writing keep to the rules of
-- a file system: every folder on the way has to stand, and a path may climb with dots only out of
-- a folder that stands.
import NetBoot.Text.Utf8
import NetBoot.Text.Split

namespace NetBoot

/-- Why a file cannot be read or written. -/
inductive FileFault where
  | missing
  | notFolder
  | isFolder
  | badName
  | notText
  /-- Any other cause, in the words of the system. -/
  | other (cause : String)
deriving DecidableEq, Repr

def FileFault.message : FileFault → String
  | missing => "no such file or directory"
  | notFolder => "not a directory"
  | isFolder => "is a directory"
  | badName => "file name too long or not allowed"
  | notText => "stream did not contain valid UTF-8"
  | other cause => cause

inductive Entry where
  | folder
  | file (content : Bytes)
deriving DecidableEq, Repr

/-- The names from the root down to an entry. -/
abbrev Path := List String

/-- The folders and files that stand, by path. The root always stands. -/
structure Volume where
  /-- What stands at each path. Of two entries for one path the first counts. -/
  entries : List (Path × Entry)
deriving DecidableEq, Repr, Inhabited

namespace Volume

/-- What stands at a path. -/
def get (v : Volume) (p : Path) : Option Entry := v.entries.lookup p

/-- A volume with nothing in it. -/
def empty : Volume := ⟨[]⟩

/-- The volume with an entry at a path instead of what stood there. -/
def put (v : Volume) (p : Path) (e : Entry) : Volume :=
  ⟨(p, e) :: v.entries.filter fun x => x.1 ≠ p⟩

/-- Takes away what stands at a path, with all that stands below it. -/
def remove (v : Volume) (p : Path) : Volume := ⟨v.entries.filter fun x => !p.isPrefixOf x.1⟩

/-- A choice by path keeps what stands at the chosen paths, and nothing else. -/
theorem lookup_filter_path (keep : Path → Bool) (p : Path) (l : List (Path × Entry)) :
    (l.filter fun x => keep x.1).lookup p = if keep p then l.lookup p else none := by
  induction l with
  | nil => simp
  | cons x l ih =>
    obtain ⟨q, e⟩ := x
    by_cases hq : p = q
    · subst hq
      cases hk : keep p <;> simp [hk, ih]
    · have hne : (p == q) = false := beq_eq_false_iff_ne.mpr hq
      cases hk : keep q <;> simp [hk, hne, ih, List.lookup_cons]

@[simp] theorem get_empty (p : Path) : empty.get p = none := rfl

@[simp] theorem get_put_self (v : Volume) (p : Path) (e : Entry) : (v.put p e).get p = some e := by
  simp [put, get]

theorem get_put_ne (v : Volume) {p q : Path} (e : Entry) (h : q ≠ p) :
    (v.put p e).get q = v.get q := by
  have hne : (q == p) = false := beq_eq_false_iff_ne.mpr h
  rw [put, get, List.lookup_cons, hne, lookup_filter_path (fun r => decide (r ≠ p))]
  simp [h, get]

theorem get_remove (v : Volume) (p q : Path) :
    (v.remove p).get q = if p.isPrefixOf q then none else v.get q := by
  rw [remove, get, lookup_filter_path (fun r => !p.isPrefixOf r)]
  cases p.isPrefixOf q <;> simp [get]

/-- Whether a folder stands at the path. -/
def isFolder (v : Volume) (p : Path) : Bool := p = [] ∨ v.get p = some .folder

/-- Goes down from the folder `here`, name by name, and gives the entry at the end. -/
def descend (v : Volume) (here : Path) : Path → Except FileFault Entry
  | [] =>
    if here = [] then .ok .folder
    else
      match v.get here with
      | none => .error .missing
      | some e => .ok e
  | name :: rest =>
    if v.isFolder here then v.descend (here ++ [name]) rest
    else if (v.get here).isNone then .error .missing
    else .error .notFolder

/-- The entry at a path. -/
def find (v : Volume) (p : Path) : Except FileFault Entry := v.descend [] p

/-- The content of the file at a path. -/
def read (v : Volume) (p : Path) : Except FileFault Bytes :=
  match v.find p with
  | .error fault => .error fault
  | .ok .folder => .error .isFolder
  | .ok (.file content) => .ok content

/-- The paths that lead to a path, from the first folder on, with the path itself. -/
def leading : (above : Path) → Path → List Path
  | _, [] => []
  | above, name :: rest => (above ++ [name]) :: leading (above ++ [name]) rest

/-- The volume with a folder at a path where nothing stands. -/
def addFolder (v : Volume) (p : Path) : Volume :=
  if v.get p = none then v.put p .folder else v

/-- Makes the folder at a path and the folders above it, where they do not stand yet. -/
def makeFolder (v : Volume) (p : Path) : Except FileFault Volume :=
  if (leading [] p).all (fun q => v.get q = none ∨ v.get q = some .folder) then
    .ok ((leading [] p).foldl addFolder v)
  else .error .notFolder

/-- Puts a file at a path, in a folder that stands, in place of the file there. -/
def write (v : Volume) (p : Path) (content : Bytes) : Except FileFault Volume :=
  match v.find p with
  | .ok (.file _) => .ok (v.put p (.file content))
  | .ok .folder => .error .isFolder
  | .error .missing =>
    if v.isFolder p.dropLast then .ok (v.put p (.file content)) else .error .missing
  | .error fault => .error fault

/-! ## Paths written as text -/

/-- The greatest number of bytes in a name, and in a whole path. -/
def nameLimit : Nat := 255

def pathLimit : Nat := 4095

/-- Whether an entry can have this name. -/
def isName (name : String) : Bool :=
  !name.toList.contains '\x00' ∧ (utf8 name).length ≤ nameLimit

/-- Whether something stands at the end of a way that starts at `here`. An empty step and a
single dot stay where they are, two dots go up one folder, and each step has to start from a
folder. -/
def reaches (v : Volume) (here : Path) : List String → Bool
  | [] => here = [] ∨ (v.get here).isSome
  | step :: rest =>
    v.isFolder here &&
      (if step = "" ∨ step = "." then v.reaches here rest
      else if step = ".." then v.reaches here.dropLast rest
      else isName step && v.reaches (here ++ [step]) rest)

/-- The steps of a path written with slashes. -/
def steps (text : String) : List String := (Text.fields '/' text.toList).map String.ofList

/-- Whether something stands at a path written from the folder `base`. A text that starts with a
slash is a path from the root. -/
def holds (v : Volume) (base : Path) (text : String) : Bool :=
  let whole :=
    if text.toList.head? = some '/' then text
    else String.join (base.map fun name => "/" ++ name) ++ "/" ++ text
  (utf8 whole).length ≤ pathLimit && v.reaches [] (steps whole)

end Volume

end NetBoot
