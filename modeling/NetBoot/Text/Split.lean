-- Cutting a text at separators and at fixed pieces.

namespace NetBoot.Text

/-- The pieces between the separators. There is one piece more than separators, so an empty
text has one empty piece. -/
def fields (sep : Char) : List Char → List (List Char)
  | [] => [[]]
  | c :: rest =>
    if c = sep then [] :: fields sep rest
    else
      match fields sep rest with
      | [] => [[c]]
      | piece :: pieces => (c :: piece) :: pieces

/-- The lines of a text. A text that ends in a line feed has a last line that is empty. -/
def lines (s : List Char) : List (List Char) := fields '\n' s

/-- The texts before and after the first separator. -/
def splitOnce? (sep : Char) : List Char → Option (List Char × List Char)
  | [] => none
  | c :: rest =>
    if c = sep then some ([], rest)
    else (splitOnce? sep rest).map fun cut => (c :: cut.1, cut.2)

/-- The rest of a text that starts with `lead`. -/
def after? : (lead s : List Char) → Option (List Char)
  | [], s => some s
  | _ :: _, [] => none
  | l :: lead, c :: s => if l = c then after? lead s else none

/-- The rest after the first place where `part` stands. -/
def afterFirst? (part : List Char) : List Char → Option (List Char)
  | [] => after? part []
  | c :: rest => (after? part (c :: rest)).orElse fun _ => afterFirst? part rest

/-- Whether `part` stands somewhere in the text. -/
def contains (part s : List Char) : Bool := (afterFirst? part s).isSome

/-- Whether the text starts with `lead`. -/
def startsWith (lead s : List Char) : Bool := (after? lead s).isSome

/-- A text always has a first piece. -/
theorem fields_ne_nil (sep : Char) (s : List Char) : fields sep s ≠ [] := by
  cases s with
  | nil => simp [fields]
  | cons c rest =>
    rw [fields]
    split
    · simp
    · split <;> simp

/-- Putting the separators back gives the text. -/
theorem intercalate_fields (sep : Char) (s : List Char) :
    List.intercalate [sep] (fields sep s) = s := by
  induction s with
  | nil => rfl
  | cons c rest ih =>
    rw [fields]
    cases h : fields sep rest with
    | nil => exact absurd h (fields_ne_nil sep rest)
    | cons piece pieces =>
      rw [h] at ih
      split
      · next heq => subst heq; rw [← ih]; simp [List.intercalate]
      · rw [← ih]
        cases pieces <;> simp [List.intercalate]

end NetBoot.Text
