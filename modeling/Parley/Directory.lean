/-!
# Directories

A directory lists things under names, each name once, in the order in which the names were
first written. Method tables, the table of class names and the global bindings are directories.
-/

namespace Parley

/-- Things under names. -/
structure Directory (α : Type) where
  entries : List (String × α)

namespace Directory

variable {α : Type}

instance : Inhabited (Directory α) := ⟨⟨[]⟩⟩

/-- No names. -/
def empty : Directory α := ⟨[]⟩

/-- The first thing under a name among entries. -/
def getIn (name : String) : List (String × α) → Option α
  | [] => none
  | (n, a) :: rest => if n = name then some a else getIn name rest

/-- What is listed under a name. -/
def get? (d : Directory α) (name : String) : Option α :=
  getIn name d.entries

/-- Lists a thing under a name among entries, in the place of the one that was there. -/
def putIn (name : String) (a : α) : List (String × α) → List (String × α)
  | [] => [(name, a)]
  | (n, b) :: rest => if n = name then (n, a) :: rest else (n, b) :: putIn name a rest

/-- Lists a thing under a name, in the place of the one that was there. -/
def put (d : Directory α) (name : String) (a : α) : Directory α :=
  ⟨putIn name a d.entries⟩

/-- The names, first written first. -/
def names (d : Directory α) : List String :=
  d.entries.map (·.1)

theorem getIn_putIn (name key : String) (a : α) (entries : List (String × α)) :
    getIn key (putIn name a entries) = if key = name then some a else getIn key entries := by
  induction entries with
  | nil =>
    by_cases h : name = key
    · simp [putIn, getIn, h]
    · simp [putIn, getIn, h, Ne.symm h]
  | cons e rest ih =>
    obtain ⟨n, b⟩ := e
    by_cases hn : n = name
    · subst hn
      by_cases h : n = key
      · simp [putIn, getIn, h]
      · simp [putIn, getIn, h, Ne.symm h]
    · by_cases hk : n = key
      · subst hk
        simp [putIn, getIn, hn]
      · simp [putIn, getIn, hn, hk, ih]

/-- After a write the name written holds the new thing and every other name what it held. -/
theorem get?_put (d : Directory α) (name key : String) (a : α) :
    (d.put name a).get? key = if key = name then some a else d.get? key :=
  getIn_putIn name key a d.entries

end Directory

end Parley
