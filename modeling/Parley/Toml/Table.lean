/-!
# Tables of a settings file

A settings file is a table of entries, which may be tables themselves. Only what settings can be
is kept of an entry; texts, fractions, moments and lists are known to be such and no more.

A table remembers how it came about, because that decides how it may grow. One that a header
only passed through may get a header of its own later. One that a dotted key made may get more
dotted keys. One that was written in braces is complete. A list of tables made by headers grows
at its last table.
-/

namespace Parley.Toml

/-- How a table came about. -/
inductive Origin where
  /-- By a header, or as the root. -/
  | header
  /-- On the way of a header to a deeper table. -/
  | passed
  /-- On the way of a dotted key. -/
  | dotted
  /-- In braces. -/
  | braces
deriving DecidableEq, Inhabited

/-- An entry of a table. -/
inductive Entry where
  | text
  | integer (i : Int)
  | fraction
  | truth (b : Bool)
  | moment
  | list
  | table (origin : Origin) (entries : List (String × Entry))
  /-- A list of tables made by headers; the entries of the last one. -/
  | tables (last : List (String × Entry))
deriving Inhabited

/-- The entries of a table. -/
abbrev Entries := List (String × Entry)

/-- The entry under a key. -/
def Entries.get? (entries : Entries) (key : String) : Option Entry :=
  entries.lookup key

/-- Writes an entry under a key, in the place of the one that was there. -/
def Entries.put (entries : Entries) (key : String) (e : Entry) : Entries :=
  match entries with
  | [] => [(key, e)]
  | (k, old) :: rest => if k = key then (k, e) :: rest else (k, old) :: Entries.put rest key e

/-- Whether a dotted key may go through a table. -/
def Origin.takesDotted : Origin → Bool
  | .passed | .dotted => true
  | .header | .braces => false

/-- Changes the table that a path leads to, making tables on the way. None if something on the
    way is no table or a table that may not grow. -/
def change (dotted : Bool) (path : List String)
    (f : Origin → Entries → Option (Origin × Entries)) (origin : Origin) (entries : Entries) :
    Option (Origin × Entries) :=
  match path with
  | [] => f origin entries
  | key :: path =>
    match entries.get? key with
    | none =>
      (change dotted path f (if dotted then .dotted else .passed) []).map fun (o, inner) =>
        (origin, entries.put key (.table o inner))
    | some (.table o inner) =>
      if o = .braces || (dotted && !o.takesDotted) then none
      else (change dotted path f o inner).map fun (o, inner) =>
        (origin, entries.put key (.table o inner))
    | some (.tables last) =>
      (change dotted path f .header last).map fun (_, last) =>
        (origin, entries.put key (.tables last))
    | some _ => none

/-- Writes an entry under a dotted key, given as the keys before the last and the last. None if
    there is one, or if the table is not made by keys of this kind. -/
def assign (path : List String) (key : String) (e : Entry) (origin : Origin) (entries : Entries) :
    Option (Origin × Entries) :=
  change true path (fun o inner =>
    if (o = .dotted) = path.isEmpty then none
    else match inner.get? key with
      | some _ => none
      | none => some (o, inner.put key e)) origin entries

/-- Opens the table of a header. None if it was made before by a header or a key. -/
def openTable (path : List String) (key : String) (root : Entries) : Option Entries :=
  (change false path (fun o inner =>
    match inner.get? key with
    | none => some (o, inner.put key (.table .header []))
    | some (.table .passed old) => some (o, inner.put key (.table .header old))
    | some _ => none) .header root).map (·.2)

/-- Adds a table to a list of tables. None if the key stands for something else. -/
def openElement (path : List String) (key : String) (root : Entries) : Option Entries :=
  (change false path (fun o inner =>
    match inner.get? key with
    | none | some (.tables _) => some (o, inner.put key (.tables []))
    | some _ => none) .header root).map (·.2)

end Parley.Toml
