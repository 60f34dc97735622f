import Parley.Value

/-!
# Globals

A global name has one cell for good, made when the name is first mentioned. Code that has found
the cell of a name keeps it and sees every later write. A cell is empty until something is
written into it.
-/

namespace Parley

/-- A place in the table of global cells. -/
abbrev CellRef := Nat

/-- The binding of a global name. -/
structure Cell where
  name : String
  value : Option Value
deriving Inhabited

/-- The global bindings, in the order in which the names were first mentioned. -/
abbrev Globals := Array Cell

namespace Globals

/-- The cell of a name, if there is one. -/
def find? (g : Globals) (name : String) : Option CellRef :=
  g.findIdx? fun c => c.name == name

/-- The cell of a name, made empty if there is none. -/
def cell (g : Globals) (name : String) : CellRef × Globals :=
  match g.find? name with
  | some c => (c, g)
  | none => (g.size, g.push ⟨name, none⟩)

/-- What a cell holds. -/
def get? (g : Globals) (c : CellRef) : Option Value :=
  match g[c]? with
  | some cell => cell.value
  | none => none

/-- The name of a cell. -/
def nameOf (g : Globals) (c : CellRef) : String :=
  (g.getD c default).name

/-- What is written under a name. -/
def read? (g : Globals) (name : String) : Option Value :=
  (g.find? name).bind g.get?

/-- Writes a value under a name. -/
def write (g : Globals) (name : String) (v : Value) : Globals :=
  let (c, g) := g.cell name
  g.modify c fun cell => { cell with value := some v }

end Globals

end Parley
