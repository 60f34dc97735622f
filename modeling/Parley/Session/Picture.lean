import Parley.Listing

/-!
# Pictures

What a host is shown of a value or of a code: plain data that no longer refers to a world.
-/

namespace Parley

/-- What a host is shown of a value. -/
inductive Picture where
  | nil
  | bool (b : Bool)
  | int (i : Int)
  | big (i : Int)
  | double (d : Double)
  | string (s : String)
  | symbol (s : Selector)
  | classNamed (name : String)
  | array (items : List Picture)
  /-- An array that lies too deep to be shown. -/
  | arrayBelow
  /-- An instance: its class, its fields, and whether it has the layout of its class. -/
  | object (cls : String) (fields : List Picture) (current : Bool)
  /-- An instance that lies too deep to be shown. -/
  | objectBelow (cls : String)
  /-- A block: its signature, the arguments it takes, and the state of its context. -/
  | block (signature : Selector) (arguments : Nat) (context : Option Marker)
deriving Inhabited, BEq

/-- What a host is shown of a specialized instruction. -/
structure SiteView where
  ip : Nat
  opcode : Opcode
  text : String
  shortcut : Option Shortcut
  chain : Option Chain

/-- What a host is shown of a code. -/
inductive CodeView where
  /-- The code, its literals, its specialized instructions, the name of the class it was compiled
      for, and the blocks among the literals. -/
  | mk (code : Code) (literals : List String) (sites : List SiteView) (holder : Option String)
      (blocks : List CodeView)

namespace World

variable (w : World)

/-- The picture of a value, down to a number of levels. -/
def pictureIn : (levels : Nat) → Value → Picture
  | _, .nil => .nil
  | _, .bool b => .bool b
  | _, .int i => .int i.toInt
  | _, .big i => .big i
  | _, .double d => .double d
  | _, .string _ s => .string s
  | _, .symbol s => .symbol s
  | _, .classRef c => .classNamed (w.classes.name c)
  | _, .block b =>
    let closure := w.heap.closure b
    .block closure.code.signature closure.parameterCount
      (closure.context.map fun f => (w.heap.frame f).marker)
  | 0, .array _ => .arrayBelow
  | levels + 1, .array a => .array ((w.heap.array a).toList.map (pictureIn levels))
  | 0, .object o => .objectBelow (w.classes.name (w.heap.instance_ o).cls)
  | levels + 1, .object o =>
    let i := w.heap.instance_ o
    .object (w.classes.name i.cls) (i.fields.toList.map (pictureIn levels))
      (i.layout.id = (w.classes.get i.cls).layout.id)

/-- The picture of a value. -/
def picture (v : Value) : Picture :=
  w.pictureIn 6 v

/-- The specialized instructions of a code. -/
def siteViews (c : Code) : List SiteView :=
  c.program.tape.starts.filterMap fun ip =>
    (w.sites[(c.id, ip)]?).map fun site =>
      ⟨ip, site.opcode, site.text w.classes w.globals, site.shortcut?, site.chain?⟩

/-- What a host is shown of a code; none if a literal has no finite text. -/
def view? (c : Code) : Option CodeView := do
  let literals ← c.program.literals.toList.mapM w.literalText?
  let blocks ← c.blocks.attach.mapM fun b => view? b.1
  return .mk c literals (w.siteViews c) ((w.holderOf [] c).map w.classes.name) blocks
termination_by c
decreasing_by exact Code.sizeOf_lt_of_mem_blocks b.2

end World

end Parley
