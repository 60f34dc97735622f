import Parley.Class
import Parley.Globals

/-!
# Call sites

What an instruction remembers from one execution to the next. A global read keeps the cell of
its name. A message to super keeps what the lookup found and the epoch of that. Any other
message is bound to an operation (`eager`) or has a dispatch chain.

A dispatch chain is a list of guarded entries which grows at its end only. A guard is the class
of the receiver or, for instances, their layout. An entry made in an earlier epoch matches
nothing; it is replaced where it sits when its receiver comes along again. A miss that finds the
chain full turns it *megamorphic*, and it looks up every call from then on.
-/

namespace Parley

/-- What the receivers of an entry have in common. -/
inductive Guard where
  /-- They are no instances and are of this class. -/
  | ofClass (c : ClassRef)
  /-- They are instances with this layout. -/
  | ofLayout (layout : Nat)
deriving DecidableEq, Inhabited

/-- What an entry leads to. -/
inductive Target where
  | invoke (i : Invokable)
  /-- Nothing was found. -/
  | notUnderstood
deriving Inhabited

/-- The target that a lookup leads to. -/
def Target.ofLookup : Option Invokable → Target
  | some i => .invoke i
  | none => .notUnderstood

/-- An entry of a dispatch chain. -/
structure Entry where
  guard : Guard
  /-- The epoch of the lookup. -/
  epoch : Nat
  target : Target
deriving Inhabited

/-- What a dispatch chain holds. -/
inductive ChainState where
  | cached (entries : List Entry)
  | megamorphic
deriving Inhabited

/-- The cache of one call site. -/
structure Chain where
  selector : Selector
  state : ChainState
deriving Inhabited

namespace Chain

/-- A chain that was never used. -/
def new (s : Selector) : Chain := ⟨s, .cached []⟩

/-- The number of entries. -/
def depth (c : Chain) : Nat :=
  match c.state with
  | .cached entries => entries.length
  | .megamorphic => 0

def isMegamorphic (c : Chain) : Bool :=
  match c.state with
  | .cached _ => false
  | .megamorphic => true

/-- A chain in listings. -/
def text (c : Chain) : String :=
  "DispatchChain \x7b selector: " ++ c.selector.hashed ++ ", depth: " ++ c.depth.repr ++
    ", megamorphic: " ++ (if c.isMegamorphic then "true" else "false") ++ " \x7d"

/-- The target of the first entry for a guard that was made in an epoch. -/
def hit? (entries : List Entry) (g : Guard) (epoch : Nat) : Option Target :=
  (entries.find? fun e => e.epoch = epoch && e.guard = g).map (·.target)

/-- What a miss does to a chain. -/
inductive Miss where
  /-- An entry that came in between leads to this target. -/
  | found (t : Target)
  /-- The entry at a place is out of date. -/
  | refresh (slot : Nat)
  /-- The chain is full. -/
  | full
  /-- There is room for an entry. -/
  | grow
deriving Inhabited

/-- What a miss does to entries, of which there may be `bound`. -/
def miss (entries : List Entry) (g : Guard) (epoch bound : Nat) : Miss :=
  match hit? entries g epoch with
  | some t => .found t
  | none =>
    match entries.findIdx? fun e => e.guard = g with
    | some slot => .refresh slot
    | none => if bound ≤ entries.length then .full else .grow

end Chain

/-- What an instruction is specialized to. -/
inductive Site where
  | global (cell : CellRef)
  | chain (c : Chain)
  | super (target : Option Invokable) (epoch : Nat)
  /-- Bound to an operation for receivers of a class, as long as the epoch lasts. -/
  | eager (op : Shortcut) (cls : ClassRef) (epoch arity : Nat)
deriving Inhabited

namespace Site

/-- The opcode that the instruction goes by in listings. -/
def opcode : Site → Opcode
  | .global _ => .quickened .global
  | .chain _ | .super _ _ => .quickened .send
  | .eager _ _ _ 0 => .quickened .eager1
  | .eager _ _ _ 1 => .quickened .eager2
  | .eager _ _ _ _ => .quickened .eager3

def chain? : Site → Option Chain
  | .chain c => some c
  | _ => none

def shortcut? : Site → Option Shortcut
  | .eager op _ _ _ => some op
  | _ => none

/-- A specialization in listings. -/
def text (t : ClassTable) (g : Globals) : Site → String
  | .global cell => "-> " ++ g.nameOf cell
  | .chain c => if c.isMegamorphic then "megamorphic" else "chain depth " ++ c.depth.repr
  | .super (some i) _ => "super -> " ++ i.text
  | .super none _ => "super -> not understood"
  | .eager op cls _ _ => "eager " ++ op.name ++ " on " ++ t.name cls

end Site

end Parley
