import Parley.Library.Builtin
import Parley.Machine.Dispatch
import Parley.Retention

/-!
# What instructions are specialized to

An instruction that sends a message or reads a global is specialized when it is first executed.
A message whose receiver finds a primitive with a shortcut is bound to the shortcut; it stays so
for receivers of that class while the epoch lasts and the shortcut accepts the operands, and has
a dispatch chain for good after the first time that one of this fails. A message to super is
bound to what the lookup above the holder finds, anew in every epoch.
-/

namespace Parley

/-- The place of an instruction: the identity of the code and the offset. -/
abbrev Location := Nat × Nat

namespace World

variable (w : World)

/-- Specializes an instruction. -/
def specialize (l : Location) (site : Site) : World :=
  { w with sites := w.sites.insert l site }

/-- Counts an instruction that is specialized, and reports it. -/
def noteQuickened (message : String) (fields : List (String × String)) : World :=
  let w := w.count fun s => { s with quickenings := s.quickenings + 1 }
  w.note ⟨.trace, Topic.quickening, message, fields⟩

/-- The shortcut that a message may be bound to. -/
def shortcut? (s : Selector) (receiver : Value) : Option Shortcut :=
  if w.settings.eager then (w.lookup receiver s).bind Invokable.shortcut? else none

/-- What a message is specialized to when it is sent first. -/
def firstSite (s : Selector) (receiver : Value) : Site :=
  match w.shortcut? s receiver with
  | some op => .eager op (w.classOf receiver) w.classes.epoch s.arity
  | none => .chain (.new s)

end World

/-! ### Messages -/

/-- Sends a message through the dispatch chain of an instruction. -/
def throughChain (l : Location) (c : Chain) (arguments : List Value) (w : World) : Job × World :=
  let (job, c, w) := c.dispatch arguments w
  (job, w.specialize l (.chain c))

/-- Gives up a shortcut for good, and sends the message through a new dispatch chain. -/
def missShortcut (l : Location) (op : Shortcut) (s : Selector) (arguments : List Value)
    (w : World) : Job × World :=
  let w := w.count fun s => { s with eagerMisses := s.eagerMisses + 1 }
  let w := w.note ⟨.debug, Topic.quickening,
    "eager specialization missed, falling back to dispatch chain",
    [("ip", l.2.repr), ("selector", s), ("kind", op.name),
      ("receiver", (argument arguments 0).typeName)]⟩
  throughChain l (.new s) arguments w

/-- Sends a message by way of what its instruction is specialized to. -/
def throughSite (l : Location) (site : Site) (s : Selector) (arguments : List Value) (w : World) :
    Job × World :=
  match site with
  | .chain c => throughChain l c arguments w
  | .eager op cls epoch _ =>
    if epoch = w.classes.epoch && w.classOf (argument arguments 0) = cls then
      match op.apply? arguments w with
      | some done => done
      | none => missShortcut l op s arguments w
    else missShortcut l op s arguments w
  | site => (.fail (.strayCallSite l.2 site.opcode.name), w)

/-- Sends the message of an instruction. -/
def sendFrom (l : Location) (s : Selector) (arguments : List Value) (w : World) : Job × World :=
  match w.sites[l]? with
  | some site => throughSite l site s arguments w
  | none =>
    let site := w.firstSite s (argument arguments 0)
    let w := w.noteQuickened "quickened send"
      [("ip", l.2.repr), ("selector", s), ("kind", site.opcode.name)]
    throughSite l site s arguments (w.specialize l site)

/-! ### Messages to super -/

/-- The job to call what a message to super found. -/
def superJob (target : Option Invokable) (s : Selector) (arguments : List Value) : Job :=
  match target with
  | some i => .invoke i arguments
  | none => .report (argument arguments 0) (.notUnderstood s (arguments.drop 1))

/-- What a message to super finds above a class. -/
def World.lookupAbove (w : World) (holder : ClassRef) (s : Selector) : Option Invokable :=
  (w.classes.get holder).superclass.bind fun c => w.classes.lookup c s

/-- Binds a message to super, and sends it. -/
def bindSuper (l : Location) (code : Code) (s : Selector) (arguments : List Value)
    (inProgress : List Node) (w : World) : Job × World :=
  match w.holderOf inProgress code with
  | none => (.fail (.superOutsideClass s), w)
  | some holder =>
    let target := w.lookupAbove holder s
    let w := w.noteQuickened "quickened send"
      [("ip", l.2.repr), ("selector", s), ("kind", "super")]
    (superJob target s arguments, w.specialize l (.super target w.classes.epoch))

/-- What a message to super is bound to in this epoch. -/
def World.boundSuper? (w : World) (l : Location) : Option (Option Invokable) :=
  match w.sites[l]? with
  | some (.super target epoch) => if epoch = w.classes.epoch then some target else none
  | _ => none

/-! ### Globals -/

/-- The job to read a cell, for an activation whose method has this receiver. -/
def readCell (cell : CellRef) (receiver : Value) (w : World) : Job :=
  match w.globals.get? cell with
  | some v => .answer v
  | none => .report receiver (.unknownGlobal (w.globals.nameOf cell))

/-- Reads the global of an instruction. -/
def readGlobal (l : Location) (literal : Option (Literal Code)) (receiver : Value) (w : World) :
    Job × World :=
  match w.sites[l]? with
  | some (.global cell) => (readCell cell receiver w, w)
  | some site => (.fail (.strayGlobalSite l.2 site.opcode.name), w)
  | none =>
    match literal with
    | some (.global name) =>
      let (cell, globals) := w.globals.cell name
      let w := { w with globals }
      let w := w.noteQuickened "quickened global" [("ip", l.2.repr), ("name", name)]
      (readCell cell receiver w, w.specialize l (.global cell))
    | _ => (.fail (.notAGlobal l.2), w)

end Parley
