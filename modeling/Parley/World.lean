import Std.Data.HashMap
import Parley.Fault
import Parley.Heap
import Parley.Lowering
import Parley.Settings
import Parley.Site
import Parley.Statistics
import Parley.Text.Layout
import Parley.Text.Quoted

/-!
# The world of a machine

Everything that a run can change, as one value: the classes, the globals, the heap, what the
instructions are specialized to, the output, and the machine's own counters. Several machines
may share all but the counters (`Thread`); a run works on the thread of its machine.

Values are printed by looking into the world. An array is printed element by element, so one
that holds itself, directly or through others, has no finite text: `display?` answers none for
it. An array that does not is printed within as many levels as there are arrays.
-/

namespace Parley

/-! ### Conditions and handlers -/

/-- What a running program can be asked about. -/
inductive Condition where
  /-- Nothing was found for a message. -/
  | notUnderstood (selector : Selector) (arguments : List Value)
  /-- A block tried to return from a method that had returned already. -/
  | escaped (block : BlockRef) (value : Value)
  /-- A global was read before it was written. -/
  | unknownGlobal (name : String)
deriving DecidableEq, Inhabited

/-- The kind of a condition. -/
def Condition.kind : Condition → String
  | .notUnderstood _ _ => "doesNotUnderstand"
  | .escaped _ _ => "escapedBlock"
  | .unknownGlobal _ => "unknownGlobal"

/-- The message that tells a receiver of a condition. -/
def Condition.handlerSelector : Condition → Selector
  | .notUnderstood _ _ => "doesNotUnderstand:arguments:"
  | .escaped _ _ => "escapedBlock:"
  | .unknownGlobal _ => "unknownGlobal:"

/-- How to come by a value. -/
inductive Recipe where
  | nil
  | bool (b : Bool)
  /-- An integer, small if it fits. -/
  | int (i : Int)
  /-- A big integer even if it would fit. -/
  | big (i : Int)
  | double (d : Double)
  /-- A new string. -/
  | string (s : String)
  | symbol (s : Selector)
  /-- A new array. -/
  | array (items : List Recipe)
  | classNamed (name : String)
  /-- A new instance of a class. -/
  | instanceOf (name : String)
  | register (name : String)
  | global (name : String)
deriving Inhabited

/-- What a scripted handler does about a condition. -/
inductive Reaction where
  /-- Starts the activation that raised the condition again. -/
  | restart
  /-- Fails with a text. -/
  | fail (text : String)
  /-- Does what the standard handler does. -/
  | standard
  /-- Evaluates a block. -/
  | call (block : Recipe) (arguments : List Recipe)
  /-- Sends a message, to the receiver of the condition unless another one is given. -/
  | send (selector : Selector) (arguments : List Recipe) (receiver : Option Recipe)
  | answer (v : Recipe)
deriving Inhabited

/-- One reply of a scripted handler: globals to write first, then the reaction. -/
structure Reply where
  writes : List (String × Recipe)
  reaction : Reaction
deriving Inhabited

/-- Who is told of conditions. -/
inductive Handler where
  /-- The receiver of the condition, if it understands the handler message. -/
  | standard
  /-- A script that answers one condition after another, then nil to all. -/
  | scripted (replies : List Reply)
deriving Inhabited

/-- What a scripted handler saw. -/
inductive Report where
  | condition (kind : String) (handler : Selector) (receiver text : String)
  /-- A block that it evaluated did not answer. -/
  | unwound (text : String)
deriving DecidableEq, Inhabited

/-! ### Output -/

/-- Where the output goes. -/
inductive Sink where
  /-- It is kept. -/
  | kept
  /-- It is written, but the device is full. What was not delivered and does not end a line stays
      behind, and then even an empty write is one too many. -/
  | full (behind : Bool)
deriving DecidableEq, Inhabited

/-! ### The world -/

/-- What belongs to one machine. -/
structure Thread where
  /-- The activations in progress. -/
  depth : Nat
  /-- The activations so far. -/
  activations : Nat
  statistics : Statistics
deriving Inhabited

/-- A machine that has done nothing. -/
def Thread.new : Thread := ⟨0, 0, .zero⟩

/-- Something that a host holds on to. -/
inductive Held where
  | value (v : Value)
  | code (c : Code)
  | chain (c : Chain)
deriving Inhabited

/-- Everything that a run can change. -/
structure World where
  settings : Settings
  classes : ClassTable
  globals : Globals
  heap : Heap
  /-- What instructions are specialized to, by the identity of the code and the offset. -/
  sites : Std.HashMap (Nat × Nat) Site
  supply : Supply
  /-- Every code that was ever made, the last first; blocks are inside their methods. -/
  codes : List Code
  handler : Handler
  /-- What a scripted handler saw, the last first. -/
  reports : List Report
  sink : Sink
  output : String
  /-- Whether events are kept. -/
  watched : Bool
  /-- The events, the last first. -/
  events : List Event
  /-- What the host holds on to. -/
  held : List Held
  thread : Thread
deriving Inhabited

/-- A world with the classes of the library and nothing installed. -/
def World.bare (settings : Settings) (handler : Handler) (sink : Sink) (watched : Bool) :
    World where
  settings
  classes := .initial
  globals := #[]
  heap := .empty
  sites := ∅
  supply := ⟨1, 0, 0, 0⟩
  codes := []
  handler
  reports := []
  sink
  output := ""
  watched
  events := []
  held := []
  thread := .new

namespace World

variable (w : World)

/-- Reports an event. -/
def note (e : Event) : World :=
  if w.watched then { w with events := e :: w.events } else w

/-- Counts something. -/
def count (f : Statistics → Statistics) : World :=
  { w with thread := { w.thread with statistics := f w.thread.statistics } }

/-- Writes output. A write to a full device fails if there is anything to deliver; the run goes
    on all the same. -/
def write (s : String) : World :=
  match w.sink with
  | .kept => { w with output := w.output ++ s }
  | .full behind =>
    if s.isEmpty && !behind then w
    else
      let w := { w with sink := .full (behind || !s.contains '\n') }
      w.note ⟨.warn, Topic.machine, "failed to write program output",
        [("error", "No space left on device (os error 28)")]⟩

/-! ### Values -/

/-- The class of a value. -/
def classOf : Value → ClassRef
  | .nil => Core.nil
  | .bool true => Core.true
  | .bool false => Core.false
  | .int _ | .big _ => Core.integer
  | .double _ => Core.double
  | .string _ _ => Core.string
  | .symbol _ => Core.symbol
  | .array _ => Core.array
  | .block _ => Core.block
  | .object o => (w.heap.instance_ o).cls
  | .classRef c => (w.classes.metaclass? c).getD Core.metaclass

/-- What a message to a value finds. -/
def lookup (v : Value) (s : Selector) : Option Invokable :=
  w.classes.lookup (w.classOf v) s

/-- The text of a value, looking no more than `levels` deep into arrays. -/
def displayIn? : (levels : Nat) → Value → Option String
  | _, .nil => some "nil"
  | _, .bool b => some (Text.truth b)
  | _, .int i => some i.toInt.repr
  | _, .big i => some i.repr
  | _, .double d => some d.text
  | _, .string _ s => some s
  | _, .symbol s => some s.hashed
  | _, .block b => some ("a Block" ++ (w.heap.closure b).parameterCount.repr)
  | _, .object o => some ("a " ++ w.classes.name (w.heap.instance_ o).cls)
  | _, .classRef c => some (w.classes.name c)
  | 0, .array _ => none
  | levels + 1, .array a =>
    ((w.heap.array a).toList.mapM (displayIn? levels)).map fun texts =>
      "#(" ++ Text.joined " " texts ++ ")"

/-- The text of a value; none if it has no finite one. Arrays that do not hold themselves nest no
    deeper than there are arrays. -/
def display? (v : Value) : Option String :=
  w.displayIn? (w.heap.arrays.size + 1) v

/-- The text of a value in listings, where strings are quoted and big integers marked. -/
def debug? (v : Value) : Option String :=
  match v with
  | .string _ s => some (Text.quoted s)
  | .big i => some ("BigInt(" ++ i.repr ++ ")")
  | v => w.display? v

/-- The text of values in listings. -/
def debugList? (vs : List Value) : Option String :=
  (vs.mapM w.debug?).map fun texts => "[" ++ Text.joined ", " texts ++ "]"

/-- A condition in listings. -/
def conditionText? : Condition → Option String
  | .notUnderstood selector arguments =>
    (w.debugList? arguments).map fun texts =>
      "DoesNotUnderstand(" ++ selector.hashed ++ ", " ++ texts ++ ")"
  | .escaped block value =>
    (w.debug? value).map fun text =>
      "EscapedBlock(" ++ (w.heap.closure block).code.signature ++ ", " ++ text ++ ")"
  | .unknownGlobal name => some ("UnknownGlobal(" ++ Selector.hashed name ++ ")")

/-! ### Making things -/

/-- A new string. -/
def newString (s : String) : Value × World :=
  (.string (.string w.supply.string) s,
    { w with supply := { w.supply with string := w.supply.string + 1 } })

/-- A new array. -/
def newArray (items : List Value) : Value × World :=
  let (a, heap) := w.heap.newArray items.toArray
  (.array a, { w with heap })

/-- A new instance of a class. -/
def newInstance (c : ClassRef) : Value × World :=
  let (o, heap) := w.heap.newInstance c (w.classes.get c).layout
  (.object o, { w with heap })

/-- A new primitive. -/
def newPrimitive (selector : Selector) (builtin : Builtin) (shortcut : Option Shortcut) :
    Primitive × World :=
  (⟨w.supply.primitive, selector, builtin, shortcut⟩,
    { w with supply := { w.supply with primitive := w.supply.primitive + 1 } })

/-- Installs a method or primitive in a class. -/
def install (c : ClassRef) (i : Invokable) : World :=
  { w with classes := w.classes.install c i }

/-- Writes a global. -/
def writeGlobal (name : String) (v : Value) : World :=
  { w with globals := w.globals.write name v }

/-- Takes note of a code. -/
def adopt (code : Code) : World :=
  { w with codes := code :: w.codes }

/-- Compiles a method for a class, with or without inlining. -/
def compile (c : ClassRef) (m : MethodTree) (inlining : Bool) :
    Except CompileError Code × World :=
  let l := m.lower c (w.classes.get c).fields inlining w.supply
  let w := { w with supply := l.supply }
  let w := if w.watched then { w with events := l.events ++ w.events } else w
  match l.result with
  | .error e => (.error e, w)
  | .ok code => (.ok code, w.adopt code)

/-- Compiles a method for a class and installs it there. -/
def define (c : ClassRef) (m : MethodTree) : Except CompileError Code × World :=
  match w.compile c m w.settings.inlining with
  | (.error e, w) => (.error e, w)
  | (.ok code, w) => (.ok code, w.install c (.method code))

/-- Makes a class and a global of the same name for it. -/
def defineClass (name : String) (super : ClassRef) (fields : List String) : ClassRef × World :=
  let c := w.classes.next
  let w := { w with classes := w.classes.define name super fields }
  (c, w.writeGlobal name (.classRef c))

/-- Appends a field to a class, and answers its index. -/
def addField (c : ClassRef) (name : String) : Nat × World :=
  let w := { w with classes := w.classes.addField c name }
  let count := (w.classes.get c).fields.length
  (count - 1,
    w.note ⟨.debug, Topic.dispatch, "layout changed",
      [("class", w.classes.name c), ("fields", count.repr)]⟩)

end World

/-! ### Recipes -/

/-- Why a recipe makes no value. -/
inductive Lack where
  | register (name : String)
  | class (name : String)
  | global (name : String)
deriving DecidableEq, Inhabited

/-- The text of a lack. -/
def Lack.message : Lack → String
  | .register name => "no value register '" ++ name ++ "'"
  | .class name => "no class '" ++ name ++ "'"
  | .global name => "no global '" ++ name ++ "'"

mutual

/-- Makes a value, given the registers. -/
def Recipe.make (registers : Directory Value) : Recipe → World → Except Lack Value × World
  | .nil, w => (.ok .nil, w)
  | .bool b, w => (.ok (.bool b), w)
  | .int i, w => (.ok (Number.reduce i), w)
  | .big i, w => (.ok (.big i), w)
  | .double d, w => (.ok (.double d), w)
  | .string s, w =>
    let (v, w) := w.newString s
    (.ok v, w)
  | .symbol s, w => (.ok (.symbol s), w)
  | .array items, w =>
    match Recipe.makeAll registers items w with
    | (.error e, w) => (.error e, w)
    | (.ok vs, w) =>
      let (v, w) := w.newArray vs
      (.ok v, w)
  | .classNamed name, w =>
    match w.classes.named? name with
    | some c => (.ok (.classRef c), w)
    | none => (.error (.class name), w)
  | .instanceOf name, w =>
    match w.classes.named? name with
    | some c =>
      let (v, w) := w.newInstance c
      (.ok v, w)
    | none => (.error (.class name), w)
  | .register name, w =>
    match registers.get? name with
    | some v => (.ok v, w)
    | none => (.error (.register name), w)
  | .global name, w =>
    match w.globals.read? name with
    | some v => (.ok v, w)
    | none => (.error (.global name), w)

/-- Makes values one after another. -/
def Recipe.makeAll (registers : Directory Value) :
    List Recipe → World → Except Lack (List Value) × World
  | [], w => (.ok [], w)
  | r :: rest, w =>
    match r.make registers w with
    | (.error e, w) => (.error e, w)
    | (.ok v, w) =>
      match Recipe.makeAll registers rest w with
      | (.error e, w) => (.error e, w)
      | (.ok vs, w) => (.ok (v :: vs), w)

end

end Parley
