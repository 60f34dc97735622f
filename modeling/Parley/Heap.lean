import Parley.Class

/-!
# The heap

Arrays, instances, closures and frames, each numbered in the order of making.

A frame holds the arguments and locals of one activation. Closures made in it refer to it and
may outlive the activation, so a frame also records how the activation ended. A frame of a block
knows the frames it is nested in, nearest first; the outermost is the *home*, the frame of the
method that the block is written in.

An instance keeps the layout it has, which falls behind when its class gets a field. It catches
up when an access is out of its range, or when somebody asks it to.
-/

namespace Parley

/-- An instance of a class. -/
structure Instance where
  cls : ClassRef
  layout : Layout
  fields : Array Value
deriving Inhabited

/-- A block with the frame it was made in, if it needs one. -/
structure Closure where
  code : Code
  context : Option FrameRef
deriving Inhabited

/-- The parameters that a closure declares, the block itself not counted. -/
def Closure.parameterCount (c : Closure) : Nat :=
  c.code.argumentCount - 1

/-- The state of an activation. -/
inductive Marker where
  | onStack
  | returnedNormally
  /-- A return to another activation went through it. -/
  | unwound
  /-- It ended by a fault, a restart or an escaped block. -/
  | aborted
deriving DecidableEq, Inhabited

/-- The name of a state in listings. -/
def Marker.name : Marker → String
  | .onStack => "OnStack"
  | .returnedNormally => "ReturnedNormally"
  | .unwound => "UnwoundByNonLocalReturn"
  | .aborted => "Aborted"

/-- The variables of an activation. -/
structure Frame where
  /-- The number of the activation; each machine counts its own from one. -/
  activation : Nat
  /-- The receiver, or the block itself, then the arguments. -/
  arguments : Array Value
  locals : Array Value
  /-- The frames it is nested in, nearest first. -/
  outer : List FrameRef
  marker : Marker
deriving Inhabited

/-- The receiver. -/
def Frame.receiver (f : Frame) : Value :=
  f.arguments.getD 0 .nil

/-- Everything that values refer to, classes apart. -/
structure Heap where
  arrays : Array (Array Value)
  instances : Array Instance
  closures : Array Closure
  frames : Array Frame
deriving Inhabited

namespace Heap

/-- Nothing made yet. -/
def empty : Heap := ⟨#[], #[], #[], #[]⟩

variable (h : Heap)

/-! ### Arrays -/

/-- The elements of an array. -/
def array (a : ArrayRef) : Array Value :=
  h.arrays.getD a #[]

/-- Makes an array. -/
def newArray (items : Array Value) : ArrayRef × Heap :=
  (h.arrays.size, { h with arrays := h.arrays.push items })

/-- Writes an element of an array. -/
def setElement (a : ArrayRef) (i : Nat) (v : Value) : Heap :=
  { h with arrays := h.arrays.modify a fun items => items.setIfInBounds i v }

/-! ### Closures -/

/-- A closure. -/
def closure (b : BlockRef) : Closure :=
  h.closures.getD b default

/-- Makes a closure. -/
def newClosure (c : Closure) : BlockRef × Heap :=
  (h.closures.size, { h with closures := h.closures.push c })

/-! ### Frames -/

/-- A frame. -/
def frame (f : FrameRef) : Frame :=
  h.frames.getD f default

/-- Makes a frame with its locals nil. -/
def newFrame (activation : Nat) (arguments : List Value) (locals : Nat)
    (context : Option FrameRef) : FrameRef × Heap :=
  let outer := match context with
    | some c => c :: (h.frame c).outer
    | none => []
  let f : Frame :=
    ⟨activation, arguments.toArray, Array.replicate locals .nil, outer, .onStack⟩
  (h.frames.size, { h with frames := h.frames.push f })

/-- The frame a number of levels outwards; level zero is the frame itself. -/
def enclosing? (f : FrameRef) (level : Nat) : Option FrameRef :=
  (f :: (h.frame f).outer)[level]?

/-- The outermost frame. -/
def home (f : FrameRef) : FrameRef :=
  (h.frame f).outer.getLastD f

/-- Writes an argument; without effect if there is no such slot. -/
def setArgument (f : FrameRef) (slot : Nat) (v : Value) : Heap :=
  { h with
    frames := h.frames.modify f fun k => { k with arguments := k.arguments.setIfInBounds slot v } }

/-- Writes a local; without effect if there is no such slot. -/
def setLocal (f : FrameRef) (slot : Nat) (v : Value) : Heap :=
  { h with
    frames := h.frames.modify f fun k => { k with locals := k.locals.setIfInBounds slot v } }

/-- Records how an activation ended. Once it has, the record stays. -/
def leave (f : FrameRef) (exit : Marker) : Heap :=
  { h with
    frames := h.frames.modify f fun k =>
      { k with marker := if k.marker = .onStack then exit else k.marker } }

/-! ### Instances -/

/-- An instance. -/
def instance_ (o : ObjectRef) : Instance :=
  h.instances.getD o default

/-- Makes an instance of a class, in the layout given, with its fields nil. -/
def newInstance (cls : ClassRef) (layout : Layout) : ObjectRef × Heap :=
  (h.instances.size,
    { h with instances := h.instances.push ⟨cls, layout, Array.replicate layout.fieldCount .nil⟩ })

/-- An instance with the layout given: fields beyond it are dropped, fields it lacks are nil. -/
def Instance.migrated (i : Instance) (layout : Layout) : Instance :=
  { i with
    layout
    fields := i.fields.extract 0 layout.fieldCount ++
      Array.replicate (layout.fieldCount - i.fields.size) .nil }

/-- Brings an instance to the layout of its class; false if it has it already. -/
def updateLayout (t : ClassTable) (o : ObjectRef) : Bool × Heap :=
  let i := h.instance_ o
  let current := (t.get i.cls).layout
  if i.layout.id = current.id then (false, h)
  else (true, { h with instances := h.instances.modify o fun i => Instance.migrated i current })

/-- Reads a field, after bringing the instance up to date if it has no such field yet. -/
def readField (t : ClassTable) (o : ObjectRef) (index : Nat) : Option Value × Heap :=
  match (h.instance_ o).fields[index]? with
  | some v => (some v, h)
  | none =>
    let (_, h) := h.updateLayout t o
    ((h.instance_ o).fields[index]?, h)

/-- Writes a field, after bringing the instance up to date if it has no such field yet. -/
def writeField (t : ClassTable) (o : ObjectRef) (index : Nat) (v : Value) : Bool × Heap :=
  let h := if index < (h.instance_ o).fields.size then h else (h.updateLayout t o).2
  if index < (h.instance_ o).fields.size then
    (true, { h with
      instances := h.instances.modify o fun i =>
        { i with fields := i.fields.setIfInBounds index v } })
  else (false, h)

end Heap

end Parley
