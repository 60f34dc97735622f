import Parley.Library.Arguments

/-!
# Primitives of all objects, of classes and of the system

Objects are asked about themselves and their fields. The system object reads and writes globals and
the output.
-/

namespace Parley

/-- A number that is the same for values that are the same thing. A small integer is its own. -/
def Value.hashcode (v : Value) : Int64 :=
  let scattered (kind : UInt64) (h : UInt64) : Int64 := (mixHash kind h >>> 2).toInt64
  match v with
  | .int i => i
  | .nil => scattered 0 0
  | .bool b => scattered 1 (hash b)
  | .big i => scattered 2 (hash i)
  | .double d => scattered 3 (hash d.bits)
  | .string _ s => scattered 4 (hash s)
  | .symbol s => scattered 5 (hash s)
  | .array a => scattered 6 (hash a)
  | .block b => scattered 7 (hash b)
  | .object o => scattered 8 (hash o)
  | .classRef c => scattered 9 (hash c)

namespace Objects

/-- Writes the text of a value, followed by something, to the output, and answers. -/
def printing (v : Value) (ending : String) (answer : Value) (w : World) : Job × World :=
  match w.display? v with
  | some text => (.answer answer, w.write (text ++ ending))
  | none => (.hang, w)

/-- Whether the receiver understands a message. -/
def respondsTo (arguments : List Value) (w : World) : Job :=
  orFail <| do
    let selector ← nameArgument arguments 1 "respondsTo:"
    return .answer (.bool (w.lookup (argument arguments 0) selector).isSome)

/-- The fault that an instance has no field at a place. -/
def noField (index : Nat) (o : ObjectRef) (w : World) : Fault :=
  .fieldOutOfRange index (w.classes.name (w.heap.instance_ o).cls)

/-- A field of the receiver, counted from one in the layout that the receiver has. -/
def instVarAt (arguments : List Value) (w : World) : Job × World :=
  match argument arguments 0 with
  | .object o =>
    match place arguments 1 (w.heap.instance_ o).layout.fieldCount "instVarAt:" with
    | .error f => (.fail f, w)
    | .ok i =>
      match w.heap.readField w.classes o i with
      | (some v, heap) => (.answer v, { w with heap })
      | (none, heap) =>
        let w := { w with heap }
        (.fail (noField i o w), w)
  | v => (.fail (.noInstanceVariables v.typeName), w)

/-- Writes a field of the receiver, counted from one in the layout of its class. -/
def instVarAtPut (arguments : List Value) (w : World) : Job × World :=
  match argument arguments 0 with
  | .object o =>
    let w := { w with heap := (w.heap.updateLayout w.classes o).2 }
    match place arguments 1 (w.heap.instance_ o).layout.fieldCount "instVarAt:put:" with
    | .error f => (.fail f, w)
    | .ok i =>
      let v := argument arguments 2
      match w.heap.writeField w.classes o i v with
      | (true, heap) => (.answer v, { w with heap })
      | (false, heap) =>
        let w := { w with heap }
        (.fail (noField i o w), w)
  | v => (.fail (.noInstanceVariables v.typeName), w)

/-- A new instance of the receiver; an array without elements if it is the class of arrays. -/
def new (v : Value) (w : World) : Job × World :=
  match v with
  | .classRef c =>
    let (v, w) := if c = Core.array then w.newArray [] else w.newInstance c
    (.answer v, w)
  | v => (.fail (.strayReceiver "new sent to non-class" v.typeName), w)

/-- The name of a class. -/
def className (v : Value) (w : World) : Job :=
  match v with
  | .classRef c => .answer (.symbol (w.classes.name c))
  | v => .fail (.strayReceiver "name sent to non-class" v.typeName)

/-- The superclass of a class, nil if there is none. -/
def superclass (v : Value) (w : World) : Job :=
  match v with
  | .classRef c => .answer (((w.classes.get c).superclass.map .classRef).getD .nil)
  | v => .fail (.strayReceiver "superclass sent to non-class" v.typeName)

/-- What is written under a global name, nil if nothing is. -/
def global (arguments : List Value) (w : World) : Job :=
  orFail <| do
    let name ← nameArgument arguments 1 "global:"
    return .answer ((w.globals.read? name).getD .nil)

/-- Writes a global. -/
def globalPut (arguments : List Value) (w : World) : Job × World :=
  match nameArgument arguments 1 "global:put:" with
  | .error f => (.fail f, w)
  | .ok name =>
    let v := argument arguments 2
    (.answer v, w.writeGlobal name v)

/-- Whether anything is written under a global name. -/
def hasGlobal (arguments : List Value) (w : World) : Job :=
  orFail <| do
    let name ← nameArgument arguments 1 "hasGlobal:"
    return .answer (.bool (w.globals.read? name).isSome)

/-- Fails, naming the receiver. -/
def refuse (v : Value) (w : World) : Job :=
  match w.display? v with
  | some text => .fail (.told ("primitive failed on " ++ text))
  | none => .hang

end Objects

end Parley
