import Parley.Library.Arguments

/-!
# Primitives of strings, symbols and arrays

Strings and symbols are compared and measured by their characters. Arrays have a fixed size and
count their elements from one.
-/

namespace Parley.Collections

/-- A new string: the characters of two after one another. -/
def concat (a b : Value) (w : World) : Job × World :=
  match a.chars?, b.chars? with
  | some s, some t =>
    let (v, w) := w.newString (s ++ t)
    (.answer v, w)
  | _, _ => (.fail (misfit a "," "a string" b), w)

/-- The number of elements or characters. -/
def length (v : Value) (w : World) : Job :=
  match v with
  | .array a => .answer (countValue (w.heap.array a).size)
  | v =>
    match v.chars? with
    | some s => .answer (countValue s.length)
    | none => .fail (.strayReceiver "length sent to" v.typeName)

/-- Whether two strings or symbols have the same characters. -/
def sameText (a b : Value) : Bool :=
  match a.chars?, b.chars? with
  | some s, some t => s = t
  | _, _ => false

/-- The symbol with the characters of a string or symbol. -/
def asSymbol (v : Value) : Job :=
  match v.chars? with
  | some s => .answer (.symbol s)
  | none => .fail (.strayReceiver "asSymbol sent to" v.typeName)

/-- The string of a symbol, one and the same each time. -/
def asString (v : Value) : Value :=
  match v with
  | .symbol s => .string .symbol s
  | v => v

/-- An element of an array. -/
def element (arguments : List Value) (w : World) : Job :=
  match argument arguments 0 with
  | .array a =>
    let items := w.heap.array a
    match place arguments 1 items.size "at:" with
    | .ok i => .answer (items.getD i .nil)
    | .error f => .fail f
  | v => .fail (.strayReceiver "at: sent to" v.typeName)

/-- Writes an element of an array. -/
def setElement (arguments : List Value) (w : World) : Job × World :=
  match argument arguments 0 with
  | .array a =>
    match place arguments 1 (w.heap.array a).size "at:put:" with
    | .ok i =>
      let v := argument arguments 2
      (.answer v, { w with heap := w.heap.setElement a i v })
    | .error f => (.fail f, w)
  | v => (.fail (.strayReceiver "at:put: sent to" v.typeName), w)

/-- A new array of a size, its elements nil. -/
def newArray (arguments : List Value) (w : World) : Job × World :=
  match smallInteger arguments 1 "new:" with
  | .error f => (.fail f, w)
  | .ok size =>
    if size < 0 then (.fail (.negativeSize size.toInt), w)
    else
      let (v, w) := w.newArray (List.replicate size.toInt.toNat .nil)
      (.answer v, w)

end Parley.Collections
