import Parley.Library.Arguments

/-!
# Primitives of Booleans and blocks

The control-flow messages, for arguments that the compiler did not see: a block is evaluated, any
other value stands for itself.
-/

namespace Parley.Blocks

/-- The value of a block, or the value itself. -/
def valueOf (v : Value) : Job :=
  match v with
  | .block b => .evaluate b []
  | v => .answer v

/-- Goes on with the truth of a Boolean. -/
def withTruth (v : Value) (go : Bool → Job) : Job :=
  match v with
  | .bool b => go b
  | v => .fail (.notABoolean v.typeName)

/-- Evaluates the receiver with the arguments. -/
def value (arguments : List Value) : Job :=
  match argument arguments 0 with
  | .block b => .evaluate b (arguments.drop 1)
  | v => .fail (.notABlock v.typeName)

/-- How many arguments a block takes. -/
def parameterCount (v : Value) (w : World) : Job :=
  match v with
  | .block b => .answer (countValue (w.heap.closure b).parameterCount)
  | v => .fail (.notABlock v.typeName)

end Parley.Blocks
