import Parley.Machine.Job

/-!
# Arguments of primitives

A primitive is called with the receiver and as many arguments as its selector says. These
functions take one of them for what the primitive needs, or fail with a fault that names the
receiver, the selector and what was expected.
-/

namespace Parley

/-- The value at a place among a receiver and its arguments. -/
def argument (arguments : List Value) (index : Nat) : Value :=
  arguments.getD index .nil

/-- The fault that an argument is of the wrong kind. -/
def misfit (receiver : Value) (selector : Selector) (expected : String) (got : Value) : Fault :=
  .misfit receiver.typeName selector expected got.typeName

/-- A small integer among the arguments. -/
def smallInteger (arguments : List Value) (index : Nat) (selector : Selector) :
    Except Fault Int64 :=
  match argument arguments index with
  | .int i => .ok i
  | v => .error (misfit (argument arguments 0) selector "a small integer" v)

/-- A symbol or string among the arguments, taken as a name. -/
def nameArgument (arguments : List Value) (index : Nat) (selector : Selector) :
    Except Fault Selector :=
  match (argument arguments index).chars? with
  | some s => .ok s
  | none => .error (misfit (argument arguments 0) selector "a selector" (argument arguments index))

/-- A block among the arguments. -/
def blockArgument (arguments : List Value) (index : Nat) (selector : Selector) :
    Except Fault BlockRef :=
  match argument arguments index with
  | .block b => .ok b
  | v => .error (misfit (argument arguments 0) selector "a block" v)

/-- An index among the arguments, counted from one, into something of a size; the place that it
    stands for counts from zero. -/
def place (arguments : List Value) (index : Nat) (size : Nat) (selector : Selector) :
    Except Fault Nat :=
  match smallInteger arguments index selector with
  | .error f => .error f
  | .ok i =>
    if 1 ≤ i.toInt ∧ i.toInt ≤ size then .ok (i.toInt.toNat - 1)
    else .error (.indexOutOfBounds i.toInt (argument arguments 0).typeName size)

/-- A primitive that fails or does a job. -/
def orFail (r : Except Fault Job) : Job :=
  match r with
  | .ok job => job
  | .error f => .fail f

/-- The integer that a count stands for. -/
def countValue (n : Nat) : Value :=
  .int (Int64.ofNat n)

/-- A new string with the text of a value. -/
def textAnswer (v : Value) (w : World) : Job × World :=
  match w.display? v with
  | some text =>
    let (s, w) := w.newString text
    (.answer s, w)
  | none => (.hang, w)

end Parley
