import Parley.Library.Arguments

/-!
# Primitives of numbers

Arithmetic on integers is exact; an integer next to a double is taken as a double. Equality with
something that is not a number is false, any other comparison with it a fault. `to:do:` and
`timesRepeat:` are here for blocks that the compiler did not see.
-/

namespace Parley

/-- The selector of an arithmetic primitive. -/
def Arith.selector : Arith → Selector
  | .add => "+"
  | .sub => "-"
  | .mul => "*"
  | .div => "/"
  | .quo => "//"
  | .rem => "\\\\"

/-- The selector of a comparison. -/
def Comparison.selector : Comparison → Selector
  | .lt => "<"
  | .le => "<="
  | .gt => ">"
  | .ge => ">="
  | .eq => "="
  | .ne => "~="

namespace Numbers

/-- Reports that an operation on two small integers left 64 bits, if it did. -/
def notePromotion (op : Arith) (a b : Value) (w : World) : World :=
  if w.watched then
    match a, b with
    | .int x, .int y =>
      if Number.overflows op x y then
        w.note ⟨.debug, Topic.slowPath, "integer overflow, promoting to big integer",
          [("op", op.name), ("a", x.toInt.repr), ("b", y.toInt.repr)]⟩
      else w
    | _, _ => w
  else w

/-- An operation on two numbers, under a selector. -/
def arith (op : Arith) (selector : Selector) (a b : Value) (w : World) : Job × World :=
  match Number.integer op a b with
  | .value v => (.answer v, notePromotion op a b w)
  | .divisionByZero => (.fail .divisionByZero, w)
  | .inapplicable =>
    match Number.double op a b with
    | .value v => (.answer v, w)
    | _ => (.fail (misfit a selector "a number" b), w)

/-- The quotient of two numbers as doubles. -/
def quotient (a b : Value) : Job :=
  match Number.double .div a b with
  | .value v => .answer v
  | _ => .fail (misfit a "/" "a number" b)

/-- A comparison. -/
def compare (c : Comparison) (a b : Value) : Job :=
  match Number.compare? c a b with
  | some r => .answer (.bool r)
  | none =>
    match c with
    | .eq => .answer (.bool false)
    | .ne => .answer (.bool true)
    | c => .fail (misfit a c.selector "a number" b)

/-- A number with its sign changed. -/
def negated (v : Value) (w : World) : Job × World :=
  match v with
  | .double d => (.answer (.double d.neg), w)
  | v => arith .sub "negated" (.int 0) v w

/-- A number as a double. -/
def asDouble (v : Value) : Job :=
  match Number.double? v with
  | some d => .answer (.double d)
  | none => .fail (.strayReceiver "asDouble sent to" v.typeName)

/-- Evaluates a block for every number from the receiver to a limit. -/
def toDo (arguments : List Value) : Job :=
  orFail <| do
    let start ← smallInteger arguments 0 "to:do:"
    let limit ← smallInteger arguments 1 "to:do:"
    let body ← blockArgument arguments 2 "to:do:"
    return .count start.toInt limit.toInt body (argument arguments 0)

/-- Evaluates a block as often as the receiver says. -/
def timesRepeat (arguments : List Value) : Job :=
  orFail <| do
    let count ← smallInteger arguments 0 "timesRepeat:"
    let body ← blockArgument arguments 1 "timesRepeat:"
    return .cycle count.toInt.toNat body (argument arguments 0)

end Numbers

end Parley
