import Parley.Library.Blocks
import Parley.Library.Collections
import Parley.Library.Numbers
import Parley.Library.Objects
import Parley.Library.Performing

/-!
# What primitives and shortcuts do

A primitive is given the receiver and the arguments, as many as its selector takes, and answers
the job that is left to do. A shortcut does the same for the operands it is made for and declines
all others; a shortcut that declines has done nothing.
-/

namespace Parley

/-- What a primitive does. -/
def Builtin.apply (b : Builtin) (arguments : List Value) (w : World) : Job × World :=
  let receiver := argument arguments 0
  let first := argument arguments 1
  match b with
  | .identical => (.answer (.bool (receiver.same first)), w)
  | .equal => (.answer (.bool (receiver.equals first)), w)
  | .notEqual => (.answer (.bool (!receiver.equals first)), w)
  | .classOf => (.answer (.classRef (w.classOf receiver)), w)
  | .isNil => (.answer (.bool receiver.isNil), w)
  | .notNil => (.answer (.bool (!receiver.isNil)), w)
  | .yourself => (.answer receiver, w)
  | .printString => textAnswer receiver w
  | .println => Objects.printing receiver "\n" receiver w
  | .hashcode => (.answer (.int receiver.hashcode), w)
  | .perform => (Objects.perform arguments w, w)
  | .performWithArguments => (Objects.performWithArguments arguments w, w)
  | .respondsTo => (Objects.respondsTo arguments w, w)
  | .instVarAt => Objects.instVarAt arguments w
  | .instVarAtPut => Objects.instVarAtPut arguments w
  | .new => Objects.new receiver w
  | .className => (Objects.className receiver w, w)
  | .superclass => (Objects.superclass receiver w, w)
  | .global => (Objects.global arguments w, w)
  | .globalPut => Objects.globalPut arguments w
  | .hasGlobal => (Objects.hasGlobal arguments w, w)
  | .print => Objects.printing first "" receiver w
  | .printNewline => (.answer receiver, w.write "\n")
  -- No time passes.
  | .ticks => (.answer (.int 0), w)
  | .arith op => Numbers.arith op op.selector receiver first w
  | .quotient => (Numbers.quotient receiver first, w)
  | .compare c => (Numbers.compare c receiver first, w)
  | .negated => Numbers.negated receiver w
  | .asDouble => (Numbers.asDouble receiver, w)
  | .toDo => (Numbers.toDo arguments, w)
  | .timesRepeat => (Numbers.timesRepeat arguments, w)
  | .concat => Collections.concat receiver first w
  | .length => (Collections.length receiver w, w)
  | .sameText => (.answer (.bool (Collections.sameText receiver first)), w)
  | .asSymbol => (Collections.asSymbol receiver, w)
  | .asString => (.answer (Collections.asString receiver), w)
  | .at_ => (Collections.element arguments w, w)
  | .atPut => Collections.setElement arguments w
  | .newArray => Collections.newArray arguments w
  | .not => (Blocks.withTruth receiver fun b => .answer (.bool !b), w)
  | .and => (Blocks.withTruth receiver fun b => .answer (if b then first else .bool false), w)
  | .or => (Blocks.withTruth receiver fun b => .answer (if b then .bool true else first), w)
  | .andThen =>
    (Blocks.withTruth receiver fun b => if b then Blocks.valueOf first else .answer
      (.bool false), w)
  | .orElse =>
    (Blocks.withTruth receiver fun b => if b then .answer (.bool true) else Blocks.valueOf first, w)
  | .ifTrue =>
    (Blocks.withTruth receiver fun b => if b then Blocks.valueOf first else .answer .nil, w)
  | .ifFalse =>
    (Blocks.withTruth receiver fun b => if b then .answer .nil else Blocks.valueOf first, w)
  | .ifTrueIfFalse =>
    (Blocks.withTruth receiver fun b =>
      Blocks.valueOf (if b then first else argument arguments 2), w)
  | .ifFalseIfTrue =>
    (Blocks.withTruth receiver fun b =>
      Blocks.valueOf (if b then argument arguments 2 else first), w)
  | .blockValue => (Blocks.value arguments, w)
  | .numArgs => (Blocks.parameterCount receiver w, w)
  | .restart | .replay => (.unwind .restart, w)
  | .collect =>
    let (v, w) := w.newArray arguments
    (.answer v, w)
  | .refuse => (Objects.refuse receiver w, w)

/-- What a shortcut does; none if it is not made for the operands. -/
def Shortcut.apply? (s : Shortcut) (arguments : List Value) (w : World) : Option (Job × World) :=
  let receiver := argument arguments 0
  let first := argument arguments 1
  match s with
  | .arith op =>
    match Number.integer op receiver first with
    | .value v => some (.answer v, Numbers.notePromotion op receiver first w)
    | .divisionByZero => some (.fail .divisionByZero, w)
    | .inapplicable => none
  | .compare c =>
    match receiver, first with
    | .int _, .int _ | .int _, .big _ | .big _, .int _ | .big _, .big _ =>
      (Number.compare? c receiver first).map fun b => (.answer (.bool b), w)
    | _, _ => none
  | .identical => some (.answer (.bool (receiver.same first)), w)
  | .isNil => some (.answer (.bool receiver.isNil), w)
  | .notNil => some (.answer (.bool (!receiver.isNil)), w)
  | .not =>
    match receiver with
    | .bool b => some (.answer (.bool !b), w)
    | _ => none
  | .blockValue _ =>
    match receiver with
    | .block b =>
      if (w.heap.closure b).parameterCount = arguments.length - 1 then
        some (.evaluate b (arguments.drop 1), w)
      else none
    | _ => none
  | .count =>
    match receiver, first, argument arguments 2 with
    | .int start, .int limit, .block body =>
      if (w.heap.closure body).parameterCount = 1 then
        some (.count start.toInt limit.toInt body receiver, w)
      else none
    | _, _, _ => none

end Parley
