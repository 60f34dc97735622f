import Parley.Machine.Job

/-!
# Telling the handler

A condition goes to the handler of the world, and what the handler comes to is the value of the
expression that raised the condition. The standard handler sends the receiver a message if its
class understands that one, and fails otherwise. A scripted handler records the condition and
does what its script says next.
-/

namespace Parley

/-- The arguments of the message that tells a receiver of a condition. -/
def Condition.handlerArguments (c : Condition) (w : World) : List Value × World :=
  match c with
  | .notUnderstood selector arguments =>
    let (a, w) := w.newArray arguments
    ([.symbol selector, a], w)
  | .escaped block _ => ([.block block], w)
  | .unknownGlobal name => ([.symbol name], w)

/-- The fault that a condition is if nobody handles it. -/
def Condition.fault (c : Condition) (receiver : Value) (w : World) : Fault :=
  let className := w.classes.name (w.classOf receiver)
  match c with
  | .notUnderstood selector _ => .notUnderstood className selector
  | .escaped block _ => .escaped (w.heap.closure block).code.signature className
  | .unknownGlobal name => .unknownGlobal name

namespace Handler

/-- What the standard handler does about a condition. -/
def standardJob (receiver : Value) (c : Condition) (w : World) : Job × World :=
  match w.lookup receiver c.handlerSelector with
  | some i =>
    let (arguments, w) := c.handlerArguments w
    (.invoke i (receiver :: arguments), w)
  | none => (.fail (c.fault receiver w), w)

/-- Writes globals one after another. -/
def writeAll : List (String × Recipe) → World → World
  | [], w => w
  | (name, r) :: rest, w =>
    match r.make .empty w with
    | (.ok v, w) => writeAll rest (w.writeGlobal name v)
    | (.error _, w) => writeAll rest w

/-- Does what a reaction says about a condition; what is pending is in `k`. -/
def react (r : Reaction) (receiver : Value) (c : Condition) (w : World) (k : List Pending) :
    Job × World × List Pending :=
  match r with
  | .restart => (.unwind .restart, w, k)
  | .fail text => (.fail (.told text), w, k)
  | .standard =>
    let (job, w) := standardJob receiver c w
    (job, w, k)
  | .call block arguments =>
    match block.make .empty w with
    | (.error e, w) => (.fail (.told e.message), w, k)
    | (.ok v, w) =>
      match Recipe.makeAll .empty arguments w, v with
      | (.error e, w), _ => (.fail (.told e.message), w, k)
      | (.ok vs, w), .block b => (.evaluate b vs, w, .called :: k)
      | (.ok _, w), v => (.fail (.notABlock v.typeName), w, k)
  | .send selector arguments other =>
    match Recipe.makeAll .empty arguments w with
    | (.error e, w) => (.fail (.told e.message), w, k)
    | (.ok vs, w) =>
      match other with
      | none => (.send selector (receiver :: vs), w, .sent :: k)
      | some r =>
        match r.make .empty w with
        | (.error e, w) => (.fail (.told e.message), w, k)
        | (.ok v, w) => (.send selector (v :: vs), w, .sent :: k)
  | .answer r =>
    match r.make .empty w with
    | (.error e, w) => (.fail (.told e.message), w, k)
    | (.ok v, w) => (.answer v, w, k)

/-- What the handler of a world does about a condition. -/
def job (receiver : Value) (c : Condition) (w : World) (k : List Pending) :
    Job × World × List Pending :=
  match w.handler with
  | .standard =>
    let (job, w) := standardJob receiver c w
    (job, w, k)
  | .scripted replies =>
    match w.display? receiver, w.conditionText? c with
    | some shown, some text =>
      let report := Report.condition c.kind c.handlerSelector shown text
      let w := { w with reports := report :: w.reports }
      match replies with
      | [] => (.answer .nil, w, k)
      | reply :: rest =>
        let w := writeAll reply.writes { w with handler := .scripted rest }
        react reply.reaction receiver c w k
    | _, _ => (.hang, w, k)

end Handler

end Parley
