import Parley.Machine.Execute
import Parley.Machine.Report

/-!
# Steps and runs

A step does the job of a machine, or gives the outcome of a job to what is pending on top. A
machine is final when its job is an outcome and nothing is pending.

An activation that sent a message settles what it is told to settle. A restart takes it back to
its first instruction with an empty stack, in the same frame. An escaped block is reported, in
the name of the receiver of its method, and the answer is then the answer to the message; what
else comes of the report is not for the activation to settle.

A run is as many steps as are allowed. The number of steps allowed to a run is such that a run
which ends does so long before.
-/

namespace Parley

namespace Machine

/-! ### Outcomes -/

/-- Lets an activation settle an unwind of the message that it sent. -/
def settle (a : Activation) (u : Unwind) (w : World) (k : List Pending) : Machine :=
  match u with
  | .restart =>
    let w := w.count fun s => { s with restarts := s.restarts + 1 }
    ⟨w.note ⟨.trace, Topic.unwinding, "activation restarted", []⟩, .execute a.restarted, k⟩
  | .escaped block v =>
    let w := w.count fun s => { s with escapedBlocks := s.escapedBlocks + 1 }
    let receiver := (w.heap.frame (w.heap.home a.frame)).receiver
    ⟨w, .report receiver (.escaped block v), .reporter a :: k⟩
  | u => after k (a.abandon u w)

/-- Gives an answer to what is pending on top of `k`. -/
def resume (top : Pending) (v : Value) (w : World) (k : List Pending) : Machine :=
  match top with
  | .sender a | .reporter a => ⟨w, .execute (a.push v), k⟩
  | .counting next limit body result => ⟨w, .count next limit body result, k⟩
  | .cycling left body result => ⟨w, .cycle left body result, k⟩
  | .sent | .called => ⟨w, .answer v, k⟩

/-- Gives an unwind to what is pending on top of `k`. -/
def unwindInto (top : Pending) (u : Unwind) (w : World) (k : List Pending) : Machine :=
  match top with
  | .sender a => settle a u w k
  | .reporter a => after k (a.abandon u w)
  | .counting _ _ _ _ | .cycling _ _ _ => ⟨w, .unwind u, k⟩
  | .sent => ⟨w, .fail (u.fault w), k⟩
  | .called =>
    match u.text? w with
    | some text => ⟨{ w with reports := .unwound text :: w.reports }, .unwind u, k⟩
    | none => ⟨w, .hang, k⟩

/-! ### Jobs -/

/-- Calls a method or primitive. -/
def invoke (i : Invokable) (arguments : List Value) (w : World) : Job × World :=
  match i with
  | .primitive p =>
    if arguments.length = p.selector.arity + 1 then p.builtin.apply arguments w
    else (.fail (.primitiveArity p.selector (arguments.length - 1)), w)
  | .method c =>
    if arguments.length = c.argumentCount then w.enter c arguments none
    else (.fail (.methodArity c.signature (c.argumentCount - 1) (arguments.length - 1)), w)

/-- Evaluates a block. -/
def evaluate (b : BlockRef) (arguments : List Value) (w : World) : Job × World :=
  let closure := w.heap.closure b
  if closure.parameterCount = arguments.length then
    w.enter closure.code (.block b :: arguments) closure.context
  else (.fail (.blockArity closure.parameterCount arguments.length), w)

/-- Sends a message after a full lookup. -/
def send (s : Selector) (arguments : List Value) (w : World) : Job :=
  match w.lookup (argument arguments 0) s with
  | some i => .invoke i arguments
  | none => .report (argument arguments 0) (.notUnderstood s (arguments.drop 1))

/-- Counts and reports a condition, before the handler is told. -/
def noteCondition (c : Condition) (w : World) : World :=
  match c with
  | .notUnderstood s _ =>
    let w := w.count fun t => { t with notUnderstood := t.notUnderstood + 1 }
    w.note ⟨.debug, Topic.dispatch, "does not understand", [("selector", s)]⟩
  | _ => w

/-- One step of a machine. A machine that is final stays as it is. -/
def step (m : Machine) : Machine :=
  match m with
  | ⟨w, job, k⟩ =>
    match job with
    | .execute a => execute a w k
    | .send s arguments => ⟨w, send s arguments w, k⟩
    | .invoke i arguments => after k (invoke i arguments w)
    | .evaluate b arguments => after k (evaluate b arguments w)
    | .count next limit body result =>
      if next ≤ limit then
        ⟨w, .evaluate body [Number.reduce next], .counting (next + 1) limit body result :: k⟩
      else ⟨w, .answer result, k⟩
    | .cycle left body result =>
      match left with
      | 0 => ⟨w, .answer result, k⟩
      | left + 1 => ⟨w, .evaluate body [], .cycling left body result :: k⟩
    | .report receiver c =>
      let (job, w, k) := Handler.job receiver c (noteCondition c w) k
      ⟨w, job, k⟩
    | .answer v =>
      match k with
      | [] => ⟨w, .answer v, []⟩
      | top :: k => resume top v w k
    | .unwind u =>
      match k with
      | [] => ⟨w, .unwind u, []⟩
      | top :: k => unwindInto top u w k
    | .hang => ⟨w, .hang, k⟩

/-! ### Runs -/

/-- Whether a machine has come to an end, or never will. -/
def isFinal (m : Machine) : Bool :=
  match m.job with
  | .answer _ | .unwind _ => m.pending.isEmpty
  | .hang => true
  | _ => false

/-- A machine after as many steps as it takes, but no more than allowed. -/
def run : (steps : Nat) → Machine → Machine
  | 0, m => m
  | steps + 1, m => if m.isFinal then m else run steps m.step

end Machine

/-- What a run comes to. -/
inductive Outcome where
  | value (v : Value)
  | unwound (u : Unwind)
  /-- It does not end. -/
  | unfinished
deriving DecidableEq, Inhabited

/-- What a machine has come to. -/
def Machine.outcome (m : Machine) : Outcome :=
  match m.job, m.pending with
  | .answer v, [] => .value v
  | .unwind u, [] => .unwound u
  | _, _ => .unfinished

/-- The steps allowed to a run. -/
def allowance : Nat := Nat.pow 2 100

/-- Does a job in a world. -/
def World.perform (w : World) (job : Job) : Outcome × World :=
  let m := Machine.run allowance ⟨w, job, []⟩
  (m.outcome, m.world)

/-- Does a job in a world for a host, to whom an unwind is a fault. -/
def World.result (w : World) (job : Job) : Except Fault Value × World :=
  match w.perform job with
  | (.value v, w) => (.ok v, w)
  | (.unwound u, w) => (.error (u.fault w), w)
  | (.unfinished, w) => (.error (.told "the run does not end"), w)

end Parley
