import Parley.World

/-!
# What a machine is doing

A machine has one *job* at a time: to go on with an activation, to send a message, to evaluate a
block, and so on. What needs the outcome of a job in order to go on is *pending* until then; the
pending things form a stack. Every job comes down to an answer or to an *unwind*, one of the ways
to end without a value, and the top of the stack receives it.
-/

namespace Parley

/-- A way to end without a value. -/
inductive Unwind where
  /-- A return to an activation that is still in progress. -/
  | nonLocal (activation : Nat) (v : Value)
  /-- A return by a block from a method that has returned already. -/
  | escaped (block : BlockRef) (v : Value)
  /-- The activation that sent the message is to start again. -/
  | restart
  | failed (f : Fault)
deriving DecidableEq, Inhabited

namespace Unwind

/-- The fault that an unwind is for a host. -/
def fault (w : World) : Unwind → Fault
  | .nonLocal activation _ => .noTarget activation
  | .escaped block _ => .escapeUnhandled (w.heap.closure block).code.signature
  | .restart => .strayRestart
  | .failed f => f

/-- An unwind in listings. -/
def text? (w : World) : Unwind → Option String
  | .nonLocal activation v =>
    (w.debug? v).map fun text =>
      "NonLocalReturn(ActivationId(" ++ activation.repr ++ "), " ++ text ++ ")"
  | .escaped _ v => (w.debug? v).map fun text => "EscapedBlock(" ++ text ++ ")"
  | .restart => some "Restart"
  | .failed f => some ("Error(" ++ f.message ++ ")")

end Unwind

/-- A code in execution. -/
structure Activation where
  code : Code
  frame : FrameRef
  /-- The offset of the next instruction. -/
  ip : Nat
  /-- The operand stack, its top first. -/
  stack : List Value
  /-- The jumps backwards so far. -/
  backEdges : Nat
deriving Inhabited

namespace Activation

/-- An activation before its first instruction. -/
def start (code : Code) (frame : FrameRef) : Activation :=
  ⟨code, frame, 0, [], 0⟩

/-- The activation before its first instruction again, in the same frame. -/
def restarted (a : Activation) : Activation :=
  { a with ip := 0, stack := [] }

/-- The activation with one more value on its stack. -/
def push (a : Activation) (v : Value) : Activation :=
  { a with stack := v :: a.stack }

end Activation

/-- What a machine is to do next. -/
inductive Job where
  /-- Executes the next instruction of an activation. -/
  | execute (a : Activation)
  /-- Sends a message to the first of the values. -/
  | send (s : Selector) (arguments : List Value)
  /-- Calls a method or primitive. -/
  | invoke (i : Invokable) (arguments : List Value)
  /-- Evaluates a block. -/
  | evaluate (b : BlockRef) (arguments : List Value)
  /-- Evaluates a block with one number after another up to a limit, then gives an answer. -/
  | count (next limit : Int) (body : BlockRef) (result : Value)
  /-- Evaluates a block a number of times, then gives an answer. -/
  | cycle (left : Nat) (body : BlockRef) (result : Value)
  /-- Tells the handler of a condition. -/
  | report (receiver : Value) (c : Condition)
  | answer (v : Value)
  | unwind (u : Unwind)
  /-- Does nothing for ever: the text of a value that contains itself was asked for, or messages
      perform each other without end. -/
  | hang
deriving Inhabited

/-- To fail. -/
def Job.fail (f : Fault) : Job :=
  .unwind (.failed f)

/-- What waits for the outcome of a job. -/
inductive Pending where
  /-- An activation that sent a message: an answer goes onto its stack, and a restart or an
      escaped block is for it to settle. -/
  | sender (a : Activation)
  /-- An activation that reported an escaped block: only an answer is for it. -/
  | reporter (a : Activation)
  | counting (next limit : Int) (body : BlockRef) (result : Value)
  | cycling (left : Nat) (body : BlockRef) (result : Value)
  /-- A handler that sent a message: an unwind becomes a fault. -/
  | sent
  /-- A handler that evaluated a block: an unwind is recorded. -/
  | called
deriving Inhabited

end Parley
