import Parley.Machine.Step

/-!
# What hosts can do

A host sends messages, runs methods it has compiled, and evaluates statements. Whatever unwinds
as far as the host is a fault there.
-/

namespace Parley.World

/-- Sends a message; the receiver is the first of the values. -/
def send (w : World) (s : Selector) (arguments : List Value) : Except Fault Value × World :=
  match arguments with
  | [] => (.error (.noReceiver s), w)
  | arguments => w.result (.send s arguments)

/-- Runs a method; the receiver is the first of the values. -/
def runMethod (w : World) (code : Code) (arguments : List Value) : Except Fault Value × World :=
  w.result (.invoke (.method code) arguments)

/-- The statements as a method of nil. -/
def script (body : List Expr) : MethodTree where
  selector := "doIt"
  parameters := []
  locals := []
  body

/-- Compiles statements and runs them with nil as their receiver. -/
def eval (w : World) (body : List Expr) : Except (CompileError ⊕ Fault) Value × World :=
  match w.compile Core.nil (script body) w.settings.inlining with
  | (.error e, w) => (.error (.inl e), w)
  | (.ok code, w) =>
    match w.runMethod code [.nil] with
    | (.error f, w) => (.error (.inr f), w)
    | (.ok v, w) => (.ok v, w)

end Parley.World
