import Parley.Library.Arguments

/-!
# Performing

A message may be *performed*: its selector is then an argument of another message, and so are its
arguments. The message that is performed may perform a third one, and so on.

No activation starts meanwhile, so no limit stops it: if messages perform each other for ever, the
first of them never comes back. This can be told in advance, since nothing changes in between and
all that is performed is made of the arguments of the first message and the elements of arrays.
-/

namespace Parley

/-- A selector, and a receiver with arguments. -/
structure Message where
  selector : Selector
  /-- The receiver, then the arguments. -/
  arguments : List Value
deriving DecidableEq, Inhabited

namespace Performing

/-- The message to a receiver, if its selector takes so many arguments. -/
def message (selector : Selector) (receiver : Value) (arguments : List Value) :
    Except Fault Message :=
  if selector.arity = arguments.length then .ok ⟨selector, receiver :: arguments⟩
  else .error (.performArity selector arguments.length)

/-- The message with the arguments that follow its selector. -/
def listed (arguments : List Value) : Except Fault Message :=
  match nameArgument arguments 1 "perform:" with
  | .error f => .error f
  | .ok selector => message selector (argument arguments 0) (arguments.drop 2)

/-- The message with the elements of an array as its arguments. -/
def spread (arguments : List Value) (w : World) : Except Fault Message :=
  match nameArgument arguments 1 "perform:withArguments:" with
  | .error f => .error f
  | .ok selector =>
    match argument arguments 2 with
    | .array a => message selector (argument arguments 0) (w.heap.array a).toList
    | v => .error (misfit (argument arguments 0) "perform:withArguments:" "an array" v)

/-- The message that another one performs; none if it is answered otherwise. -/
def next? (w : World) (m : Message) : Option Message :=
  match w.lookup (argument m.arguments 0) m.selector with
  | some (.primitive p) =>
    if m.arguments.length = p.selector.arity + 1 then
      match p.builtin with
      | .perform => (listed m.arguments).toOption
      | .performWithArguments => (spread m.arguments w).toOption
      | _ => none
    else none
  | _ => none

/-- Whether a message performs another one, that one a third, and so on, for a number of times. -/
def goesOn (w : World) : Nat → Message → Bool
  | 0, _ => true
  | n + 1, m =>
    match next? w m with
    | some m => goesOn w n m
    | none => false

/-- A number of times. Who goes on for so long goes on for ever. -/
def patience (w : World) (m : Message) : Nat :=
  2 * (m.arguments.length + w.heap.arrays.foldl (fun n a => n + a.size) 0) + 1

/-- Whether messages perform each other for ever from a message on. -/
def isUnending (w : World) (m : Message) : Bool :=
  match next? w m with
  | some m => goesOn w (patience w m) m
  | none => false

/-- Sends the message to perform. -/
def job (r : Except Fault Message) (w : World) : Job :=
  match r with
  | .ok m => if isUnending w m then .hang else .send m.selector m.arguments
  | .error f => .fail f

end Performing

namespace Objects

/-- Performs a message with the arguments that follow its selector. -/
def perform (arguments : List Value) (w : World) : Job :=
  Performing.job (Performing.listed arguments) w

/-- Performs a message with the elements of an array as its arguments. -/
def performWithArguments (arguments : List Value) (w : World) : Job :=
  Performing.job (Performing.spread arguments w) w

end Objects

end Parley
