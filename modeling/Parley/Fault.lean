import Parley.Selector

/-!
# Faults

Why a program fails. A fault ends the run, unless it arose below a handler; nothing in a program
can catch it. The last group names defects of a tape, of which the check of tapes rules out every
one.
-/

namespace Parley

/-- The reasons for which a run fails. -/
inductive Fault where
  -- In the library.
  | divisionByZero
  /-- An argument is of the wrong kind. -/
  | misfit (receiver : String) (selector : Selector) (expected got : String)
  | indexOutOfBounds (index : Int) (receiver : String) (size : Nat)
  | negativeSize (size : Int)
  | noInstanceVariables (receiver : String)
  | notABoolean (receiver : String)
  | notABlock (receiver : String)
  /-- A method of the library was reached by a value that it is not made for. -/
  | strayReceiver (what receiver : String)
  /-- A message was performed with a wrong number of arguments. -/
  | performArity (selector : Selector) (given : Nat)
  -- In calls.
  | primitiveArity (selector : Selector) (given : Nat)
  | methodArity (selector : Selector) (takes given : Nat)
  | blockArity (takes given : Nat)
  | stackOverflow (limit : Nat) (signature : Selector)
  | noReceiver (selector : Selector)
  | superOutsideClass (selector : Selector)
  -- Conditions that nobody handles.
  | notUnderstood (className : String) (selector : Selector)
  | escaped (signature : Selector) (className : String)
  | unknownGlobal (name : String)
  -- Unwinding that nobody stops.
  | noTarget (activation : Nat)
  | escapeUnhandled (signature : Selector)
  | strayRestart
  | nonLocalReturnFrom (receiver : String)
  -- In frames and instances.
  | fieldOutOfRange (index : Nat) (className : String)
  | argumentOutOfRange (index : Nat)
  | localOutOfRange (index : Nat)
  | contextTooDeep (level : Nat)
  | noFields (receiver : String)
  | notACondition (got : String) (signature : Selector)
  | notLoopBounds (top below : String)
  | notSteppable (got : String) (up : Bool)
  -- From outside.
  | told (text : String)
  -- Defects of a tape.
  | ranOff (signature : Selector)
  | badOpcode (byte ip : Nat) (signature : Selector)
  | strayQuickened (name : String) (signature : Selector)
  | notABlockLiteral (index : Nat) (signature : Selector)
  | badConstant (signature : Selector)
  | notASelector (index : Nat)
  | notAGlobal (ip : Nat)
  | strayCallSite (ip : Nat) (name : String)
  | strayGlobalSite (ip : Nat) (name : String)
  | emptyStack (ip : Nat) (signature : Selector)
deriving DecidableEq, Inhabited

/-- The text of a fault. -/
def Fault.message : Fault → String
  | .divisionByZero => "division by zero"
  | .misfit receiver selector expected got =>
    receiver ++ ">>" ++ selector ++ " expects " ++ expected ++ ", got " ++ got
  | .indexOutOfBounds index receiver size =>
    "index " ++ index.repr ++ " out of bounds for " ++ receiver ++ " of size " ++ size.repr
  | .negativeSize size => "negative array size " ++ size.repr
  | .noInstanceVariables receiver => receiver ++ " has no instance variables"
  | .notABoolean receiver => receiver ++ " is not a Boolean"
  | .notABlock receiver => receiver ++ " is not a Block"
  | .strayReceiver what receiver => what ++ " " ++ receiver
  | .performArity selector given =>
    selector.hashed ++ " takes " ++ selector.arity.repr ++ " arguments, " ++ given.repr ++ " given"
  | .primitiveArity selector given =>
    "primitive " ++ selector.hashed ++ " expects " ++ selector.arity.repr ++ " arguments, got " ++
      given.repr
  | .methodArity selector takes given =>
    selector.hashed ++ " expects " ++ takes.repr ++ " arguments, got " ++ given.repr
  | .blockArity takes given =>
    "block expects " ++ takes.repr ++ " arguments, got " ++ given.repr
  | .stackOverflow limit signature =>
    "stack overflow: more than " ++ limit.repr ++ " nested activations in " ++ signature.hashed
  | .noReceiver selector => "send of " ++ selector.hashed ++ " needs a receiver"
  | .superOutsideClass selector =>
    "super send of " ++ selector.hashed ++ " outside of a class"
  | .notUnderstood className selector => className ++ " does not understand " ++ selector.hashed
  | .escaped signature className =>
    "block " ++ signature ++ " escaped: its home activation already returned (receiver " ++
      className ++ ")"
  | .unknownGlobal name => "unknown global " ++ name
  | .noTarget activation =>
    "non-local return to activation ActivationId(" ++ activation.repr ++ ") found no target"
  | .escapeUnhandled signature => "escaped block " ++ signature ++ " was not handled"
  | .strayRestart => "restart requested outside of any activation"
  | .nonLocalReturnFrom receiver => "non-local return from a " ++ receiver ++ " activation"
  | .fieldOutOfRange index className =>
    "field index " ++ index.repr ++ " out of range for " ++ className
  | .argumentOutOfRange index => "argument index " ++ index.repr ++ " out of range"
  | .localOutOfRange index => "local index " ++ index.repr ++ " out of range"
  | .contextTooDeep level => "context level " ++ level.repr ++ " exceeds lexical nesting"
  | .noFields receiver => receiver ++ " has no fields"
  | .notACondition got signature =>
    "non-boolean condition (" ++ got ++ ") in " ++ signature.hashed
  | .notLoopBounds top below =>
    "loop bounds must be numbers, got " ++ top ++ " and " ++ below
  | .notSteppable got up => got ++ " cannot be " ++ (if up then "incremented" else "decremented")
  | .told text => text
  | .ranOff signature => "execution ran off the end of " ++ signature.hashed
  | .badOpcode byte ip signature =>
    "invalid opcode " ++ byte.repr ++ " at " ++ ip.repr ++ " in " ++ signature.hashed
  | .strayQuickened name signature =>
    "quickened opcode " ++ name ++ " found on the tape of " ++ signature.hashed
  | .notABlockLiteral index signature =>
    "literal " ++ index.repr ++ " of " ++ signature.hashed ++ " is not a block"
  | .badConstant signature => "bad constant literal in " ++ signature.hashed
  | .notASelector index => "literal " ++ index.repr ++ " is not a selector"
  | .notAGlobal ip => "global literal expected at " ++ ip.repr
  | .strayCallSite ip name =>
    "send site " ++ ip.repr ++ " holds a " ++ name ++ " specialization"
  | .strayGlobalSite ip name =>
    "global site " ++ ip.repr ++ " holds a " ++ name ++ " specialization"
  | .emptyStack ip signature =>
    "empty operand stack at " ++ ip.repr ++ " in " ++ signature.hashed

end Parley
