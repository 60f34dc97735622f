import Parley.Machine.Workload
import Parley.Session.Picture

/-!
# Steps of a session

What a host can ask for in a session, and what it can be answered. A session has registers, which
steps name: registers of values, of methods and of dispatch chains.
-/

namespace Parley

namespace Session

/-! ### Requests -/

/-- A method to look at: one in a register, or one of a class itself. -/
inductive MethodName where
  | register (name : String)
  | installed (cls : String) (selector : Selector)
deriving Inhabited

/-- A literal to assemble a program with. -/
inductive LiteralRecipe where
  | value (r : Recipe)
  | selector (s : Selector)
  | global (name : String)
  /-- The method in a register. -/
  | block (register : String)
deriving Inhabited

/-- What becomes of a program that was assembled by hand. -/
structure Adoption where
  selector : Selector
  holder : Option String
  isBlock : Bool
  /-- Whether it is installed in the class that holds it. -/
  install : Bool
deriving Inhabited

/-- The names of the variables of a frame, and the lexical depth of their scope. -/
structure VariableNames where
  arguments : List String
  locals : List String
  depth : UInt8
deriving Inhabited

/-- An act of writing a draft. -/
inductive DraftStep where
  | emit (op : Opcode) (operands : List UInt8)
  | literal (op : Opcode) (l : LiteralRecipe)
  /-- Writes a jump without a target; jumps are numbered from zero. -/
  | jump (op : Opcode)
  /-- Points a jump to the next instruction. -/
  | here (jump : Nat)
  | patch (ip target : Nat)
  | back (head : Nat)
  /-- Splices the method in a register. -/
  | splice (register : String)
  /-- Writes an instruction without operands many times. -/
  | fill (times : Nat) (op : Opcode)
deriving Inhabited

/-- What a host can ask for. -/
inductive Step where
  | defineClass (name super : String) (fields : List String)
  | addField (cls name : String)
  /-- Compiles and installs a method. -/
  | define (cls : String) (tree : MethodTree)
  /-- Compiles a method, always with inlining if it is by the standard compiler. -/
  | compile (cls : String) (tree : MethodTree) (standard : Bool)
  | run (method : String) (arguments : List Recipe)
  | eval (body : List Expr)
  | send (s : Selector) (arguments : List Recipe)
  /-- Calls what a lookup finds, whatever the arguments are. -/
  | invoke (cls : String) (s : Selector) (arguments : List Recipe)
  | evaluate (block : Recipe) (arguments : List Recipe)
  | value (r : Recipe)
  | updateLayout (r : Recipe)
  | global (name : String)
  | setGlobal (name : String) (r : Recipe)
  | lookup (cls : String) (s : Selector)
  | classInfo (cls : String)
  | classes
  | statistics
  | resetStatistics
  | dump (m : MethodName)
  | listing (m : MethodName)
  | methodInfo (m : MethodName)
  | newChain (name : String) (s : Selector)
  | dispatch (chain : String) (arguments : List Recipe)
  | chainInfo (chain : String)
  | primitive (cls : String) (s : Selector) (builtin : Builtin)
  /-- Whether two lookups find the same thing. -/
  | sameTarget (cls : String) (s : Selector) (otherCls : String) (t : Selector)
  /-- The frames that a block is nested in. -/
  | contexts (block : Recipe)
  /-- A frame a number of levels outwards from a block, after a write to it. -/
  | frame (block : Recipe) (level slot : Nat) (setLocal setArgument : Option Recipe)
  /-- Messages sent over and over by several new machines. -/
  | parallel (workers rounds : Nat) (calls : List (Selector × List Recipe))
  | newMachine
  /-- Checks a tape. -/
  | check (tape : Tape) (literals : List LiteralRecipe) (arguments locals : Nat)
  /-- Makes a program from its parts. -/
  | assemble (tape : Tape) (literals : List LiteralRecipe) (names : VariableNames)
      (loops : List LoopMark) (adoption : Adoption)
  /-- Makes a program by writing a draft, or shows the draft unfinished. -/
  | draft (script : List DraftStep) (names : VariableNames) (finish : Bool) (adoption : Adoption)
  | workload (name : String) (n : Option Int64)
  | workloadCode (name : String)
deriving Inhabited

/-- A step, the machine that does it, and the register that the result goes to. -/
structure Request where
  step : Step
  machine : Nat
  register : Option String
deriving Inhabited

/-! ### Answers -/

/-- Why a step comes to nothing. -/
inductive Failure where
  | compile (e : CompileError)
  | fault (text : String)
  /-- An unwind, with its texts as a fault and in listings. -/
  | unwound (u : Unwind) (message text : String)
  /-- The step names something that is not there. -/
  | missing (what : String)
deriving Inhabited

/-- What a host is answered. -/
inductive Answer where
  | nothing
  | value (p : Picture)
  | number (n : Nat)
  | truth (b : Bool)
  | text (s : String)
  | lines (l : List String)
  /-- A method was installed. -/
  | defined (epoch : Nat) (code : Code)
  | code (view : CodeView)
  | global (bound : Bool) (value : Picture)
  | found (i : Invokable)
  /-- A class with the names of its superclass and metaclass and its selectors in order. -/
  | classInfo (c : Class) (super metaclass : Option String) (selectors : List Selector)
  | classes (names : List String) (epoch : Nat)
  | statistics (s : Statistics)
  | method (code : Code)
  | dispatched (result : Except Failure Picture) (chain : Chain)
  | chain (c : Chain)
  | primitive (s : Selector)
  | contexts (frames : List (Nat × Marker))
  /-- A frame with its receiver, its slots, and the activation of its outermost frame. -/
  | frame (f : Frame) (receiver : Picture) (arguments locals : List Picture) (home : Nat)
  /-- The different results of each call by each machine. -/
  | parallel (results : List (List (List (Except String Picture))))
  | unfinished (tape : Tape)
deriving Inhabited

/-- What is told about a step: the answer, and what happened meanwhile. -/
structure Record where
  answer : Except Failure Answer
  statistics : List (String × Int)
  output : String
  reports : List Report
  events : List Event

end Session

end Parley
