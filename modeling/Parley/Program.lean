import Parley.Tape
import Parley.Value

/-!
# Programs

A program is a tape with what its instructions refer to: a pool of literals, and a description
of every variable of its frame. Literals may be blocks, which are programs with a name and an
identity (`Code`); the type of blocks is a parameter of the types here, so that facts about a
single tape do not depend on it.
-/

namespace Parley

/-- A literal of a program whose blocks are of type `β`. -/
inductive Literal (β : Type) where
  | value (v : Value)
  | selector (s : Selector)
  | global (name : String)
  | block (b : β)
deriving Inhabited

/-- How a variable comes to be in a frame. -/
inductive VariableKind where
  | argument
  | temporary
deriving DecidableEq, Inhabited

/-- A variable of a frame. -/
structure Variable where
  name : String
  kind : VariableKind
  /-- The lexical depth of the scope that declares it, zero for a method. -/
  depth : UInt8
  slot : UInt8
  /-- The scope that declared it first; it stays when the variable moves to another frame. -/
  origin : Nat
deriving DecidableEq, Inhabited

/-- Whether two descriptions are of one declaration, whatever frame it moved to. -/
def Variable.sameAs (v w : Variable) : Bool :=
  v.origin = w.origin && v.name = w.name

/-- A loop on a tape: where it begins and where the jump back to there is. -/
structure LoopMark where
  head : Nat
  jump : Nat
deriving DecidableEq, Inhabited

/-- An instruction tape and everything needed to execute it. -/
structure Program (β : Type) where
  tape : Tape
  literals : Array (Literal β)
  /-- The arguments; slot zero is the receiver, or the block itself. -/
  arguments : Array Variable
  locals : Array Variable
  /-- The most entries that the operand stack ever holds. -/
  maxStack : Nat
  loops : List LoopMark
deriving Inhabited

/-- A compiled method or block body. -/
inductive Code where
  /-- The identity of the code, its selector or signature, the class it was compiled for,
      whether it is a block body, and its program. -/
  | mk (id : Nat) (signature : Selector) (holder : Option ClassRef) (isBlock : Bool)
      (program : Program Code)

namespace Code

/-- The identity of the code. -/
def id : Code → Nat
  | mk id _ _ _ _ => id

def signature : Code → Selector
  | mk _ signature _ _ _ => signature

/-- The class the code was compiled for: messages to super start above it. -/
def holder : Code → Option ClassRef
  | mk _ _ holder _ _ => holder

def isBlock : Code → Bool
  | mk _ _ _ isBlock _ => isBlock

def program : Code → Program Code
  | mk _ _ _ _ program => program

instance : Inhabited Code := ⟨mk 0 "" none false default⟩

/-- The declared arguments and the receiver, or the block itself. -/
def argumentCount (c : Code) : Nat :=
  c.program.arguments.size

/-- The blocks among the literals, in the order of the pool. -/
def blocks (c : Code) : List Code :=
  c.program.literals.toList.filterMap fun l =>
    match l with
    | .block b => some b
    | _ => none

/-- A block is smaller than the code that it is a literal of. -/
theorem sizeOf_lt_of_mem_blocks {b c : Code} (h : b ∈ c.blocks) : sizeOf b < sizeOf c := by
  obtain ⟨id, signature, holder, isBlock, p⟩ := c
  obtain ⟨l, hl, hb⟩ := List.mem_filterMap.1 h
  have h₁ : sizeOf l < sizeOf p.literals := Array.sizeOf_lt_of_mem (Array.mem_toList_iff.1 hl)
  have h₂ : sizeOf p.literals < sizeOf p := by cases p; simp; omega
  cases l <;> simp at hb
  subst hb
  simp at h₁ ⊢
  omega

/-- The code and the blocks in it at any depth, each before the blocks in it. -/
def family (c : Code) : List Code :=
  c :: c.blocks.attach.flatMap fun b => family b.1
termination_by c
decreasing_by exact sizeOf_lt_of_mem_blocks b.2

end Code

/-- Whether two literals may share a place in a pool: identical values and equal strings, equal
    names, one and the same code. -/
def Literal.sameAs (l m : Literal Code) : Bool :=
  match l, m with
  | .value v, .value w =>
    v.same w || match v, w with
      | .string _ s, .string _ t => s = t
      | _, _ => false
  | .selector s, .selector t => s = t
  | .global s, .global t => s = t
  | .block b, .block c => b.id = c.id
  | _, _ => false

namespace Program

variable {β : Type} (p : Program β)

/-- The literal that an operand byte numbers. -/
def literal? (index : UInt8) : Option (Literal β) :=
  p.literals[index.toNat]?

/-- The variable accesses that leave the frame: place, slot and context level of each. -/
def captures : List (Place × UInt8 × UInt8) :=
  p.tape.starts.filterMap fun ip =>
    match p.tape.opcode? ip with
    | some (.push place) | some (.pop place) =>
      let level := p.tape.byteAt (ip + 2)
      if 0 < level then some (place, p.tape.byteAt (ip + 1), level) else none
    | _ => none

/-- How many different variables of enclosing frames the program reads or writes. -/
def captureCount : Nat :=
  p.captures.eraseDups.length

/-- Whether executing the program needs the frame it was made in: it accesses an enclosing
    frame, leaves a method from inside a block, or makes a closure that needs one. -/
def needsContext : Bool :=
  p.tape.starts.any fun ip =>
    match p.tape.opcode? ip with
    | some (.push _) | some (.pop _) => 0 < p.tape.byteAt (ip + 2)
    | some .returnNonLocal | some (.pushBlock true) => true
    | _ => false

end Program

end Parley
