/-!
# Instructions

The stack machine has instructions of one to three bytes: an opcode, then a literal index, a
context level, a pair of a slot and a context level, or the distance of a jump. Every jump
comes in two forms of three bytes each. The narrow form holds a distance below 256 in its first
operand byte, the wide form any 16-bit distance, low byte first.

Five opcodes name what a send or a global read has been specialized to. They appear in listings
only, never on a tape.
-/

namespace Parley

/-- Where an instruction finds a variable. -/
inductive Place where
  | temporary
  | argument
  | field
deriving DecidableEq, Inhabited

/-- What a jump depends on. -/
inductive Jump where
  | always
  /-- Jumps if the top of the stack is the Boolean `on`. The top is removed, except that a taken
      jump that `leavesNil` puts nil in its place. -/
  | test (on leavesNil : Bool)
  /-- Jumps if the top is greater than the entry below it, and removes both then. -/
  | greater
  /-- Jumps towards the start of the tape. -/
  | back
deriving DecidableEq, Inhabited

/-- What an instruction with a filled specialization slot is called. -/
inductive Quickened where
  | global
  | send
  /-- An eager send that takes this many values off the stack: one, two, or three and more. -/
  | eager1
  | eager2
  | eager3
deriving DecidableEq, Inhabited

/-- The opcodes. -/
inductive Opcode where
  | halt
  | dup
  | dupSecond
  | push (p : Place)
  /-- Makes a closure, with or without the frame it is made in. -/
  | pushBlock (withContext : Bool)
  | pushConstant
  | pushGlobal
  | pushSelf
  | pushNil
  | pushZero
  | pushOne
  /-- Removes the top of the stack. -/
  | drop
  /-- Moves the top of the stack into a variable. -/
  | pop (p : Place)
  | send (toSuper : Bool)
  | returnLocal
  | returnNonLocal
  | returnSelf
  /-- Adds one to the top of the stack, or takes one away. -/
  | step (up : Bool)
  | jump (j : Jump) (wide : Bool)
  | quickened (q : Quickened)
deriving DecidableEq, Inhabited

namespace Opcode

/-- The opcode with a number. -/
def ofNat? : Nat → Option Opcode
  | 0 => some .halt
  | 1 => some .dup
  | 2 => some .dupSecond
  | 3 => some (.push .temporary)
  | 4 => some (.push .argument)
  | 5 => some (.push .field)
  | 6 => some (.pushBlock true)
  | 7 => some (.pushBlock false)
  | 8 => some .pushConstant
  | 9 => some .pushGlobal
  | 10 => some .pushSelf
  | 11 => some .pushNil
  | 12 => some .pushZero
  | 13 => some .pushOne
  | 14 => some .drop
  | 15 => some (.pop .temporary)
  | 16 => some (.pop .argument)
  | 17 => some (.pop .field)
  | 18 => some (.send false)
  | 19 => some (.send true)
  | 20 => some .returnLocal
  | 21 => some .returnNonLocal
  | 22 => some .returnSelf
  | 23 => some (.step true)
  | 24 => some (.step false)
  | 25 => some (.jump .always false)
  | 26 => some (.jump (.test true true) false)
  | 27 => some (.jump (.test false true) false)
  | 28 => some (.jump (.test true false) false)
  | 29 => some (.jump (.test false false) false)
  | 30 => some (.jump .greater false)
  | 31 => some (.jump .back false)
  | 32 => some (.jump .always true)
  | 33 => some (.jump (.test true true) true)
  | 34 => some (.jump (.test false true) true)
  | 35 => some (.jump (.test true false) true)
  | 36 => some (.jump (.test false false) true)
  | 37 => some (.jump .greater true)
  | 38 => some (.jump .back true)
  | 39 => some (.quickened .global)
  | 40 => some (.quickened .send)
  | 41 => some (.quickened .eager1)
  | 42 => some (.quickened .eager2)
  | 43 => some (.quickened .eager3)
  | _ => none

/-- The opcode with a byte. -/
def ofByte? (b : UInt8) : Option Opcode :=
  ofNat? b.toNat

/-- The number of a jump among the jumps of its width. -/
def jumpNumber : Jump → Nat
  | .always => 0
  | .test true true => 1
  | .test false true => 2
  | .test true false => 3
  | .test false false => 4
  | .greater => 5
  | .back => 6

/-- The number of an opcode. -/
def number : Opcode → Nat
  | .halt => 0
  | .dup => 1
  | .dupSecond => 2
  | .push .temporary => 3
  | .push .argument => 4
  | .push .field => 5
  | .pushBlock true => 6
  | .pushBlock false => 7
  | .pushConstant => 8
  | .pushGlobal => 9
  | .pushSelf => 10
  | .pushNil => 11
  | .pushZero => 12
  | .pushOne => 13
  | .drop => 14
  | .pop .temporary => 15
  | .pop .argument => 16
  | .pop .field => 17
  | .send false => 18
  | .send true => 19
  | .returnLocal => 20
  | .returnNonLocal => 21
  | .returnSelf => 22
  | .step true => 23
  | .step false => 24
  | .jump j false => 25 + jumpNumber j
  | .jump j true => 32 + jumpNumber j
  | .quickened .global => 39
  | .quickened .send => 40
  | .quickened .eager1 => 41
  | .quickened .eager2 => 42
  | .quickened .eager3 => 43

/-- The byte of an opcode. -/
def byte (op : Opcode) : UInt8 :=
  UInt8.ofNat op.number

/-- The bytes of an instruction with this opcode, the opcode included. -/
def size : Opcode → Nat
  | .push _ | .pop _ | .jump _ _ => 3
  | .pushBlock _ | .pushConstant | .pushGlobal | .send _ | .returnNonLocal | .quickened _ => 2
  | _ => 1

/-- The part of a jump's name that says what it depends on. -/
def jumpSuffix : Jump → String
  | .always => ""
  | .test true true => "_ON_TRUE_TOP_NIL"
  | .test false true => "_ON_FALSE_TOP_NIL"
  | .test true false => "_ON_TRUE_POP"
  | .test false false => "_ON_FALSE_POP"
  | .greater => "_IF_GREATER"
  | .back => "_BACKWARDS"

/-- The part of the name of a variable access that says where the variable is. -/
def placeName : Place → String
  | .temporary => "LOCAL"
  | .argument => "ARGUMENT"
  | .field => "FIELD"

/-- The name of an opcode in listings. -/
def name : Opcode → String
  | .halt => "HALT"
  | .dup => "DUP"
  | .dupSecond => "DUP_SECOND"
  | .push p => "PUSH_" ++ placeName p
  | .pushBlock true => "PUSH_BLOCK"
  | .pushBlock false => "PUSH_BLOCK_NO_CTX"
  | .pushConstant => "PUSH_CONSTANT"
  | .pushGlobal => "PUSH_GLOBAL"
  | .pushSelf => "PUSH_SELF"
  | .pushNil => "PUSH_NIL"
  | .pushZero => "PUSH_0"
  | .pushOne => "PUSH_1"
  | .drop => "POP"
  | .pop p => "POP_" ++ placeName p
  | .send false => "SEND"
  | .send true => "SUPER_SEND"
  | .returnLocal => "RETURN_LOCAL"
  | .returnNonLocal => "RETURN_NON_LOCAL"
  | .returnSelf => "RETURN_SELF"
  | .step true => "INC"
  | .step false => "DEC"
  | .jump j wide => (if wide then "JUMP2" else "JUMP") ++ jumpSuffix j
  | .quickened .global => "Q_PUSH_GLOBAL"
  | .quickened .send => "Q_SEND"
  | .quickened .eager1 => "Q_SEND_1"
  | .quickened .eager2 => "Q_SEND_2"
  | .quickened .eager3 => "Q_SEND_3"

/-- The opcode with a name. -/
def ofName? (name : String) : Option Opcode :=
  ((List.range 44).filterMap ofNat?).find? fun op => op.name == name

def isQuickened : Opcode → Bool
  | .quickened _ => true
  | _ => false

def isJump : Opcode → Bool
  | .jump _ _ => true
  | _ => false

def isBackward : Opcode → Bool
  | .jump .back _ => true
  | _ => false

def isWide : Opcode → Bool
  | .jump _ true => true
  | _ => false

/-- Whether the operands are a slot and a context level. -/
def hasContextOperand : Opcode → Bool
  | .push _ | .pop _ => true
  | _ => false

/-- The wide form of a narrow jump. -/
def widened? : Opcode → Option Opcode
  | .jump j false => some (.jump j true)
  | _ => none

/-- The narrow form of a jump, itself if it is narrow. -/
def narrowed? : Opcode → Option Opcode
  | .jump j _ => some (.jump j false)
  | _ => none

theorem size_pos (op : Opcode) : 0 < op.size := by
  cases op <;> simp [size]

theorem ofNat?_number (op : Opcode) : ofNat? op.number = some op := by
  rcases op with _ | _ | _ | (_ | _ | _) | (_ | _) | _ | _ | _ | _ | _ | _ | _ | (_ | _ | _) |
    (_ | _) | _ | _ | _ | (_ | _) | ⟨_ | ⟨_ | _, _ | _⟩ | _ | _, _ | _⟩ |
    (_ | _ | _ | _ | _) <;> rfl

/-- The byte of an opcode determines it. -/
@[simp] theorem ofByte?_byte (op : Opcode) : ofByte? op.byte = some op := by
  rw [ofByte?, byte, ← ofNat?_number op]
  congr 1
  rcases op with _ | _ | _ | (_ | _ | _) | (_ | _) | _ | _ | _ | _ | _ | _ | _ | (_ | _ | _) |
    (_ | _) | _ | _ | _ | (_ | _) | ⟨_ | ⟨_ | _, _ | _⟩ | _ | _, _ | _⟩ |
    (_ | _ | _ | _ | _) <;> rfl

end Opcode

end Parley
