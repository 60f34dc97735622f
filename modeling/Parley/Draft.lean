import Parley.StackBound

/-!
# Drafts

A draft is a program under construction: the instructions written so far, the literal pool and
the variables of its frame. Literals that are the same share a place in the pool. A forward jump
is written first and pointed at its target later; whenever it is pointed somewhere, it takes
the narrow form if the distance fits into a byte and the wide form otherwise, so the three bytes
of the jump are all that ever changes.
-/

namespace Parley

/-- A program under construction. -/
structure Draft where
  tape : Tape
  literals : Array (Literal Code)
  arguments : Array Variable
  locals : Array Variable
  /-- The loops, in the order of their jumps back. -/
  loops : List LoopMark
  /-- The scope whose variables are declared here. -/
  scope : Nat
  /-- The lexical depth of that scope. -/
  depth : UInt8
deriving Inhabited

namespace Draft

/-- Nothing written yet. -/
def empty (scope : Nat) (depth : UInt8) : Draft :=
  { tape := #[], literals := #[], arguments := #[], locals := #[], loops := [], scope, depth }

variable (d : Draft)

/-- The offset of the next instruction. -/
def position : Nat :=
  d.tape.size

/-- Writes an instruction. -/
def emit (op : Opcode) (operands : List UInt8) : Draft :=
  { d with tape := operands.foldl Array.push (d.tape.push op.byte) }

/-- The place of a literal in the pool, where it is added unless the same one is there. -/
def addLiteral (l : Literal Code) : Except CompileError (UInt8 × Draft) :=
  match d.literals.findIdx? fun m => m.sameAs l with
  | some i => .ok (UInt8.ofNat i, d)
  | none =>
    if 255 < d.literals.size then .error (.limit "more than 256 literals")
    else .ok (UInt8.ofNat d.literals.size, { d with literals := d.literals.push l })

/-- Writes an instruction with a literal operand. -/
def emitLiteral (op : Opcode) (l : Literal Code) : Except CompileError Draft :=
  match d.addLiteral l with
  | .error e => .error e
  | .ok (index, d) => .ok (d.emit op [index])

/-! ### Variables -/

/-- Declares an argument of the scope. -/
def addArgument (name : String) : Except CompileError Draft :=
  if 255 < d.arguments.size then .error (.limit ("too many variables declaring '" ++ name ++ "'"))
  else
    let v : Variable := ⟨name, .argument, d.depth, UInt8.ofNat d.arguments.size, d.scope⟩
    .ok { d with arguments := d.arguments.push v }

/-- Declares a local of the scope. -/
def addLocal (name : String) : Except CompileError Draft :=
  if 255 < d.locals.size then .error (.limit ("too many variables declaring '" ++ name ++ "'"))
  else
    let v : Variable := ⟨name, .temporary, d.depth, UInt8.ofNat d.locals.size, d.scope⟩
    .ok { d with locals := d.locals.push v }

/-- Gives a variable of another scope a local slot here. A variable that came before keeps its
    slot. -/
def mergeLocal (v : Variable) : Except CompileError (UInt8 × Draft) :=
  match d.locals.find? fun w => w.sameAs v with
  | some w => .ok (w.slot, d)
  | none =>
    if 255 < d.locals.size then .error (.limit ("too many locals merging '" ++ v.name ++ "'"))
    else
      let slot := UInt8.ofNat d.locals.size
      .ok (slot, { d with locals := d.locals.push ⟨v.name, .temporary, d.depth, slot, v.origin⟩ })

/-! ### Jumps -/

/-- Writes a jump without a target; the offset tells it apart later. -/
def emitJump (op : Opcode) : Nat × Draft :=
  (d.position, d.emit (op.narrowed?.getD op) [0, 0])

/-- The low and the high byte of a distance. -/
def distanceBytes (distance : Nat) : UInt8 × UInt8 :=
  (UInt8.ofNat (distance % 256), UInt8.ofNat (distance / 256))

/-- Writes over the three bytes of an instruction. -/
def overwrite (ip : Nat) (op : Opcode) (bytes : UInt8 × UInt8) : Draft :=
  { d with
    tape := ((d.tape.setIfInBounds ip op.byte).setIfInBounds (ip + 1) bytes.1).setIfInBounds
      (ip + 2) bytes.2 }

/-- Points the forward jump at an offset to a target. -/
def patch (ip target : Nat) : Except CompileError Draft :=
  match d.tape.opcode? ip with
  | some (.jump j _) =>
    if j = .back then .error (.splice ("no forward jump to patch at " ++ ip.repr))
    else if target < ip then
      .error (.splice ("forward jump at " ++ ip.repr ++ " patched to earlier " ++ target.repr))
    else
      let distance := target - ip
      if distance ≤ 255 then .ok (d.overwrite ip (.jump j false) (distanceBytes distance))
      else if distance ≤ 65535 then .ok (d.overwrite ip (.jump j true) (distanceBytes distance))
      else .error (.limit ("jump of " ++ distance.repr ++ " bytes"))
  | _ => .error (.splice ("no forward jump to patch at " ++ ip.repr))

/-- Points a forward jump to the next instruction to be written. -/
def patchHere (ip : Nat) : Except CompileError Draft :=
  d.patch ip d.position

/-- Writes a jump back to an instruction and records the loop. A head that is yet to be written
    is as far back as the 64-bit difference says. -/
def emitBack (head : Nat) : Except CompileError Draft :=
  let ip := d.position
  let distance := if head ≤ ip then ip - head else Nat.pow 2 64 - (head - ip)
  if distance ≤ 65535 then
    let (low, high) := distanceBytes distance
    let d := d.emit (.jump .back (255 < distance)) [low, high]
    .ok { d with loops := d.loops ++ [⟨head, ip⟩] }
  else .error (.limit ("loop of " ++ distance.repr ++ " bytes"))

/-- The finished program. -/
def finish : Except CompileError (Program Code) :=
  Program.make d.tape d.literals d.arguments d.locals d.loops

end Draft

end Parley
