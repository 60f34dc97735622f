import Parley.CompileError
import Parley.Program

/-!
# Stack bounds

Before a tape becomes a program it is checked, and the number of entries its operand stack
needs is computed. The check has three parts, in this order:

* the tape splits into complete instructions, none of them quickened;
* every instruction, reachable or not, has operands that make sense: a literal of the kind it
  needs, a slot of the own frame that exists, a jump to an instruction start;
* the depths of the operand stack agree: following all branches from offset zero, every
  instruction is reached with one depth only, nothing is taken off an empty stack, and no
  path runs off the end.

The depths are found by a search that visits each offset once; what is still to be visited
waits on a stack, the next instruction above the target of a branch.
-/

namespace Parley

namespace Tape

variable {β : Type} (t : Tape) (literals : Array (Literal β))

/-! ### Instruction boundaries -/

/-- Marks the instruction starts from an offset on. -/
def scanFrom (ip : Nat) (marks : Array Bool) : Except CompileError (Array Bool) :=
  if h : ip < t.size then
    match Opcode.ofByte? t[ip] with
    | none => .error (.rejected ip ("unknown opcode " ++ t[ip].toNat.repr))
    | some op =>
      if op.isQuickened then .error (.rejected ip (op.name ++ " on the tape"))
      else if t.size < ip + op.size then .error (.rejected ip ("truncated " ++ op.name))
      else
        have : t.size - (ip + op.size) < t.size - ip := by have := op.size_pos; omega
        scanFrom (ip + op.size) (marks.setIfInBounds ip true)
  else .ok marks
termination_by t.size - ip

/-- The instruction starts as marks on the offsets of the tape. -/
def scan : Except CompileError (Array Bool) :=
  t.scanFrom 0 (Array.replicate t.size false)

/-! ### Operands -/

/-- Whether a kind of literal suits an instruction; the instructions named here are those with
    a literal operand. -/
def suits (op : Opcode) (l : Literal β) : Bool :=
  match op, l with
  | .send _, .selector _ => true
  | .pushGlobal, .global _ => true
  | .pushBlock _, .block _ => true
  | .pushConstant, .value _ => true
  | .pushConstant, .selector _ => true
  | _, _ => false

/-- What is said of a literal that does not suit an instruction. -/
def misfit : Opcode → String
  | .send _ => "send without a selector literal"
  | .pushGlobal => "global read without a global literal"
  | .pushBlock _ => "block push without a block literal"
  | _ => "constant push without a value literal"

/-- Where the jump at an offset leads; none for a distance that leads nowhere. -/
def jumpTarget? (ip : Nat) (j : Jump) (wide : Bool) : Option Nat :=
  let distance := t.distance ip wide
  if j = .back then
    if distance ≤ ip then some (ip - distance) else none
  else if 0 < distance then some (ip + distance) else none

/-- Checks a slot of the own frame. -/
def checkSlot (ip : Nat) (what : String) (count : Nat) : Except CompileError Unit :=
  let slot := t.byteAt (ip + 1)
  if t.byteAt (ip + 2) = 0 ∧ count ≤ slot.toNat then
    .error (.rejected ip (what ++ " " ++ slot.toNat.repr ++ " of " ++ count.repr))
  else .ok ()

/-- Checks the operands of the instruction at an offset. -/
def checkOperands (arguments locals : Nat) (marks : Array Bool) (ip : Nat) (op : Opcode) :
    Except CompileError Unit :=
  match op with
  | .send _ | .pushGlobal | .pushBlock _ | .pushConstant =>
    match literals[(t.byteAt (ip + 1)).toNat]? with
    | none =>
      .error (.rejected ip ("literal " ++ (t.byteAt (ip + 1)).toNat.repr ++ " out of range"))
    | some l => if suits op l then .ok () else .error (.rejected ip (misfit op))
  | .push .temporary | .pop .temporary => t.checkSlot ip "local" locals
  | .push .argument | .pop .argument => t.checkSlot ip "argument" arguments
  | .jump j wide =>
    if ((t.jumpTarget? ip j wide).bind (marks[·]?)).getD false then .ok ()
    else .error (.rejected ip (op.name ++ " to a bad target"))
  | _ => .ok ()

/-- Checks the operands at all marked offsets, the first ones first. -/
def checkAll (arguments locals : Nat) (marks : Array Bool) : List Nat → Except CompileError Unit
  | [] => .ok ()
  | ip :: rest =>
    if marks.getD ip false then
      match t.opcode? ip with
      | none => .error (.rejected ip "unknown opcode")
      | some op =>
        match t.checkOperands literals arguments locals marks ip op with
        | .error e => .error e
        | .ok () => checkAll arguments locals marks rest
    else checkAll arguments locals marks rest

/-! ### Depths -/

/-- How many entries the instruction at an offset takes off the stack, and how many it puts
    there, when it falls through to the next one. -/
def effect (ip : Nat) : Opcode → Except CompileError (Nat × Nat)
  | .halt | .returnSelf => .ok (0, 0)
  | .dup => .ok (1, 2)
  | .dupSecond => .ok (2, 3)
  | .push _ | .pushBlock _ | .pushConstant | .pushGlobal | .pushSelf | .pushNil | .pushZero
  | .pushOne => .ok (0, 1)
  | .drop | .pop _ | .returnLocal | .returnNonLocal => .ok (1, 0)
  | .send _ =>
    match literals[(t.byteAt (ip + 1)).toNat]? with
    | some (.selector s) => .ok (s.arity + 1, 1)
    | _ => .error (.rejected ip "send without a selector literal")
  | .step _ => .ok (1, 1)
  | .jump .always _ | .jump .back _ => .ok (0, 0)
  | .jump (.test _ _) _ => .ok (1, 0)
  | .jump .greater _ => .ok (2, 2)
  | .quickened q => .error (.rejected ip ((Opcode.quickened q).name ++ " on the tape"))

/-- Where the search goes on from an instruction. -/
structure Visit where
  /-- The most entries the stack holds before or after the instruction. -/
  peak : Nat
  /-- The next instruction with its depth, where the instruction falls through. -/
  next : Option (Nat × Nat)
  /-- The target of a branch with its depth. -/
  branch : Option (Nat × Nat)

/-- Where a jump leads, and with how many entries, from before it and after falling through. -/
def taken (ip : Nat) (j : Jump) (wide : Bool) (before after : Nat) : Nat × Nat :=
  let distance := t.distance ip wide
  match j with
  | .back => (ip - distance, after)
  | .always => (ip + distance, after)
  | .test _ true => (ip + distance, after + 1)
  | .test _ false => (ip + distance, after)
  | .greater => (ip + distance, before - 2)

/-- Whether execution may go on behind an instruction. -/
def fallsThrough : Opcode → Bool
  | .halt | .returnLocal | .returnNonLocal | .returnSelf => false
  | .jump .always _ | .jump .back _ => false
  | _ => true

/-- Visits the instruction at an offset with a depth. -/
def visit (ip depth : Nat) : Except CompileError Visit :=
  match t.opcode? ip with
  | none => .error (.rejected ip "unknown opcode")
  | some op =>
    match t.effect literals ip op with
    | .error e => .error e
    | .ok (pops, pushes) =>
      if depth < pops then
        .error (.rejected ip (op.name ++ " underflows a stack of " ++ depth.repr))
      else
        let after := depth - pops + pushes
        let branch := match op with
          | .jump j wide => some (t.taken ip j wide depth after)
          | _ => none
        if fallsThrough op then
          if t.size ≤ ip + op.size then .error (.rejected ip "execution falls off the end")
          else .ok ⟨max after depth, some (ip + op.size, after), branch⟩
        else .ok ⟨max after depth, none, branch⟩

/-- Searches on from the offsets that are waiting, given the depths found so far and the most
    entries seen. Every visit gives a depth to an offset that had none and adds at most two
    waiting ones, so the search ends. -/
def explore (depths : Array (Option Nat)) (waiting : List (Nat × Nat)) (bound : Nat) :
    Except CompileError (Array (Option Nat) × Nat) :=
  match waiting with
  | [] => .ok (depths, bound)
  | (ip, depth) :: rest =>
    if h : ip < depths.size then
      match hd : depths[ip] with
      | some seen =>
        if seen = depth then explore depths rest bound
        else .error (.rejected ip ("stack depth " ++ depth.repr ++ " joins " ++ seen.repr))
      | none =>
        match t.visit literals ip depth with
        | .error e => .error e
        | .ok v =>
          explore (depths.set ip (some depth))
            (v.next.toList ++ (v.branch.toList ++ rest)) (max bound v.peak)
    else .error (.rejected ip "unknown opcode")
termination_by 2 * depths.count none + waiting.length
decreasing_by
  · simp
  · have count := Array.count_set (a := some depth) (b := (none : Option Nat)) h
    have one : 1 ≤ depths.count none :=
      Array.count_pos_iff.2 (hd ▸ Array.getElem_mem h)
    have next : v.next.toList.length ≤ 1 := by cases v.next <;> simp
    have branch : v.branch.toList.length ≤ 1 := by cases v.branch <;> simp
    simp [hd] at count
    simp [count]
    omega

/-- The check of a tape: the depth of the operand stack at every offset that is reached, and the
    most entries it ever holds; an error if the tape does not pass. -/
def check (arguments locals : Nat) : Except CompileError (Array (Option Nat) × Nat) :=
  if t.isEmpty then .error (.rejected 0 "empty program")
  else
    match t.scan with
    | .error e => .error e
    | .ok marks =>
      match t.checkAll literals arguments locals marks (List.range t.size) with
      | .error e => .error e
      | .ok () => t.explore literals (Array.replicate t.size none) [(0, 0)] 0

/-- The most entries that the operand stack of a tape ever holds; an error if the tape does not
    pass the check. -/
def stackBound (arguments locals : Nat) : Except CompileError Nat :=
  (t.check literals arguments locals).map (·.2)

end Tape

/-- A program from its parts, if its tape passes the check. -/
def Program.make {β : Type} (tape : Tape) (literals : Array (Literal β))
    (arguments locals : Array Variable) (loops : List LoopMark) :
    Except CompileError (Program β) :=
  match tape.stackBound literals arguments.size locals.size with
  | .error e => .error e
  | .ok maxStack => .ok { tape, literals, arguments, locals, maxStack, loops }

end Parley
