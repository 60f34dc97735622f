import Parley.Draft

/-!
# Splicing blocks

A block whose body runs in place, as an argument of a control-flow message, needs no closure and
no frame of its own: its instructions are spliced into the program of the enclosing scope. The
variables of the block become locals of the enclosing frame, set to nil on every pass as a new
activation of the block would find them; accesses to outer scopes lose one context level; a
return out of the method loses one too, and is an ordinary return when it reaches level zero.

Closures made inside the block are *rehomed*: the scope that was spliced away is taken out of
their context levels, at every depth of nesting, and accesses to it go to the slots that its
variables have now. Lengths of instructions never change in that.

Jumps are carried over in one walk over the block. A forward jump waits, ordered by target,
until the walk reaches it. Jumps back and the heads of loops are taken from the loop marks of
the block, in ascending order too.
-/

namespace Parley

/-! ### Slots -/

/-- The slots that the variables of a spliced block have in the enclosing frame. Argument zero,
    the block itself, has none. -/
structure SlotMap where
  arguments : List (Option UInt8)
  locals : List UInt8

namespace SlotMap

/-- Where an argument of the block is now. -/
def argument (m : SlotMap) (slot : UInt8) : Except CompileError UInt8 :=
  match m.arguments[slot.toNat]? with
  | some (some s) => .ok s
  | some none => .error (.splice "inlined block reads its own block receiver")
  | none => .error (.splice ("argument slot " ++ slot.toNat.repr ++ " out of range"))

/-- Where a local of the block is now. -/
def local? (m : SlotMap) (slot : UInt8) : Except CompileError UInt8 :=
  match m.locals[slot.toNat]? with
  | some s => .ok s
  | none => .error (.splice ("local slot " ++ slot.toNat.repr ++ " out of range"))

end SlotMap

/-- Merges variables into the locals of a draft, one after another. -/
def Draft.mergeAll (d : Draft) : List Variable → Except CompileError (List UInt8 × Draft)
  | [] => .ok ([], d)
  | v :: rest =>
    match d.mergeLocal v with
    | .error e => .error e
    | .ok (slot, d) =>
      match d.mergeAll rest with
      | .error e => .error e
      | .ok (slots, d) => .ok (slot :: slots, d)

/-- Merges the variables of a block into the locals of a draft. -/
def Draft.mergeBlock (d : Draft) (p : Program Code) : Except CompileError (SlotMap × Draft) :=
  match d.mergeAll (p.arguments.toList.drop 1) with
  | .error e => .error e
  | .ok (arguments, d) =>
    match d.mergeAll p.locals.toList with
    | .error e => .error e
    | .ok (locals, d) => .ok (⟨none :: arguments.map some, locals⟩, d)

/-! ### Rehoming closures -/

/-- A block among the literals of a program. -/
def Program.blockLiteral (p : Program Code) (index : UInt8) : Except CompileError Code :=
  match p.literal? index with
  | some (.block c) => .ok c
  | _ => .error (.splice ("literal " ++ index.toNat.repr ++ " is not a block"))

theorem Program.sizeOf_blockLiteral {p : Program Code} {index : UInt8} {c : Code}
    (h : p.blockLiteral index = .ok c) : sizeOf c < sizeOf p := by
  unfold blockLiteral literal? at h
  split at h
  · rename_i c' hl
    injection h with h
    subst h
    have hm := Array.mem_of_getElem? hl
    have h₁ := Array.sizeOf_lt_of_mem hm
    cases p
    simp at h₁ ⊢
    omega
  · cases h

/-- Moves a variable access of a nested closure by one instruction. `removed` is the context
    level of the scope that was spliced away; an access to it goes to the enclosing frame. -/
def rehomeAccess (removed : UInt8) (m : SlotMap) (tape : Tape) (ip : Nat) (op : Opcode) :
    Except CompileError Tape :=
  let slot := tape.byteAt (ip + 1)
  let level := tape.byteAt (ip + 2)
  if removed < level then .ok (tape.setIfInBounds (ip + 2) (level - 1))
  else if level = removed then
    match op with
    | .push .temporary | .pop .temporary => (m.local? slot).map (tape.setIfInBounds (ip + 1) ·)
    | .push .argument =>
      (m.argument slot).map fun s =>
        (tape.setIfInBounds ip (Opcode.push .temporary).byte).setIfInBounds (ip + 1) s
    | .pop .argument =>
      (m.argument slot).map fun s =>
        (tape.setIfInBounds ip (Opcode.pop .temporary).byte).setIfInBounds (ip + 1) s
    | _ => .error (.splice (op.name ++ " addresses an inlined block scope"))
  else .ok tape

mutual

/-- Rehomes a closure. `next` is the first identity that is free; each closure rehomed takes
    one. The level that is counted on the way in is a byte, as those of the operands are, and
    starts over from zero in a closure 256 scopes inside the block. -/
def Code.rehomed (c : Code) (removed : UInt8) (m : SlotMap) (next : Nat) :
    Except CompileError (Code × Nat) :=
  match c with
  | .mk _ signature holder _ program =>
    match program.rehomedFrom removed m program.tape.starts program.tape program.literals next with
    | .error e => .error e
    | .ok (tape, literals, next) =>
      match Program.make tape literals program.arguments program.locals program.loops with
      | .error e => .error e
      | .ok rebuilt => .ok (.mk next signature holder true rebuilt, next + 1)
termination_by (sizeOf c, 0)

/-- Rehomes the instructions at the offsets given, on the tape and the literals so far. -/
def Program.rehomedFrom (p : Program Code) (removed : UInt8) (m : SlotMap) (starts : List Nat)
    (tape : Tape) (literals : Array (Literal Code)) (next : Nat) :
    Except CompileError (Tape × Array (Literal Code) × Nat) :=
  match starts with
  | [] => .ok (tape, literals, next)
  | ip :: rest =>
    match tape.opcode? ip with
    | none => .error (.splice ("bad opcode at " ++ ip.repr))
    | some (.push place) =>
      match rehomeAccess removed m tape ip (.push place) with
      | .error e => .error e
      | .ok tape => p.rehomedFrom removed m rest tape literals next
    | some (.pop place) =>
      match rehomeAccess removed m tape ip (.pop place) with
      | .error e => .error e
      | .ok tape => p.rehomedFrom removed m rest tape literals next
    | some .returnNonLocal =>
      let level := tape.byteAt (ip + 1)
      if level = removed then .error (.splice "non-local return targets an inlined block")
      else
        let tape := if removed < level then tape.setIfInBounds (ip + 1) (level - 1) else tape
        p.rehomedFrom removed m rest tape literals next
    | some (.pushBlock true) =>
      let index := tape.byteAt (ip + 1)
      match _h : p.blockLiteral index with
      | .error e => .error e
      | .ok nested =>
        match nested.rehomed (removed + 1) m next with
        | .error e => .error e
        | .ok (nested, next) =>
          p.rehomedFrom removed m rest tape (literals.setIfInBounds index.toNat (.block nested))
            next
    | some _ => p.rehomedFrom removed m rest tape literals next
termination_by (sizeOf p, starts.length)
decreasing_by
  all_goals first
    | (have h := Program.sizeOf_blockLiteral ‹_›; decreasing_tactic)
    | decreasing_tactic

end

/-! ### The walk -/

/-- Puts a pair into an ascending list of pairs. -/
def insertAscending (a : Nat × Nat) : List (Nat × Nat) → List (Nat × Nat)
  | [] => [a]
  | b :: rest =>
    if a.1 < b.1 ∨ a.1 = b.1 ∧ a.2 ≤ b.2 then a :: b :: rest else b :: insertAscending a rest

/-- A walk that splices a block into a draft. -/
structure Walk where
  draft : Draft
  /-- The first identity free for a rehomed closure. -/
  next : Nat
  /-- The forward jumps that wait for their targets: the target in the block and the offset of
      the jump in the draft, ascending. -/
  forward : List (Nat × Nat)
  /-- The heads of loops that are yet to come, ascending. -/
  heads : List Nat
  /-- The jumps back that are yet to come, each with the head it goes to, ascending. -/
  backward : List (Nat × Nat)
  /-- Where the heads that came are in the draft. -/
  placed : List (Nat × Nat)

namespace Walk

/-- Points the forward jumps that wait for an offset to the next instruction of the draft. -/
def arrive (ip : Nat) (d : Draft) : List (Nat × Nat) →
    Except CompileError (List (Nat × Nat) × Draft)
  | [] => .ok ([], d)
  | (target, jump) :: rest =>
    if ip < target then .ok ((target, jump) :: rest, d)
    else if target < ip then
      .error (.splice ("jump target " ++ target.repr ++ " is not an instruction start"))
    else
      match d.patchHere jump with
      | .error e => .error e
      | .ok d => arrive ip d rest

/-- Notes where the heads at an offset are in the draft. -/
def place (ip position : Nat) (placed : List (Nat × Nat)) :
    List Nat → Except CompileError (List Nat × List (Nat × Nat))
  | [] => .ok ([], placed)
  | head :: rest =>
    if ip < head then .ok (head :: rest, placed)
    else if head < ip then
      .error (.splice ("loop head " ++ head.repr ++ " is not an instruction start"))
    else place ip position ((head, position) :: placed) rest

/-- Writes an instruction with no operands to translate. -/
def write (w : Walk) (op : Opcode) (operands : List UInt8) : Except CompileError Walk :=
  .ok { w with draft := w.draft.emit op operands }

/-- Writes an instruction with a literal operand. -/
def writeLiteral (w : Walk) (op : Opcode) (l : Literal Code) : Except CompileError Walk :=
  (w.draft.emitLiteral op l).map fun draft => { w with draft }

/-- Carries a jump back over to where its head is now. -/
def carryBack (w : Walk) (p : Program Code) (ip : Nat) (wide : Bool) : Except CompileError Walk :=
  match w.backward with
  | [] => .error (.splice ("backward jump at " ++ ip.repr ++ " has no loop marker"))
  | (jump, head) :: rest =>
    if jump ≠ ip ∨ ip - p.tape.distance ip wide ≠ head then
      .error (.splice ("backward jump at " ++ ip.repr ++ " does not match loop marker (" ++
        head.repr ++ ", " ++ jump.repr ++ ")"))
    else
      match w.placed.lookup head with
      | none => .error (.splice ("loop head " ++ head.repr ++ " was never emitted"))
      | some position =>
        (w.draft.emitBack position).map fun draft => { w with draft, backward := rest }

/-- Carries the instruction at an offset of a block over into the draft. `last` is the offset of
    the last instruction of the block. -/
def carry (w : Walk) (p : Program Code) (m : SlotMap) (last ip : Nat) (op : Opcode) :
    Except CompileError Walk :=
  let first := p.tape.byteAt (ip + 1)
  let level := p.tape.byteAt (ip + 2)
  match op with
  | .push .temporary | .pop .temporary =>
    if level = 0 then
      match m.local? first with
      | .error e => .error e
      | .ok slot => w.write op [slot, 0]
    else w.write op [first, level - 1]
  | .push .argument =>
    if level = 0 then
      match m.argument first with
      | .error e => .error e
      | .ok slot => w.write (.push .temporary) [slot, 0]
    else w.write op [first, level - 1]
  | .pop .argument =>
    if level = 0 then
      match m.argument first with
      | .error e => .error e
      | .ok slot => w.write (.pop .temporary) [slot, 0]
    else w.write op [first, level - 1]
  | .push .field | .pop .field =>
    if level = 0 then .error (.splice (op.name ++ " at block level"))
    else w.write op [first, level - 1]
  | .pushBlock true =>
    match p.blockLiteral first with
    | .error e => .error e
    | .ok nested =>
      match nested.rehomed 1 m w.next with
      | .error e => .error e
      | .ok (nested, next) => { w with next }.writeLiteral op (.block nested)
  | .pushBlock false | .pushConstant | .pushGlobal | .send _ =>
    match p.literal? first with
    | none => .error (.splice ("literal " ++ first.toNat.repr ++ " out of range"))
    | some l => w.writeLiteral op l
  | .returnLocal =>
    if ip = last then .ok w
    else .error (.splice ("block returns locally at " ++ ip.repr ++ " before its end"))
  | .returnNonLocal =>
    if first = 0 then .error (.splice "non-local return without context level")
    else if first = 1 then w.write .returnLocal []
    else w.write op [first - 1]
  | .pushSelf | .returnSelf => .error (.splice (op.name ++ " inside a block"))
  | .jump .back wide => w.carryBack p ip wide
  | .jump _ wide =>
    let (jump, draft) := w.draft.emitJump op
    .ok { w with draft, forward := insertAscending (ip + p.tape.distance ip wide, jump) w.forward }
  | .quickened _ => .error (.splice ("quickened opcode " ++ op.name ++ " in compiled block"))
  | .halt | .dup | .dupSecond | .pushNil | .pushZero | .pushOne | .drop | .step _ => w.write op []

/-- Carries the instruction at an offset over, after all that waited for the offset. -/
def advance (w : Walk) (p : Program Code) (m : SlotMap) (last ip : Nat) :
    Except CompileError Walk :=
  match arrive ip w.draft w.forward with
  | .error e => .error e
  | .ok (forward, draft) =>
    match place ip draft.position w.placed w.heads with
    | .error e => .error e
    | .ok (heads, placed) =>
      match p.tape.opcode? ip with
      | none => .error (.splice ("bad opcode at " ++ ip.repr))
      | some op => { w with draft, forward, heads, placed }.carry p m last ip op

/-- Carries the instructions at the offsets given over. -/
def carryAll (w : Walk) (p : Program Code) (m : SlotMap) (last : Nat) :
    List Nat → Except CompileError Walk
  | [] => .ok w
  | ip :: rest =>
    match w.advance p m last ip with
    | .error e => .error e
    | .ok w => carryAll w p m last rest

/-- Points the jumps that wait for the end of the block, or for the return there that was left
    out, behind the spliced code. -/
def land (size last : Nat) (d : Draft) : List (Nat × Nat) → Except CompileError Draft
  | [] => .ok d
  | (target, jump) :: rest =>
    if target ≠ size ∧ target ≠ last then
      .error (.splice ("jump to " ++ target.repr ++ " was never patched"))
    else
      match d.patchHere jump with
      | .error e => .error e
      | .ok d => land size last d rest

/-- Ends a walk: nothing may be waiting any more. -/
def finish (w : Walk) (p : Program Code) (last : Nat) : Except CompileError Draft :=
  match land p.tape.size last w.draft w.forward with
  | .error e => .error e
  | .ok d =>
    match w.backward, w.heads with
    | (jump, _) :: _, _ =>
      .error (.splice ("loop marker for " ++ jump.repr ++ " has no backward jump"))
    | [], head :: _ =>
      .error (.splice ("loop head " ++ head.repr ++ " past the end of the block"))
    | [], [] => .ok d

end Walk

/-- Sets locals to nil. -/
def Draft.clearLocals (d : Draft) (slots : List UInt8) : Draft :=
  slots.foldl (fun d slot => (d.emit .pushNil []).emit (.pop .temporary) [slot, 0]) d

/-- Splices a block into a draft. `next` is the first identity free for rehomed closures. -/
def Draft.splice (d : Draft) (block : Code) (next : Nat) : Except CompileError (Draft × Nat) :=
  let p := block.program
  match d.mergeBlock p with
  | .error e => .error e
  | .ok (m, d) =>
    let starts := p.tape.starts
    let last := starts.getLastD 0
    let loops := p.loops.foldl (fun l mark => insertAscending (mark.jump, mark.head) l) []
    let heads := p.loops.foldl (fun l mark => insertAscending (mark.head, 0) l) []
    let w : Walk :=
      { draft := d.clearLocals m.locals, next, forward := [], heads := heads.map (·.1),
        backward := loops, placed := [] }
    match w.carryAll p m last starts with
    | .error e => .error e
    | .ok w =>
      match w.finish p last with
      | .error e => .error e
      | .ok d => .ok (d, w.next)

end Parley
