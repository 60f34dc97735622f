import Parley.Opcode

/-!
# Tapes

A tape is a sequence of bytes that holds instructions one after another. An offset at which an
instruction begins is an instruction start; the starts are found by reading from offset zero
and skipping the operands of each instruction.
-/

namespace Parley

/-- A sequence of instruction bytes. -/
abbrev Tape := Array UInt8

namespace Tape

/-- The byte at an offset, zero outside the tape. -/
def byteAt (t : Tape) (i : Nat) : UInt8 :=
  t.getD i 0

/-- The opcode at an offset. -/
def opcode? (t : Tape) (ip : Nat) : Option Opcode :=
  match t[ip]? with
  | some b => Opcode.ofByte? b
  | none => none

/-- The distance of the jump at an offset. -/
def distance (t : Tape) (ip : Nat) (wide : Bool) : Nat :=
  let low := (t.byteAt (ip + 1)).toNat
  if wide then low + 256 * (t.byteAt (ip + 2)).toNat else low

/-- The instruction starts from an offset on, up to the end or to a byte that is no opcode. -/
def startsFrom (t : Tape) (ip : Nat) : List Nat :=
  if h : ip < t.size then
    match t.opcode? ip with
    | some op =>
      have : t.size - (ip + op.size) < t.size - ip := by have := op.size_pos; omega
      ip :: t.startsFrom (ip + op.size)
    | none => [ip]
  else []
termination_by t.size - ip

/-- The instruction starts. -/
def starts (t : Tape) : List Nat :=
  t.startsFrom 0

end Tape

end Parley
