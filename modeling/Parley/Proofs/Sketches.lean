import Parley.Proofs.Stock

/-!
# Sketches of codes

A *sketch* of a code tells what an execution of it goes by: how many arguments and locals there are,
some of the instructions with their offsets and operands, and the literals, with sketches of the
blocks among them. Whether a code is as sketched is computed (`Sketch.shows`), and for a code that
is, instructions and literals are read off the sketch.
-/

namespace Parley

/-- What an execution of a code goes by. -/
inductive Sketch where
  /-- The arguments, the receiver or block included, and the locals; the instructions, each with its
      offset and operands; the literals. -/
  | mk (arguments locals : Nat) (instructions : List (Nat × Opcode × List UInt8))
      (literals : List (Literal Sketch))

namespace Tape

/-- Whether a tape has bytes from an offset on. -/
def has (t : Tape) (ip : Nat) : List UInt8 → Bool
  | [] => true
  | b :: rest => t.byteAt ip == b && t.has (ip + 1) rest

/-- Whether a tape has an instruction at an offset. -/
def reads (t : Tape) (i : Nat × Opcode × List UInt8) : Bool :=
  t.opcode? i.1 == some i.2.1 && t.has (i.1 + 1) i.2.2

end Tape

namespace Sketch

mutual

/-- Whether a code is as sketched. -/
def shows : Sketch → Code → Bool
  | mk arguments locals instructions literals, c =>
    c.argumentCount == arguments && c.program.locals.size == locals &&
      instructions.all c.program.tape.reads && showsAll literals c.program.literals.toList

/-- Whether literals are as sketched. -/
def showsAll : List (Literal Sketch) → List (Literal Code) → Bool
  | [], _ => true
  | _ :: _, [] => false
  | l :: rest, m :: rest' => showsLiteral l m && showsAll rest rest'

/-- Whether a literal is as sketched. -/
def showsLiteral : Literal Sketch → Literal Code → Bool
  | .value v, .value v' => v == v'
  | .selector s, .selector s' => s == s'
  | .global name, .global name' => name == name'
  | .block k, .block c => shows k c
  | _, _ => false

end

/-- The arguments, the receiver or block included. -/
def arguments : Sketch → Nat
  | mk arguments _ _ _ => arguments

def locals : Sketch → Nat
  | mk _ locals _ _ => locals

/-- The instruction at an offset. -/
def instruction? : Sketch → Nat → Option (Opcode × List UInt8)
  | mk _ _ instructions _, ip => instructions.lookup ip

/-- The literal at a place. -/
def literal? : Sketch → Nat → Option (Literal Sketch)
  | mk _ _ _ literals, i => literals[i]?

/-- The message that an instruction sends, other than to super. -/
def sends? (k : Sketch) (ip : Nat) : Option Selector :=
  match k.instruction? ip with
  | some (.send false, [i]) =>
    match k.literal? i.toNat with
    | some (.selector s) => some s
    | _ => none
  | _ => none

theorem literal?_of_showsAll {ls : List (Literal Sketch)} {ms : List (Literal Code)}
    (h : showsAll ls ms) {i : Nat} {l : Literal Sketch} (hl : ls[i]? = some l) :
    ∃ m, ms[i]? = some m ∧ showsLiteral l m := by
  induction ls generalizing ms i with
  | nil => cases hl
  | cons l' ls ih =>
    cases ms with
    | nil => cases h
    | cons m ms =>
      rw [showsAll, Bool.and_eq_true] at h
      cases i with
      | zero =>
        cases hl
        exact ⟨m, rfl, h.1⟩
      | succ i => exact ih h.2 hl

theorem showsAll_of_append {ls ls' : List (Literal Sketch)} {ms : List (Literal Code)}
    (h : showsAll (ls ++ ls') ms) : showsAll ls ms := by
  induction ls generalizing ms with
  | nil => rfl
  | cons l ls ih =>
    cases ms with
    | nil => cases h
    | cons m ms =>
      rw [List.cons_append, showsAll, Bool.and_eq_true] at h
      rw [showsAll, Bool.and_eq_true]
      exact ⟨h.1, ih h.2⟩

end Sketch

/-- A code that is as sketched. -/
def Code.Follows (c : Code) (k : Sketch) : Prop :=
  k.shows c

/-- A code with an instruction at an offset. -/
def Code.Reads (c : Code) (ip : Nat) (op : Opcode) (operands : List UInt8) : Prop :=
  c.program.tape.reads (ip, op, operands)

namespace Code

variable {c : Code} {k : Sketch} {ip : Nat} {op : Opcode} {operands : List UInt8} {x y : UInt8}

theorem Reads.opcode (h : c.Reads ip op operands) : c.program.tape.opcode? ip = some op := by
  rw [Reads, Tape.reads, Bool.and_eq_true] at h
  exact eq_of_beq h.1

theorem Reads.has (h : c.Reads ip op operands) : c.program.tape.has (ip + 1) operands := by
  rw [Reads, Tape.reads, Bool.and_eq_true] at h
  exact h.2

theorem Reads.first (h : c.Reads ip op (x :: operands)) : c.program.tape.byteAt (ip + 1) = x := by
  have := h.has
  rw [Tape.has, Bool.and_eq_true] at this
  exact eq_of_beq this.1

theorem Reads.second (h : c.Reads ip op (x :: y :: operands)) :
    c.program.tape.byteAt (ip + 2) = y := by
  have := h.has
  simp only [Tape.has, Bool.and_eq_true] at this
  exact eq_of_beq this.2.1

namespace Follows

theorem argumentCount (h : c.Follows k) : c.argumentCount = k.arguments := by
  obtain ⟨arguments, locals, is, ls⟩ := k
  simp only [Follows, Sketch.shows, Bool.and_eq_true, beq_iff_eq] at h
  exact h.1.1.1

theorem locals (h : c.Follows k) : c.program.locals.size = k.locals := by
  obtain ⟨arguments, locals, is, ls⟩ := k
  simp only [Follows, Sketch.shows, Bool.and_eq_true, beq_iff_eq] at h
  exact h.1.1.2

theorem reads (h : c.Follows k) (hi : k.instruction? ip = some (op, operands)) :
    c.Reads ip op operands := by
  obtain ⟨arguments, locals, is, ls⟩ := k
  simp only [Follows, Sketch.shows, Bool.and_eq_true, List.all_eq_true] at h
  have hmem : (ip, op, operands) ∈ is := by
    obtain ⟨l₁, l₂, hl, -⟩ := List.lookup_eq_some_iff.1 hi
    rw [hl]
    exact List.mem_append_right _ List.mem_cons_self
  exact h.1.2 _ hmem

/-- A sketch that leaves out what comes last. -/
theorem part {arguments locals : Nat} {is is' : List (Nat × Opcode × List UInt8)}
    {ls ls' : List (Literal Sketch)} (h : c.Follows (.mk arguments locals is ls)) (his : is' <+: is)
    (hls : ls' <+: ls) : c.Follows (.mk arguments locals is' ls') := by
  obtain ⟨is'', rfl⟩ := his
  obtain ⟨ls'', rfl⟩ := hls
  simp only [Follows, Sketch.shows, Bool.and_eq_true, List.all_append] at h ⊢
  exact ⟨⟨h.1.1, h.1.2.1⟩, Sketch.showsAll_of_append h.2⟩

theorem literal (h : c.Follows k) (i : Nat) {l : Literal Sketch} (hl : k.literal? i = some l) :
    ∃ m, c.program.literals[i]? = some m ∧ Sketch.showsLiteral l m := by
  obtain ⟨arguments, locals, is, ls⟩ := k
  simp only [Follows, Sketch.shows, Bool.and_eq_true] at h
  obtain ⟨m, hm, hs⟩ := Sketch.literal?_of_showsAll h.2 hl
  exact ⟨m, by rw [← Array.getElem?_toList, hm], hs⟩

theorem value (h : c.Follows k) (i : Nat) {v : Value} (hl : k.literal? i = some (.value v)) :
    c.program.literals[i]? = some (.value v) := by
  obtain ⟨m, hm, hs⟩ := h.literal _ hl
  cases m with
  | value v' => rw [hm, eq_of_beq hs]
  | _ => cases hs

theorem global (h : c.Follows k) (i : Nat) {name : String}
    (hl : k.literal? i = some (.global name)) :
    c.program.literals[i]? = some (.global name) := by
  obtain ⟨m, hm, hs⟩ := h.literal _ hl
  cases m with
  | global name' => rw [hm, eq_of_beq hs]
  | _ => cases hs

theorem block (h : c.Follows k) (i : Nat) {k' : Sketch} (hl : k.literal? i = some (.block k')) :
    ∃ c', c.program.literals[i]? = some (.block c') ∧ c'.Follows k' := by
  obtain ⟨m, hm, hs⟩ := h.literal _ hl
  cases m with
  | block c' => exact ⟨c', hm, hs⟩
  | _ => cases hs

theorem sends (h : c.Follows k) {s : Selector} (hs : k.sends? ip = some s) :
    c.sends? ip = some (false, s) := by
  unfold Sketch.sends? at hs
  split at hs
  · rename_i i hi
    split at hs
    · rename_i s' hl
      cases hs
      have hr := h.reads hi
      obtain ⟨m, hm, hs⟩ := h.literal _ hl
      cases m with
      | selector s' =>
        rw [Code.sends?, hr.opcode]
        dsimp only
        rw [hr.first, Program.literal?, hm, eq_of_beq hs]
      | _ => cases hs
    · cases hs
  · cases hs

end Follows

end Code

end Parley
