import Mathlib
import Parley.Host
import Parley.Proofs.Settled

/-!
# Lexical addressing

The operands of an instruction say how many frames out a variable is, and in which slot. They were
computed when the method was lowered, and again whenever a block was spliced into the code around
it, and no frame says how many slots the code had in mind. Still an instruction finds what it
addresses, in whatever method or block, however deep it is nested (`Machine.Ordinary.addressed`): as
many frames out is the frame of the code as many levels around, and the slot is one that this code
declares. So none of the faults comes up that an instruction has for a variable that is not there,
and a closure that is made without a frame is of a block that addresses none but its own.
-/

namespace Parley

variable {w : World} {ran : FrameRef → Code}

/-- A code that addresses no variable of the frames around it, returns from no method around it and
    makes no closure that could. -/
def Code.StaysInside (c : Code) : Prop :=
  ∀ ip ∈ c.program.tape.starts, ∀ op, c.program.tape.opcode? ip = some op →
    (∀ p, op = .push p ∨ op = .pop p → c.program.tape.byteAt (ip + 2) = 0) ∧
      op ≠ .returnNonLocal ∧ op ≠ .pushBlock true

/-- A fault that an instruction has for a variable that is not there, for too few frames around, or
    for a return from a method by something that is no block. -/
def Fault.Misses (f : Fault) : Prop :=
  (∃ i, f = .localOutOfRange i) ∨ (∃ i, f = .argumentOutOfRange i) ∨
    (∃ level, f = .contextTooDeep level) ∨ ∃ name, f = .nonLocalReturnFrom name

theorem Fault.misses_iff {f : Fault} : f.Misses ↔ f.isLexical = true := by
  cases f <;> simp [Misses, isLexical]

/-- What the addresses in the codes of a machine come to, given a record of the codes that were
    executed in its frames. -/
structure Machine.Addressed (m : Machine) (ran : FrameRef → Code) : Prop where
  /-- The record tells what is executed. -/
  records : ∀ a, m.job = .execute a → ran a.frame = a.code
  /-- What an instruction addresses is there. -/
  finds : ∀ a op, m.job = .execute a → a.code.program.tape.opcode? a.ip = some op →
    op.Finds m.world.heap ran a.frame (a.code.program.tape.byteAt (a.ip + 1))
      (a.code.program.tape.byteAt (a.ip + 2))
  /-- A block of which a closure is made without a frame stays inside its own. -/
  pushes : ∀ a c, m.job = .execute a → a.code.program.tape.opcode? a.ip = some (.pushBlock false) →
    a.code.program.literal? (a.code.program.tape.byteAt (a.ip + 1)) = some (.block c) →
      c.StaysInside
  /-- So does the block of every closure without a frame, however it comes to be evaluated. -/
  closures : ∀ b < m.world.heap.closures.size, (m.world.heap.closure b).context = none →
    (m.world.heap.closure b).code.StaysInside
  /-- No activation fails for what it does not find. -/
  faults : ∀ f, m.job = .fail f → ¬ f.Misses
  /-- Nor is a host told so that sends a message or runs a method it has compiled. -/
  sends : m.outcome ≠ .unfinished → ∀ selector arguments, m.world.Covers arguments →
    ∀ f, (m.world.send selector arguments).1 = .error f → ¬ f.Misses
  runs : m.outcome ≠ .unfinished → ∀ c ∈ m.world.codes, ∀ arguments, m.world.Covers arguments →
    ∀ f, (m.world.runMethod c arguments).1 = .error f → ¬ f.Misses

namespace Machine

variable {m : Machine}

/-- A block of which a closure is made without a frame needs none. -/
theorem Settled.pushes (h : m.Settled ran) {a : Activation} {c : Code} (ha : m.job = .execute a)
    (hop : a.code.program.tape.opcode? a.ip = some (.pushBlock false))
    (hl : a.code.program.literal? (a.code.program.tape.byteAt (a.ip + 1)) = some (.block c)) :
    c.program.needsContext = false := by
  have hseated := h.housed.executes a ha
  obtain ⟨hip, -, -, first, second, hr, -⟩ :=
    h.housed.heap.suits hseated (h.atStart a ha) hop
  have hfits := (h.housed.heap.frames a.frame hseated.frame).fits
  rw [hseated.code] at hfits
  rw [hr.first (by simp [Opcode.size])] at hl
  exact (hfits.pushed hip hr hl hseated.code).1

/-- What a host is told of a job that it asked for is no fault of addressing. -/
theorem Ordinary.result_not_misses (h : m.Ordinary ran) (hi : m.outcome ≠ .unfinished) {job : Job}
    (hj : m.world.Asks job) {f : Fault} (hr : (m.world.result job).1 = .error f) : ¬ f.Misses := by
  rw [Fault.misses_iff, Bool.not_eq_true]
  rcases result_error hr with ⟨n, w', u, hn, rfl⟩ | rfl
  · obtain ⟨ran', h'⟩ := (h.next (.request hi hj)).iterate n
    rw [hn] at h'
    cases u with
    | failed f => exact h'.settled.faults f rfl
    | _ => rfl
  · rfl

/-- Whatever methods were compiled, inlined or not, and whatever was sent to whom: an instruction
    finds the variable or the method that it addresses. -/
theorem Ordinary.addressed (h : m.Ordinary ran) : m.Addressed ran where
  records a ha := (h.settled.housed.executes a ha).code
  finds := h.settled.ready.finds
  pushes _ _ ha hop hl := Program.needsContext_eq_false_iff.1 (h.settled.pushes ha hop hl)
  closures b hb hnone :=
    Program.needsContext_eq_false_iff.1 ((h.settled.housed.heap.closures b hb).alone hnone)
  faults f hf := by
    rw [Fault.misses_iff, h.settled.faults f hf]
    exact Bool.false_ne_true
  sends hi selector arguments hc f hf := by
    cases arguments with
    | nil =>
      obtain rfl : Fault.noReceiver selector = f := Except.error.inj hf
      simp [Fault.Misses]
    | cons v vs =>
      have hj : m.world.Asks (.send selector (v :: vs)) := hc
      exact h.result_not_misses hi hj hf
  runs hi c hc arguments hv f hf := by
    have hj : m.world.Asks (.invoke (.method c) arguments) := ⟨hc, hv⟩
    exact h.result_not_misses hi hj hf

/-! ### A block that moves out of a branch -/

/-- A method of which the only branch answers a block that writes a variable of the branch. -/
def kept : MethodTree where
  selector := "kept"
  parameters := []
  locals := []
  body := [.send (.constant (.bool true)) "ifTrue:"
    [.block [] ["t"] [.leave (.block ["v"] [] [.assign "t" (.variable "v")])]]]

/-- A host has compiled the method, with the branch inlined, and runs it. -/
def keeping : Machine :=
  running (.bare .standard .standard .kept false) Core.object kept true [.nil]

/-- Then it evaluates the block that was answered. -/
def keepingOn : Machine :=
  ⟨(step^[7] keeping).world, .evaluate 0 [.int 7], []⟩

/-- Whether a machine is to write to the first temporary of the frame one level out. -/
def writesOutside (m : Machine) : Bool :=
  match m.job with
  | .execute a => decide (a.code.program.tape.opcode? a.ip = some (.pop .temporary) ∧
      a.code.program.tape.byteAt (a.ip + 1) = 0 ∧ a.code.program.tape.byteAt (a.ip + 2) = 1)
  | _ => false

set_option maxRecDepth 10000 in
/-- When it comes to the write, the block finds the variable in the frame of the method, into which
    the branch was spliced, and not two frames out, where it was before. -/
theorem Ordinary.addressed_kept : ∃ ran a g, (step^[3] keepingOn).Ordinary ran ∧
    (step^[3] keepingOn).job = .execute a ∧
      a.code.program.tape.opcode? a.ip = some (.pop .temporary) ∧
      a.code.program.tape.byteAt (a.ip + 1) = 0 ∧ a.code.program.tape.byteAt (a.ip + 2) = 1 ∧
      (step^[3] keepingOn).world.heap.enclosing? a.frame 1 = some g ∧
      (ran g).Within 1 a.code ∧ 0 < (ran g).program.locals.size := by
  have hanswer : (step^[7] keeping).outcome = .value (.block 0) := by
    cbv
  have hwrite : (step^[3] keepingOn).writesOutside := by
    cbv
  have hidle : (step^[7] keeping).outcome ≠ .unfinished := by
    rw [hanswer]
    simp
  -- The host compiles the method and runs it, gets the block, and evaluates it.
  obtain ⟨ran, h⟩ := (Ordinary.bare .standard .standard .kept false).compiled (by rintro ⟨⟩)
    (show Core.object < _ by decide) kept true
    (World.covers_singleton (show Value.nil.Within _ from trivial))
  obtain ⟨ran, h⟩ := h.iterate 7
  have hj : (step^[7] keeping).world.Asks (.evaluate 0 [.int 7]) :=
    World.covers_singleton (show (Value.int 7).Within _ from trivial)
  obtain ⟨ran, h⟩ := (h.next (.request hidle hj)).iterate 3
  have haddressed : Machine.Addressed (step^[3] keepingOn) ran := h.addressed
  have h : Machine.Ordinary (step^[3] keepingOn) ran := h
  generalize step^[3] keepingOn = m at h haddressed hwrite ⊢
  obtain ⟨w, job, k⟩ := m
  cases job with
  | execute a =>
    obtain ⟨hop, hfirst, hsecond⟩ := of_decide_eq_true hwrite
    obtain ⟨g, hg, hw, hslot, -⟩ := haddressed.finds a _ rfl hop
    rw [hfirst] at hslot
    rw [hsecond] at hg hw
    rw [haddressed.records a rfl] at hw
    exact ⟨ran, a, g, h, rfl, hop, hfirst, hsecond, hg, hw, hslot⟩
  | _ => cases hwrite

end Machine

end Parley
