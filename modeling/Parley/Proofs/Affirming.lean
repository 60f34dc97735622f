import Parley.Proofs.Replaying

/-!
# A block that answers true

A host gets it from a method that it compiles in a new world (`Machine.Ordinary.hosts_block`).
Whatever the machine does later, the block goes on to answer true
(`Machine.Ordinary.affirms_iterate`).
-/

namespace Parley

/-- A method that answers a block, which answers true. -/
def affirming : MethodTree where
  selector := "affirming"
  parameters := []
  locals := []
  body := [.leave (.block [] [] [.constant (.bool true)])]

/-- What the block is compiled to. -/
def trueSketch : Sketch :=
  .mk 1 0 [(0, .pushConstant, [0]), (2, .returnLocal, [])] [.value (.bool true)]

/-- What the method is compiled to. -/
def affirmingSketch : Sketch :=
  .mk 1 0 [(0, .pushBlock false, [0]), (2, .returnLocal, [])] [.block trueSketch]

/-- Whether the method is compiled as sketched. -/
def affirms (s : Supply) : Bool :=
  match affirming.lowerTo 1000 Core.object [] true s with
  | ⟨.ok code, _, _⟩ => affirmingSketch.shows code
  | _ => false

theorem affirms_eq_true (s : Supply) : affirms s = true := by
  cbv

theorem compile_affirming {w : World} (hfields : (w.classes.get Core.object).fields = []) :
    ∃ code w', w.compile Core.object affirming true = (.ok code, w') ∧
      code.Follows affirmingSketch := by
  have haffirms := affirms_eq_true w.supply
  unfold affirms at haffirms
  split at haffirms
  · rename_i code supply events hlower
    rw [MethodTree.lowerTo_eq, ← hfields] at hlower
    have hcompile : (w.compile Core.object affirming true).1 = .ok code := by
      rw [World.compile, hlower]
    exact ⟨code, _, Prod.ext hcompile rfl, haffirms⟩
  · cases haffirms

/-- A block answers true. -/
def Heap.Affirms (h : Heap) (b : BlockRef) : Prop :=
  ∃ code, h.closure b = ⟨code, none⟩ ∧ code.Follows trueSketch

namespace Machine

theorem closure_ne_default {h : Heap} {b : BlockRef} (hb : h.Affirms b) :
    h.closure b ≠ default := by
  obtain ⟨code, hb, hcode⟩ := hb
  intro hdefault
  have hcount := hcode.argumentCount
  rw [show code = default from congrArg Closure.code (hb.symm.trans hdefault)] at hcount
  cases hcount

/-- The steps of a machine leave the block as it is. -/
theorem Ordinary.affirms_iterate {m : Machine} {ran : FrameRef → Code} {b : BlockRef}
    {base limit : Nat} (h : m.Ordinary ran) (hs : m.Stands base limit)
    (hb : m.world.heap.Affirms b) (n : Nat) : (step^[n] m).world.heap.Affirms b := by
  obtain ⟨-, -, hclosure⟩ := h.iterate_keeps hs n
  rw [Heap.Affirms, hclosure b (closure_ne_default hb)]
  exact hb

/-- A host gets the block from a new world. -/
theorem Ordinary.hosts_block : ∃ w ran b,
    Machine.Ordinary ⟨w, .answer (.block b), []⟩ ran ∧
    w.classes = (World.boot .standard .standard .kept false).classes ∧
    Stands ⟨w, .answer (.block b), []⟩ 0 Settings.standard.maxDepth ∧ w.heap.Affirms b := by
  have hledger := World.installLibrary_ledger (.bare .standard .standard .kept false)
  have h := Ordinary.boot .standard .standard .kept false
  have hcore : ((World.looped Settings.standard.inlining).get Core.object).fields = [] ∧
      Core.object < (World.looped Settings.standard.inlining).next := by
    decide +kernel
  rw [← World.boot] at hledger
  rw [← World.boot_classes .standard .standard .kept false] at hcore
  generalize World.boot .standard .standard .kept false = w at hledger h hcore ⊢
  obtain ⟨method, w₀, hcompile, hmethod⟩ := compile_affirming hcore.1
  obtain ⟨ran, h₀⟩ := h.compiled (by rintro ⟨⟩) hcore.2 affirming true
    (World.covers_singleton (show Value.nil.Within _ from trivial))
  have hledger₀ := w.compile_ledger Core.object affirming true
  have hclasses₀ := w.compile_classes Core.object affirming true
  unfold running at h₀
  rw [hcompile] at h₀ hledger₀ hclasses₀
  have h₀ : Machine.Ordinary ⟨w₀, .invoke (.method method) [.nil], []⟩ ran := h₀
  have hledger₀ := hledger₀.trans hledger
  have hdepth : w₀.thread.depth = 0 := congrArg Ledger.depth hledger₀
  have hsettings : w₀.settings = .standard := congrArg Ledger.settings hledger₀
  have hstands : Stands ⟨w₀, .invoke (.method method) [.nil], []⟩ 0 Settings.standard.maxDepth :=
    ⟨hdepth, congrArg Settings.maxDepth hsettings⟩
  -- The method is called, makes the block and answers it.
  rcases step_method w₀ [.nil] [] hmethod.argumentCount.symm with
    ⟨w₁, hstep₁, -⟩ | ⟨f, -, hroom⟩
  · obtain ⟨code, hliteral, hcode⟩ := hmethod.block 0 rfl
    have hpush : method.Reads 0 (.pushBlock false) [0] := hmethod.reads rfl
    have hreturn : method.Reads 2 .returnLocal [] := hmethod.reads rfl
    obtain ⟨w₂, hstep₂, hheap⟩ := step_pushBlock (w := w₁) (f := w₀.heap.frames.size) (r := [])
      (n := 0) (k := []) hpush hliteral
    obtain ⟨w₃, hstep₃⟩ := step_returnLocal (w := w₂) (f := w₀.heap.frames.size)
      (v := .block w₁.heap.closures.size) (r := []) (n := 0) (k := []) hreturn
    have hblock : w₂.heap.Affirms w₁.heap.closures.size := by
      refine ⟨code, ?_, hcode⟩
      rw [hheap]
      exact w₁.heap.closure_newClosure_self _
    have hrun₂ : step^[2] ⟨w₀, .invoke (.method method) [.nil], []⟩ = _ :=
      (congrArg step hstep₁).trans hstep₂
    obtain ⟨hstands₂, hclasses₂, -⟩ := h₀.iterate_keeps hstands 2
    obtain ⟨ran, h₂⟩ := h₀.iterate 2
    rw [hrun₂] at hstands₂ hclasses₂ h₂
    obtain ⟨hstands₃, hclasses₃, -⟩ := h₂.iterate_keeps hstands₂ 1
    have hblock₃ := h₂.affirms_iterate hstands₂ hblock 1
    obtain ⟨ran, h₃⟩ := h₂.iterate 1
    rw [Function.iterate_one, hstep₃] at hstands₃ hclasses₃ hblock₃ h₃
    exact ⟨w₃, ran, _, h₃, hclasses₃.trans (hclasses₂.trans hclasses₀), hstands₃, hblock₃⟩
  · rw [hdepth, hsettings] at hroom
    exact absurd hroom (by decide)

end Machine

end Parley
