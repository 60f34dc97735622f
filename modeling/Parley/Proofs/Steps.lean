import Mathlib.Logic.Function.Iterate
import Parley.Proofs.Dispatch

/-!
# Steps keep to the stock

A step of a machine that refers to a stock leaves a machine that refers to it, and whatever call
sites remember is still right (`Machine.step_sound`). One lemma for each way in which an
activation goes on says what comes of it.
-/

namespace Parley

variable {s : Stock} {w : World} {v : Value} {rest arguments : List Value}

/-! ### Entering and leaving -/

theorem World.enter_upheld (h : w.Sound s) {code : Code} (hc : s.Knows code)
    (ha : s.Covers arguments) (context : Option FrameRef) :
    s.Upholds (w.enter code arguments context) := by
  rw [World.enter]
  split
  · extract_lets activation f thread w'
    have h' : w'.Sound s := { h with heap := h.heap.newFrame activation ha _ context }
    refine ⟨⟨hc, .nil⟩, ?_⟩
    dsimp only
    exact h'.count _
  · exact ⟨trivial, h⟩

namespace Activation

variable {a : Activation}

theorem Sound.push (h : a.Sound s) (hv : v.Within s.classes) : (a.push v).Sound s :=
  ⟨h.code, h.stack.cons hv⟩

theorem Sound.restarted (h : a.Sound s) : a.restarted.Sound s :=
  ⟨h.code, .nil⟩

theorem countLoops_sound (h : w.Sound s) (a : Activation) : (a.countLoops w).Sound s := by
  rw [countLoops]
  split
  · exact h
  · extract_lets w'
    have h' : w'.Sound s := h.count _
    split
    · exact h'.note _
    · exact h'

theorem leave_upheld (h : w.Sound s) (a : Activation) (marker : Marker) {job : Job}
    (hj : job.Sound s) : s.Upholds (a.leave marker job w) := by
  have h' := countLoops_sound h a
  exact ⟨hj, { h' with heap := h'.heap.leave a.frame marker }⟩

theorem finish_upheld (h : w.Sound s) (a : Activation) (hv : v.Within s.classes) :
    s.Upholds (a.finish v w) :=
  leave_upheld h a _ hv

theorem abandon_upheld (h : w.Sound s) (a : Activation) {u : Unwind} (hu : u.Sound s) :
    s.Upholds (a.abandon u w) := by
  unfold abandon
  split
  · split
    · exact leave_upheld h a _ hu
    · exact leave_upheld h a _ hu
  · exact leave_upheld h a _ hu

theorem failing_upheld (h : w.Sound s) (a : Activation) (f : Fault) :
    s.Upholds (a.failing f w) :=
  abandon_upheld h a trivial

theorem goOn_upheld (h : w.Sound s) (ha : a.Sound s) (ip : Nat) {stack : List Value}
    (hs : s.Covers stack) : s.Upholds (a.goOn ip stack w) :=
  ⟨⟨ha.code, hs⟩, h⟩

/-! ### Single instructions -/

theorem pushVariable_upheld (h : w.Sound s) (ha : a.Sound s) (p : Place) (slot level : UInt8)
    (next : Nat) : s.Upholds (a.pushVariable p slot level next w) := by
  rw [pushVariable]
  split
  · exact failing_upheld h a _
  · rename_i f _
    have hf := h.heap.frame f
    cases p with
    | temporary =>
      dsimp only
      split
      · rename_i v hv
        exact goOn_upheld h ha _ (ha.stack.cons (hf.locals v (Array.mem_of_getElem? hv)))
      · exact failing_upheld h a _
    | argument =>
      dsimp only
      split
      · rename_i v hv
        exact goOn_upheld h ha _ (ha.stack.cons (hf.arguments v (Array.mem_of_getElem? hv)))
      · exact failing_upheld h a _
    | field =>
      dsimp only
      split
      · rename_i o _
        have hr := h.heap.readField h.stock h.classes o slot.toNat
        split
        · rename_i v heap hv
          rw [hv] at hr
          exact goOn_upheld (h.setHeap hr.1) ha _ (ha.stack.cons (hr.2 v rfl))
        · rename_i heap hv
          rw [hv] at hr
          exact failing_upheld (h.setHeap hr.1) a _
      · exact failing_upheld h a _

theorem popVariable_upheld (h : w.Sound s) (ha : a.Sound s) (p : Place) (slot level : UInt8)
    (next : Nat) (hv : v.Within s.classes) (hr : s.Covers rest) :
    s.Upholds (a.popVariable p slot level next v rest w) := by
  rw [popVariable]
  split
  · exact failing_upheld h a _
  · rename_i f _
    cases p with
    | temporary =>
      dsimp only
      split
      · exact goOn_upheld (h.setHeap (h.heap.setLocal f _ hv)) ha _ hr
      · exact failing_upheld h a _
    | argument =>
      dsimp only
      split
      · exact goOn_upheld (h.setHeap (h.heap.setArgument f _ hv)) ha _ hr
      · exact failing_upheld h a _
    | field =>
      dsimp only
      split
      · rename_i o _
        have hw := h.heap.writeField h.classes o slot.toNat hv
        split
        · rename_i heap hh
          rw [hh] at hw
          exact goOn_upheld (h.setHeap hw) ha _ hr
        · rename_i heap hh
          rw [hh] at hw
          exact failing_upheld (h.setHeap hw) a _
      · exact failing_upheld h a _

theorem returnNonLocal_upheld (h : w.Sound s) (a : Activation) (level : UInt8)
    (hv : v.Within s.classes) : s.Upholds (a.returnNonLocal level v w) := by
  rw [returnNonLocal]
  split
  · exact failing_upheld h a _
  · dsimp only
    split
    · exact abandon_upheld (h.count _) a hv
    · split
      · exact abandon_upheld (h.note _) a hv
      · exact failing_upheld h a _

theorem step_upheld (h : w.Sound s) (ha : a.Sound s) (up : Bool) (v : Value)
    (hr : s.Covers rest) (next : Nat) : s.Upholds (a.step up v rest next w) := by
  rw [step]
  split
  · rename_i stepped hs
    exact goOn_upheld (Numbers.notePromotion_sound h _ _ _) ha _ (hr.cons (Number.step_within hs))
  · exact failing_upheld h a _

theorem jump_upheld (h : w.Sound s) (ha : a.Sound s) (j : Jump) (wide : Bool) (next : Nat) :
    s.Upholds (a.jump j wide next w) := by
  have hs := ha.stack
  unfold jump
  cases j with
  | always => exact goOn_upheld h ha _ hs
  | back => exact ⟨⟨ha.code, hs⟩, h⟩
  | test on leavesNil =>
    dsimp only
    split
    · rename_i b rest hstack
      rw [hstack] at hs
      split
      · refine goOn_upheld h ha _ ?_
        split
        · exact hs.tail.cons trivial
        · exact hs.tail
      · exact goOn_upheld h ha _ hs.tail
    · exact failing_upheld h a _
    · exact failing_upheld h a _
  | greater =>
    dsimp only
    split
    · rename_i top below rest hstack
      split
      · rw [hstack] at hs
        exact goOn_upheld h ha _ hs.tail.tail
      · exact goOn_upheld h ha _ hs
      · exact failing_upheld h a _
    · exact failing_upheld h a _

theorem withTop_upheld (h : w.Sound s) (ha : a.Sound s)
    {go : Value → List Value → World → Job × World}
    (hgo : ∀ v rest, v.Within s.classes → s.Covers rest → s.Upholds (go v rest w)) :
    s.Upholds (a.withTop w go) := by
  have hs := ha.stack
  rw [withTop]
  split
  · rename_i v rest hstack
    rw [hstack] at hs
    exact hgo v rest hs.head hs.tail
  · exact failing_upheld h a _

/-- A closure that is made is of a block of the stock. -/
theorem pushClosure_upheld (h : w.Sound s) (ha : a.Sound s) (hcode : .block a.code ∈ s.written)
    (withContext : Bool) (index : UInt8) (next : Nat) :
    s.Upholds (a.pushClosure withContext index next w) := by
  rw [pushClosure]
  split
  · rename_i code hl
    extract_lets b closure w'
    -- The block is a literal of a code of the stock.
    have hk : s.Knows closure.code :=
      .inr (h.stock.inside a.code hcode _ (Array.mem_of_getElem? hl))
    have h' : w'.Sound s := h.setHeap (h.heap.newClosure hk)
    exact goOn_upheld (h'.count _) ha _ (ha.stack.cons trivial)
  · exact failing_upheld h a _

end Activation

theorem readCell_sound (h : w.Sound s) (cell : CellRef) {receiver : Value}
    (hr : receiver.Within s.classes) : (readCell cell receiver w).Sound s := by
  rw [readCell]
  split
  · rename_i v hv
    rw [Globals.get?] at hv
    split at hv
    · rename_i c hc
      exact h.globals c (Array.mem_of_getElem? hc) v hv
    · cases hv
  · exact ⟨hr, trivial⟩

/-- Reading a global keeps the cell of its name. -/
theorem readGlobal_upheld (h : w.Sound s) {code : Code} {ip : Nat}
    (hcode : .block code ∈ s.written) {literal : Option (Literal Code)}
    (hread : ∀ name, literal = some (.global name) → code.reads? ip = some name) {receiver : Value}
    (hr : receiver.Within s.classes) :
    s.Upholds (readGlobal (code.id, ip) literal receiver w) := by
  unfold readGlobal
  split
  · exact ⟨readCell_sound h _ hr, h⟩
  · exact ⟨trivial, h⟩
  · split
    · rename_i name
      have hread : code.reads? ip = some name := hread name rfl
      -- The cell that the instruction keeps from now on is the one of the name it reads.
      have hself := w.globals.find?_cell_self name
      have h' := h.cell name
      generalize w.globals.cell name = r at hself h' ⊢
      obtain ⟨cell, globals⟩ := r
      dsimp only at hself h' ⊢
      refine ⟨readCell_sound (h'.noteQuickened _ _) cell hr,
        (h'.noteQuickened _ _).specialize hcode (Option.isSome_iff_exists.2 ⟨name, hread⟩) ?_⟩
      rintro _ ⟨⟩ name' hread'
      rw [hread] at hread'
      cases hread'
      rw [World.noteQuickened_globals]
      exact hself
    · exact ⟨trivial, h⟩

/-! ### Any instruction -/

namespace Machine

variable {a : Activation} {k : List Pending}

theorem after_sound (hk : ∀ p ∈ k, p.Sound s) {r : Job × World} (hr : s.Upholds r) :
    (after k r).Sound s :=
  ⟨hr.2, hr.1, hk⟩

theorem forall_mem_cons {p : Pending} (hp : p.Sound s) (hk : ∀ q ∈ k, q.Sound s) :
    ∀ q ∈ p :: k, q.Sound s := by
  intro q hq
  rcases List.mem_cons.1 hq with rfl | hq
  · exact hp
  · exact hk q hq

theorem superJob_sound (h : w.Sound s) (ha : s.Covers arguments) (holder : ClassRef)
    (selector : Selector) :
    (superJob (w.lookupAbove holder selector) selector arguments).Sound s := by
  unfold superJob
  split
  · rename_i i hi
    obtain ⟨c, -, hc⟩ := Option.bind_eq_some_iff.1 hi
    exact ⟨World.Sound.lookup h.classes hc, ha⟩
  · exact ⟨ha.argument 0, ha.drop 1⟩

theorem fulfilsSuper_sound (h : w.Sound s) (ha : s.Covers arguments) {code : Code}
    {selector : Selector} {job : Job} (hj : w.FulfilsSuper code selector arguments job) :
    job.Sound s := by
  cases hj with
  | found _ => exact superJob_sound h ha _ selector
  | gone _ => trivial

theorem sendInstruction_sound (h : w.Sound s) (ha : a.Sound s) (hcode : .block a.code ∈ s.written)
    (hk : ∀ p ∈ k, p.Sound s) (toSuper : Bool) {index : UInt8} (next : Nat)
    (hsend : ∀ selector, a.code.program.literal? index = some (.selector selector) →
      a.code.sends? a.ip = some (toSuper, selector)) :
    (sendInstruction a toSuper index next w k).Sound s := by
  rw [sendInstruction]
  split
  · rename_i selector hl
    have hsend := hsend selector hl
    extract_lets taken arguments w₁ k₁ l inProgress
    -- The arguments were pushed last, so that they come off the stack the other way round.
    have hargs : s.Covers arguments := (ha.stack.take taken).reverse
    have h₁ : w₁.Sound s := h.count _
    have hk₁ : ∀ p ∈ k₁, p.Sound s := forall_mem_cons ⟨ha.code, ha.stack.drop taken⟩ hk
    split
    · exact after_sound hk (Activation.failing_upheld h a _)
    · cases toSuper with
      | false =>
        have hs := sendFrom_sent hcode hsend h₁ hargs
        exact after_sound hk₁ ⟨hs.job.sound h₁ hargs, hs.world⟩
      | true =>
        rw [if_pos rfl]
        split
        · rename_i target ht
          -- A binding of the present epoch is as good as a lookup.
          obtain ⟨holder, -, rfl⟩ := boundSuper?_eq hcode hsend h₁ ht
          exact ⟨h₁, superJob_sound h₁ hargs holder selector, hk₁⟩
        · have hs := bindSuper_sent hcode hsend h₁ arguments inProgress
          exact after_sound hk₁ ⟨fulfilsSuper_sound h₁ hargs hs.job, hs.world⟩
  · exact after_sound hk (Activation.failing_upheld h a _)

theorem instruction_sound (h : w.Sound s) (ha : a.Sound s) (hcode : .block a.code ∈ s.written)
    (hk : ∀ p ∈ k, p.Sound s) {op : Opcode} (hop : a.code.program.tape.opcode? a.ip = some op) :
    (instruction a op w k).Sound s := by
  have hs := ha.stack
  unfold instruction
  dsimp only
  cases op with
  | halt =>
    refine after_sound hk (Activation.finish_upheld h a ?_)
    rw [headD_eq_argument]
    exact hs.argument 0
  | dup =>
    exact after_sound hk (Activation.withTop_upheld h ha fun v rest hv hr =>
      Activation.goOn_upheld h ha _ ((hr.cons hv).cons hv))
  | dupSecond =>
    dsimp only
    split
    · rename_i v u rest hstack
      rw [hstack] at hs
      exact after_sound hk (Activation.goOn_upheld h ha _ (hs.cons hs.tail.head))
    · exact after_sound hk (Activation.failing_upheld h a _)
  | push place => exact after_sound hk (Activation.pushVariable_upheld h ha _ _ _ _)
  | pushBlock withContext => exact after_sound hk (Activation.pushClosure_upheld h ha hcode _ _ _)
  | pushConstant =>
    dsimp only
    split
    · rename_i v hv
      -- A literal of a code of the stock has no other values than those of the stock.
      have hv := h.stock.fits _ (h.stock.inside _ hcode _ (Array.mem_of_getElem? hv))
      exact after_sound hk (Activation.goOn_upheld h ha _ (hs.cons hv))
    · exact after_sound hk (Activation.goOn_upheld h ha _ (hs.cons trivial))
    · exact after_sound hk (Activation.failing_upheld h a _)
  | pushGlobal =>
    have ha' : Pending.Sound s (.sender { a with ip := a.ip + Opcode.pushGlobal.size }) :=
      ⟨ha.code, hs⟩
    refine after_sound (forall_mem_cons ha' hk)
      (readGlobal_upheld h hcode (fun name hl => ?_) (h.heap.receiver _))
    rw [Code.reads?, hop]
    simp only [hl]
  | pushSelf => exact after_sound hk (Activation.goOn_upheld h ha _ (hs.cons (h.heap.receiver _)))
  | pushNil => exact after_sound hk (Activation.goOn_upheld h ha _ (hs.cons trivial))
  | pushZero => exact after_sound hk (Activation.goOn_upheld h ha _ (hs.cons trivial))
  | pushOne => exact after_sound hk (Activation.goOn_upheld h ha _ (hs.cons trivial))
  | drop =>
    exact after_sound hk (Activation.withTop_upheld h ha fun v rest hv hr =>
      Activation.goOn_upheld h ha _ hr)
  | pop place =>
    exact after_sound hk (Activation.withTop_upheld h ha fun v rest hv hr =>
      Activation.popVariable_upheld h ha _ _ _ _ hv hr)
  | send toSuper =>
    refine sendInstruction_sound h ha hcode hk toSuper _ fun selector hl => ?_
    simp [Code.sends?, hop, hl]
  | returnLocal =>
    exact after_sound hk (Activation.withTop_upheld h ha fun v rest hv hr =>
      Activation.finish_upheld h a hv)
  | returnNonLocal =>
    exact after_sound hk (Activation.withTop_upheld h ha fun v rest hv hr =>
      Activation.returnNonLocal_upheld h a _ hv)
  | returnSelf => exact after_sound hk (Activation.finish_upheld h a (h.heap.receiver _))
  | step up =>
    exact after_sound hk (Activation.withTop_upheld h ha fun v rest hv hr =>
      Activation.step_upheld h ha up v hr _)
  | jump j wide => exact after_sound hk (Activation.jump_upheld h ha j wide _)
  | quickened q => exact after_sound hk (Activation.failing_upheld h a _)

theorem execute_sound (h : w.Sound s) (ha : a.Sound s) (hk : ∀ p ∈ k, p.Sound s) :
    (execute a w k).Sound s := by
  rw [execute]
  split
  · exact after_sound hk (Activation.failing_upheld h a _)
  · rename_i byte hbyte
    split
    · exact after_sound hk (Activation.failing_upheld h a _)
    · rename_i op hop
      -- A code with an instruction is not the empty one.
      have hcode : .block a.code ∈ s.written := by
        refine ha.code.resolve_left fun hd => ?_
        rw [hd] at hbyte
        cases hbyte
      exact instruction_sound h ha hcode hk (by rw [Tape.opcode?, hbyte]; exact hop)

/-! ### Any step -/

theorem resume_sound (h : w.Sound s) {top : Pending} (ht : top.Sound s) (hv : v.Within s.classes)
    (hk : ∀ p ∈ k, p.Sound s) : (resume top v w k).Sound s := by
  cases top with
  | sender a => exact ⟨h, ht.push hv, hk⟩
  | reporter a => exact ⟨h, ht.push hv, hk⟩
  | counting next limit body result => exact ⟨h, ht, hk⟩
  | cycling left body result => exact ⟨h, ht, hk⟩
  | sent => exact ⟨h, hv, hk⟩
  | called => exact ⟨h, hv, hk⟩

theorem settle_sound (h : w.Sound s) (ha : a.Sound s) {u : Unwind} (hu : u.Sound s)
    (hk : ∀ p ∈ k, p.Sound s) : (settle a u w k).Sound s := by
  unfold settle
  split
  · extract_lets w₁
    have h₁ : w₁.Sound s := h.count _
    exact ⟨h₁.note _, ha.restarted, hk⟩
  · extract_lets w₁ receiver
    have h₁ : w₁.Sound s := h.count _
    exact ⟨h₁, ⟨h₁.heap.receiver _, hu⟩, forall_mem_cons (p := .reporter a) ha hk⟩
  · exact after_sound hk (Activation.abandon_upheld h a hu)

theorem unwindInto_sound (h : w.Sound s) {top : Pending} (ht : top.Sound s) {u : Unwind}
    (hu : u.Sound s) (hk : ∀ p ∈ k, p.Sound s) : (unwindInto top u w k).Sound s := by
  cases top with
  | sender a => exact settle_sound h ht hu hk
  | reporter a => exact after_sound hk (Activation.abandon_upheld h a hu)
  | counting next limit body result => exact ⟨h, hu, hk⟩
  | cycling left body result => exact ⟨h, hu, hk⟩
  | sent => exact ⟨h, trivial, hk⟩
  | called =>
    unfold unwindInto
    dsimp only
    split
    -- What is reported is a text, which refers to nothing.
    · exact ⟨{ h with }, hu, hk⟩
    · exact ⟨h, trivial, hk⟩

theorem invoke_upheld (h : w.Sound s) {i : Invokable} (hi : i.Sound s) (ha : s.Covers arguments) :
    s.Upholds (invoke i arguments w) := by
  unfold invoke
  split
  · split
    · exact Builtin.apply_upheld h ha _
    · exact ⟨trivial, h⟩
  · split
    · exact World.enter_upheld h hi ha _
    · exact ⟨trivial, h⟩

theorem evaluate_upheld (h : w.Sound s) (b : BlockRef) (ha : s.Covers arguments) :
    s.Upholds (evaluate b arguments w) := by
  unfold evaluate
  dsimp only
  split
  · exact World.enter_upheld h (h.heap.closure b)
      (ha.cons (show Value.Within s.classes (.block b) from trivial)) _
  · exact ⟨trivial, h⟩

/-- A step keeps a machine to its stock, with all that call sites remember. -/
theorem step_sound {m : Machine} (h : m.Sound s) : m.step.Sound s := by
  obtain ⟨w, job, k⟩ := m
  obtain ⟨h, hj, hk⟩ := h
  unfold step
  dsimp only at h hj hk ⊢
  cases job with
  | execute a => exact execute_sound h hj hk
  | send selector arguments => exact ⟨h, send_sound h hj selector, hk⟩
  | invoke i arguments => exact after_sound hk (invoke_upheld h hj.1 hj.2)
  | evaluate b arguments => exact after_sound hk (evaluate_upheld h b hj)
  | count next limit body result =>
    dsimp only
    split
    · exact ⟨h, .cons (Number.reduce_within _) .nil, forall_mem_cons hj hk⟩
    · exact ⟨h, hj, hk⟩
  | cycle left body result =>
    cases left with
    | zero => exact ⟨h, hj, hk⟩
    | succ left => exact ⟨h, .nil, forall_mem_cons hj hk⟩
  | report receiver c =>
    have hn : (noteCondition c w).Sound s := by
      unfold noteCondition
      split
      · exact World.Sound.note (h.count _) _
      · exact h
    have hr := Handler.job_upheld hn hj.1 hj.2 hk
    exact ⟨hr.2.1, hr.1, hr.2.2⟩
  | answer v =>
    cases k with
    | nil => exact ⟨h, hj, hk⟩
    | cons top k =>
      exact resume_sound h (hk _ List.mem_cons_self) hj fun p hp => hk p (List.mem_cons_of_mem _ hp)
  | unwind u =>
    cases k with
    | nil => exact ⟨h, hj, hk⟩
    | cons top k =>
      exact unwindInto_sound h (hk _ List.mem_cons_self) hj fun p hp =>
        hk p (List.mem_cons_of_mem _ hp)
  | hang => exact ⟨h, trivial, hk⟩

end Machine

end Parley
