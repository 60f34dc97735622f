import Parley.Proofs.Progress
import Parley.Proofs.Slots

/-!
# What a step does to the ledger

A world keeps a *ledger* of activations: how many there were, how many are in progress, and of every
frame the number of its activation and how that ended. Of what a step does to it there is little to
tell, whatever the programs are and whatever the frames hold (`Machine.Goes`). It leaves the ledger
as it is, or starts an activation unless that would be one too many, or ends the innermost one. How
the activation ends depends on what it comes to (`Machine.Concludes`): a value of its own, or an
unwind of its own or of the message that it sent.

What instructions are specialized to changes only when an activation sends a message or reads a
global, and what it may become is told by `World.Quickens`.
-/

namespace Parley

variable {s : Stock} {w w' w₁ : World} {k : List Pending}

/-! ### Ledgers -/

/-- What nothing changes but hosts, the start and the end of activations, and the specializing of
    instructions. -/
structure Ledger where
  settings : Settings
  sites : Std.HashMap Location Site
  held : List Held
  /-- The activations in progress. -/
  depth : Nat
  /-- The activations so far. -/
  activations : Nat
  frames : Nat
  /-- The number of the activation of a frame, and how it ended. -/
  mark : FrameRef → Nat × Marker

namespace Ledger

variable (l : Ledger)

/-- One more activation, in a frame of its own. -/
def enter : Ledger :=
  { l with
    depth := l.depth + 1
    activations := l.activations + 1
    frames := l.frames + 1
    mark := Function.update l.mark l.frames (l.activations + 1, .onStack) }

/-- One activation less. How it ended is recorded once. -/
def leave (f : FrameRef) (exit : Marker) : Ledger :=
  { l with
    depth := l.depth - 1
    mark := fun g => if f = g ∧ g < l.frames then
      ((l.mark g).1, if (l.mark g).2 = .onStack then exit else (l.mark g).2) else l.mark g }

end Ledger

namespace Heap

variable (h : Heap) (f : FrameRef)

/-- The number of the activation of a frame, and how it ended. -/
def mark : Nat × Marker :=
  ((h.frame f).activation, (h.frame f).marker)

theorem mark_modify {u : Frame → Frame} (hu : ∀ k, (u k).activation = k.activation)
    (hm : ∀ k, (u k).marker = k.marker) :
    mark { h with frames := h.frames.modify f u } = h.mark := by
  funext g
  rw [mark, mark, frame_modify]
  split
  · rw [hu, hm]
  · rfl

theorem mark_setLocal (slot : Nat) (v : Value) : (h.setLocal f slot v).mark = h.mark :=
  h.mark_modify f (fun _ => rfl) fun _ => rfl

theorem mark_setArgument (slot : Nat) (v : Value) : (h.setArgument f slot v).mark = h.mark :=
  h.mark_modify f (fun _ => rfl) fun _ => rfl

theorem mark_newFrame (activation : Nat) (arguments : List Value) (locals : Nat)
    (context : Option FrameRef) : (h.newFrame activation arguments locals context).2.mark =
      Function.update h.mark h.frames.size (activation, .onStack) := by
  funext g
  rw [mark]
  rcases Nat.lt_trichotomy g h.frames.size with hg | rfl | hg
  · rw [h.frame_newFrame_of_lt _ _ _ _ hg, Function.update_of_ne hg.ne, mark]
  · rw [h.frame_newFrame_self, Function.update_self]
  -- Neither of them has got such a frame.
  · rw [Function.update_of_ne hg.ne', mark]
    simp [frame, newFrame, Array.getD_eq_getD_getElem?, Array.getElem?_push, hg.ne', hg.le]

theorem mark_leave (exit : Marker) : (h.leave f exit).mark = fun g =>
    if f = g ∧ g < h.frames.size then
      ((h.mark g).1, if (h.mark g).2 = .onStack then exit else (h.mark g).2) else h.mark g := by
  funext g
  rw [mark, frame_leave]
  split <;> rfl

end Heap

/-- The ledger of a world. -/
def World.ledger (w : World) : Ledger :=
  ⟨w.settings, w.sites, w.held, w.thread.depth, w.thread.activations, w.heap.frames.size,
    w.heap.mark⟩

/-- The ledger is among the premises. -/
def Premises.ledger (p : Premises) : Ledger :=
  ⟨p.settings, p.sites, p.held, p.depth, p.stage.activations, p.stage.heap.frames.size,
    p.stage.heap.mark⟩

namespace World

theorem ledger_of_premises (h : w'.premises = w.premises) : w'.ledger = w.ledger :=
  congrArg Premises.ledger h

theorem Quickens.ledger {code : Code} {ip : Nat} {r : Job × World} (h : w.Quickens code ip r) :
    r.2.ledger = { w.ledger with sites := r.2.sites } :=
  congrArg Premises.ledger h.premises

theorem setHeap_ledger (w : World) {heap : Heap} (hsize : heap.frames.size = w.heap.frames.size)
    (hmark : heap.mark = w.heap.mark) : ledger { w with heap } = w.ledger := by
  rw [ledger, ledger]
  dsimp only
  rw [hsize, hmark]

theorem mark_of_ledger (h : w'.ledger = w.ledger) (f : FrameRef) :
    w'.heap.mark f = w.heap.mark f :=
  congrArg (fun l => l.mark f) h

/-- An activation starts, unless there are too many. -/
theorem enter_ledger (code : Code) (arguments : List Value) (context : Option FrameRef)
    (w : World) :
    (w.thread.depth < w.settings.maxDepth ∧ ∃ w',
      w.enter code arguments context = (.execute (.start code w.heap.frames.size), w') ∧
        w'.ledger = w.ledger.enter) ∨
    (w.settings.maxDepth ≤ w.thread.depth ∧ w.enter code arguments context =
      (.fail (.stackOverflow w.settings.maxDepth code.signature), w)) := by
  rw [World.enter]
  split
  · rename_i hlt
    refine .inl ⟨hlt, _, rfl, ?_⟩
    have hmark := w.heap.mark_newFrame (w.thread.activations + 1) arguments
      code.program.locals.size context
    have hsize := w.heap.newFrame_size (w.thread.activations + 1) arguments
      code.program.locals.size context
    rw [ledger, Ledger.enter]
    exact congr (congrArg (Ledger.mk _ _ _ _ _) hsize) hmark
  · rename_i hge
    exact .inr ⟨Nat.le_of_not_lt hge, rfl⟩

end World

/-! ### How activations end -/

namespace Activation

variable (a : Activation)

theorem leave_ledger (marker : Marker) (job : Job) (w : World) :
    (a.leave marker job w).2.ledger = w.ledger.leave a.frame marker := by
  have hmark := (a.countLoops w).heap.mark_leave a.frame marker
  have hsize : ((a.countLoops w).heap.leave a.frame marker).frames.size =
      (a.countLoops w).heap.frames.size := Array.size_modify
  have hloops := World.ledger_of_premises (a.countLoops_premises w)
  rw [← hloops, leave, World.ledger, Ledger.leave]
  exact congr (congrArg (Ledger.mk _ _ _ _ _) hsize) hmark

theorem abandon_ledger (u : Unwind) (w : World) : (a.abandon u w).2.ledger =
    w.ledger.leave a.frame (u.ending (w.heap.frame a.frame).activation).1 := by
  cases u with
  | nonLocal target v =>
    rw [abandon, Unwind.ending]
    split <;> exact a.leave_ledger _ _ w
  | _ => exact a.leave_ledger _ _ w

/-- The value that the next instruction of an activation returns, if it is its last. -/
def value? (w : World) : Option Value :=
  match a.code.program.tape.opcode? a.ip with
  | some .halt => some (a.stack.headD .nil)
  | some .returnLocal => a.stack.head?
  | some .returnSelf => some (w.heap.frame a.frame).receiver
  | _ => none

/-- How the next instruction of an activation unwinds. -/
inductive Throws (w : World) : Unwind → Prop
  | fails {f : Fault} : f.isMechanical = false → Throws w (.failed f)
  /-- A return to the frame so many levels out, whose activation is in progress. -/
  | returns {home : FrameRef} (v : Value) :
      a.code.program.tape.opcode? a.ip = some .returnNonLocal →
      w.heap.enclosing? a.frame (a.code.program.tape.byteAt (a.ip + 1)).toNat = some home →
      (w.heap.frame home).marker = .onStack →
        Throws w (.nonLocal (w.heap.frame home).activation v)
  /-- It is in progress no longer. -/
  | escapes {home : FrameRef} {b : BlockRef} (v : Value) :
      a.code.program.tape.opcode? a.ip = some .returnNonLocal →
      w.heap.enclosing? a.frame (a.code.program.tape.byteAt (a.ip + 1)).toNat = some home →
      (w.heap.frame home).marker ≠ .onStack → (w.heap.frame a.frame).receiver = .block b →
        Throws w (.escaped b v)

/-- What executing an instruction comes to for an activation that does not have to wait. -/
inductive Comes (w : World) : Job × World → Prop
  | goesOn {b : Activation} {w' : World} : b.code = a.code → b.frame = a.frame →
      w'.ledger = w.ledger → Comes w (.execute b, w')
  | returns {v : Value} {w' : World} : a.value? w = some v →
      w'.ledger = w.ledger.leave a.frame .returnedNormally → Comes w (.answer v, w')
  | throws {u : Unwind} {job : Job} {w' : World} : a.Throws w u →
      job = (u.ending (w.heap.frame a.frame).activation).2 →
      w'.ledger = w.ledger.leave a.frame (u.ending (w.heap.frame a.frame).activation).1 →
        Comes w (job, w')

variable {a}

theorem comes_goOn (ip : Nat) (stack : List Value) (h : w₁.ledger = w.ledger) :
    a.Comes w (a.goOn ip stack w₁) :=
  .goesOn rfl rfl h

/-- What happens before leaves the ledger as it is. -/
theorem comes_abandon {u : Unwind} (hu : a.Throws w u) (h : w₁.ledger = w.ledger) :
    a.Comes w (a.abandon u w₁) := by
  have hnumber : (w₁.heap.frame a.frame).activation = (w.heap.frame a.frame).activation :=
    congrArg Prod.fst (World.mark_of_ledger h a.frame)
  have hjob := a.abandon_fst u w₁
  have hledger := a.abandon_ledger u w₁
  rw [hnumber] at hjob hledger
  rw [h] at hledger
  exact .throws hu hjob hledger

theorem comes_failing {f : Fault} (hf : f.isMechanical = false) (h : w₁.ledger = w.ledger) :
    a.Comes w (a.failing f w₁) :=
  comes_abandon (.fails hf) h

theorem comes_finish {v : Value} (hv : a.value? w = some v) : a.Comes w (a.finish v w) :=
  .returns hv (a.leave_ledger .returnedNormally (.answer v) w)

theorem comes_underflow : a.Comes w (a.underflow w) :=
  comes_failing rfl rfl

theorem comes_withTop {go : Value → List Value → World → Job × World}
    (h : ∀ v rest, a.stack = v :: rest → a.Comes w (go v rest w)) :
    a.Comes w (a.withTop w go) := by
  rw [withTop]
  split
  · rename_i v rest hs
    exact h v rest hs
  · exact comes_underflow

theorem pushVariable_comes (p : Place) (slot level : UInt8) (next : Nat) :
    a.Comes w (a.pushVariable p slot level next w) := by
  rw [pushVariable]
  split
  · exact comes_failing rfl rfl
  · rename_i f _
    cases p with
    | temporary | argument =>
      dsimp only
      split
      · exact comes_goOn _ _ rfl
      · exact comes_failing rfl rfl
    | field =>
      dsimp only
      split
      · rename_i o _
        have hfield := w.setHeap_premises (w.heap.readField_shell w.classes o slot.toNat)
        generalize w.heap.readField w.classes o slot.toNat = r at hfield ⊢
        obtain ⟨_ | v, heap⟩ := r
        · exact comes_failing rfl (World.ledger_of_premises hfield)
        · exact comes_goOn _ _ (World.ledger_of_premises hfield)
      · exact comes_failing rfl rfl

theorem popVariable_comes (p : Place) (slot level : UInt8) (next : Nat) (v : Value)
    (rest : List Value) : a.Comes w (a.popVariable p slot level next v rest w) := by
  rw [popVariable]
  split
  · exact comes_failing rfl rfl
  · rename_i f _
    cases p with
    | temporary =>
      dsimp only
      split
      · exact comes_goOn _ _ (w.setHeap_ledger Array.size_modify (w.heap.mark_setLocal _ _ _))
      · exact comes_failing rfl rfl
    | argument =>
      dsimp only
      split
      · exact comes_goOn _ _ (w.setHeap_ledger Array.size_modify (w.heap.mark_setArgument _ _ _))
      · exact comes_failing rfl rfl
    | field =>
      dsimp only
      split
      · rename_i o _
        have hfield := w.setHeap_premises (w.heap.writeField_shell w.classes o slot.toNat v)
        generalize w.heap.writeField w.classes o slot.toNat v = r at hfield ⊢
        obtain ⟨_ | _, heap⟩ := r
        · exact comes_failing rfl (World.ledger_of_premises hfield)
        · exact comes_goOn _ _ (World.ledger_of_premises hfield)
      · exact comes_failing rfl rfl

theorem pushClosure_comes (withContext : Bool) (index : UInt8) (next : Nat) :
    a.Comes w (a.pushClosure withContext index next w) := by
  rw [pushClosure]
  split
  · exact comes_goOn _ _ rfl
  · exact comes_failing rfl rfl

theorem returnNonLocal_comes (hop : a.code.program.tape.opcode? a.ip = some .returnNonLocal)
    (v : Value) :
    a.Comes w (a.returnNonLocal (a.code.program.tape.byteAt (a.ip + 1)) v w) := by
  rw [returnNonLocal]
  split
  · exact comes_failing rfl rfl
  · rename_i home hhome
    dsimp only
    split
    · rename_i hm
      exact comes_abandon (.returns v hop hhome hm) rfl
    · rename_i hm
      split
      · rename_i b hb
        exact comes_abandon (.escapes v hop hhome hm hb)
          (World.ledger_of_premises (w.note_premises _))
      · exact comes_failing rfl rfl

theorem step_comes (up : Bool) (v : Value) (rest : List Value) (next : Nat) :
    a.Comes w (a.step up v rest next w) := by
  rw [step]
  split
  · exact comes_goOn _ _ (World.ledger_of_premises (Numbers.notePromotion_premises _ _ _ w))
  · exact comes_failing rfl rfl

theorem jump_comes (j : Jump) (wide : Bool) (next : Nat) : a.Comes w (a.jump j wide next w) := by
  unfold jump
  split
  · exact comes_goOn _ _ rfl
  · exact .goesOn rfl rfl rfl
  · split
    · split <;> exact comes_goOn _ _ rfl
    · exact comes_failing rfl rfl
    · exact comes_underflow
  · split
    · split
      · exact comes_goOn _ _ rfl
      · exact comes_goOn _ _ rfl
      · exact comes_failing rfl rfl
    · exact comes_underflow

end Activation

/-! ### Steps -/

/-- What an activation comes to. -/
inductive Conclusion where
  | value (v : Value)
  | unwinds (u : Unwind)

/-- How an activation of a number ends by what it comes to, and what is left to do. -/
def Conclusion.ending (c : Conclusion) (activation : Nat) : Marker × Job :=
  match c with
  | .value v => (.returnedNormally, .answer v)
  | .unwinds u => u.ending activation

/-- Whether a job is to tell what is pending what came of another one. -/
def Job.isOutcome : Job → Bool
  | .answer _ | .unwind _ => true
  | _ => false

namespace Machine

/-- What the innermost activation in progress comes to. What is pending then is the last
    argument. -/
inductive Concludes : Machine → Activation → Conclusion → List Pending → Prop
  | returns {w : World} {a : Activation} {v : Value} (k : List Pending) :
      a.value? w = some v → Concludes ⟨w, .execute a, k⟩ a (.value v) k
  | throws {w : World} {a : Activation} {u : Unwind} (k : List Pending) :
      a.Throws w u → Concludes ⟨w, .execute a, k⟩ a (.unwinds u) k
  /-- The message that it sent unwinds, and that is not for it to settle. -/
  | passes (w : World) {u : Unwind} (a : Activation) (k : List Pending) :
      u ≠ .restart → (∀ b v, u ≠ .escaped b v) →
        Concludes ⟨w, .unwind u, .sender a :: k⟩ a (.unwinds u) k
  /-- Its report of an escaped block unwinds. -/
  | reports (w : World) (u : Unwind) (a : Activation) (k : List Pending) :
      Concludes ⟨w, .unwind u, .reporter a :: k⟩ a (.unwinds u) k

/-- What a step does to the ledger of a machine, and to what is pending. -/
inductive Goes : Machine → Machine → Prop
  /-- No activation starts or ends. Only an outcome takes something off what is pending. -/
  | stays {w w' : World} {job job' : Job} {k k' : List Pending} : w'.ledger = w.ledger →
      Machine.frames ⟨w', job', k'⟩ = Machine.frames ⟨w, job, k⟩ →
      (job'.isMechanical → job' = job) → k <:+ k' ∨ job.isOutcome ∧ k.tail <:+ k' →
        Goes ⟨w, job, k⟩ ⟨w', job', k'⟩
  /-- An activation sends a message or reads a global. -/
  | asks {w w' : World} {a b : Activation} {job : Job} {op : Opcode} (k : List Pending) :
      a.code.program.tape.opcode? a.ip = some op → b.frame = a.frame →
      (∀ c, job ≠ .execute c) → w.Quickens a.code a.ip (job, w') →
        Goes ⟨w, .execute a, k⟩ ⟨w', job, .sender b :: k⟩
  | starts {w w' : World} {job : Job} {code : Code} {arguments : List Value}
      {context : Option FrameRef} (k : List Pending) : w.Enters job code arguments context →
      w.thread.depth < w.settings.maxDepth → w'.ledger = w.ledger.enter →
        Goes ⟨w, job, k⟩ ⟨w', .execute (.start code w.heap.frames.size), k⟩
  /-- There are too many activations for another one. -/
  | refuses {w : World} {job : Job} {code : Code} {arguments : List Value}
      {context : Option FrameRef} (k : List Pending) : w.Enters job code arguments context →
      w.settings.maxDepth ≤ w.thread.depth →
        Goes ⟨w, job, k⟩ ⟨w, .fail (.stackOverflow w.settings.maxDepth code.signature), k⟩
  | ends {m : Machine} {a : Activation} {c : Conclusion} {job : Job} {w' : World}
      {k : List Pending} : m.Concludes a c k →
      job = (c.ending (m.world.heap.frame a.frame).activation).2 →
      w'.ledger = m.world.ledger.leave a.frame
        (c.ending (m.world.heap.frame a.frame).activation).1 → Goes m ⟨w', job, k⟩

theorem goes_of_comes {a : Activation} {r : Job × World} (h : a.Comes w r) :
    Goes ⟨w, .execute a, k⟩ (after k r) := by
  cases h with
  | goesOn _ hframe hledger =>
    refine .stays hledger ?_ nofun (.inl List.suffix_rfl)
    rw [frames, Job.frames, hframe]
    rfl
  | returns hv hledger => exact .ends (.returns k hv) rfl hledger
  | throws hu hjob hledger => exact .ends (.throws k hu) hjob hledger

/-- Something is done that is neither to execute nor an outcome, and touches no premises. -/
theorem goes_of_plain {job job' : Job} {k' : List Pending} (hjob : job.frames = [])
    (hjob' : job'.isPlain) (hw : w'.premises = w.premises)
    (hk : ∃ new, k' = new ++ k ∧ Pending.frames new = []) : Goes ⟨w, job, k⟩ ⟨w', job', k'⟩ := by
  obtain ⟨new, rfl, hnew⟩ := hk
  refine .stays (World.ledger_of_premises hw) ?_ (fun hm => ?_) (.inl (List.suffix_append new k))
  · rw [frames, frames, hjob, Pending.frames_append, hnew,
      Job.frames_of_ne_execute (Job.ne_execute (Job.outward (Job.outer hjob')))]
    rfl
  · rw [Job.isMechanical_of_plain hjob'] at hm
    cases hm

theorem sendInstruction_goes {a : Activation} (hw : w.Sound s) (hcode : .block a.code ∈ s.written)
    {toSuper : Bool} (hop : a.code.program.tape.opcode? a.ip = some (.send toSuper)) :
    Goes ⟨w, .execute a, k⟩ (sendInstruction a toSuper
      (a.code.program.tape.byteAt (a.ip + 1)) (a.ip + (Opcode.send toSuper).size) w k) := by
  rw [sendInstruction]
  split
  · rename_i selector hl
    have hsend : a.code.sends? a.ip = some (toSuper, selector) := by
      simp [Code.sends?, hop, hl]
    extract_lets taken arguments w₁ k₁ l inProgress
    have h₁ : w₁.Sound s := hw.count _
    have hw₁ : w₁.premises = w.premises := rfl
    split
    · exact goes_of_comes Activation.comes_underflow
    · cases toSuper with
      | false =>
        exact .asks k hop rfl (Job.ne_execute (sendFrom_isOutward l selector arguments w₁))
          ((sendFrom_quickens hsend arguments h₁ hcode).after hw₁)
      | true =>
        rw [if_pos rfl]
        split
        · exact .asks k hop rfl (Job.ne_execute (superJob_isOutward _ _ _))
            (World.Quickens.of_premises (superJob_isMechanical _ _ _) hw₁)
        · exact .asks k hop rfl (Job.ne_execute (bindSuper_isOutward l a.code selector _ _ w₁))
            ((bindSuper_quickens h₁ hcode hsend arguments inProgress).after hw₁)
  · exact goes_of_comes (Activation.comes_failing rfl rfl)

theorem instruction_goes {a : Activation} (hw : w.Sound s) (hcode : .block a.code ∈ s.written)
    {op : Opcode} (hop : a.code.program.tape.opcode? a.ip = some op) :
    Goes ⟨w, .execute a, k⟩ (instruction a op w k) := by
  unfold instruction
  dsimp only
  cases op with
  | halt => exact goes_of_comes (Activation.comes_finish (by rw [Activation.value?, hop]))
  | dup =>
    exact goes_of_comes (Activation.comes_withTop fun _ _ _ => Activation.comes_goOn _ _ rfl)
  | dupSecond =>
    dsimp only
    split
    · exact goes_of_comes (Activation.comes_goOn _ _ rfl)
    · exact goes_of_comes Activation.comes_underflow
  | push p => exact goes_of_comes (Activation.pushVariable_comes _ _ _ _)
  | pushBlock withContext => exact goes_of_comes (Activation.pushClosure_comes _ _ _)
  | pushConstant =>
    dsimp only
    split
    · exact goes_of_comes (Activation.comes_goOn _ _ rfl)
    · exact goes_of_comes (Activation.comes_goOn _ _ rfl)
    · exact goes_of_comes (Activation.comes_failing rfl rfl)
  | pushGlobal =>
    exact .asks k hop rfl (readGlobal_ne_execute _ _ _ w) (readGlobal_quickens hw hcode hop _)
  | pushSelf | pushNil | pushZero | pushOne =>
    exact goes_of_comes (Activation.comes_goOn _ _ rfl)
  | drop =>
    exact goes_of_comes (Activation.comes_withTop fun _ _ _ => Activation.comes_goOn _ _ rfl)
  | pop p =>
    exact goes_of_comes
      (Activation.comes_withTop fun _ _ _ => Activation.popVariable_comes _ _ _ _ _ _)
  | send toSuper => exact sendInstruction_goes hw hcode hop
  | returnLocal =>
    exact goes_of_comes (Activation.comes_withTop fun _ _ hs =>
      Activation.comes_finish (by rw [Activation.value?, hop, hs]; rfl))
  | returnNonLocal =>
    exact goes_of_comes
      (Activation.comes_withTop fun _ _ _ => Activation.returnNonLocal_comes hop _)
  | returnSelf => exact goes_of_comes (Activation.comes_finish (by rw [Activation.value?, hop]))
  | step up =>
    exact goes_of_comes (Activation.comes_withTop fun _ _ _ => Activation.step_comes _ _ _ _)
  | jump j wide => exact goes_of_comes (Activation.jump_comes _ _ _)
  | quickened q => exact goes_of_comes (Activation.comes_failing rfl rfl)

theorem execute_goes {a : Activation} (hw : w.Sound s) (ha : a.Sound s) :
    Goes ⟨w, .execute a, k⟩ (execute a w k) := by
  rw [execute]
  split
  · exact goes_of_comes (Activation.comes_failing rfl rfl)
  · rename_i byte hbyte
    split
    · exact goes_of_comes (Activation.comes_failing rfl rfl)
    · rename_i op ho
      -- A code with an instruction is not the empty one.
      have hcode : .block a.code ∈ s.written := by
        refine ha.code.resolve_left fun hd => ?_
        rw [hd] at hbyte
        cases hbyte
      exact instruction_goes hw hcode (by rw [Tape.opcode?, hbyte]; exact ho)

theorem enter_goes {job : Job} {code : Code} {arguments : List Value} {context : Option FrameRef}
    (h : w.Enters job code arguments context) :
    Goes ⟨w, job, k⟩ (after k (w.enter code arguments context)) := by
  rcases w.enter_ledger code arguments context with ⟨hlt, w', hr, hledger⟩ | ⟨hge, hr⟩
  · rw [hr]
    exact .starts k h hlt hledger
  · rw [hr]
    exact .refuses k h hge

theorem resume_goes (top : Pending) (v : Value) (w : World) (k : List Pending) :
    Goes ⟨w, .answer v, top :: k⟩ (resume top v w k) := by
  cases top <;> exact .stays rfl rfl nofun (.inr ⟨rfl, List.suffix_rfl⟩)

theorem abandon_goes {a : Activation} {u : Unwind} {m : Machine}
    (h : m.Concludes a (.unwinds u) k) : Goes m (after k (a.abandon u m.world)) :=
  .ends h (a.abandon_fst u m.world) (a.abandon_ledger u m.world)

/-- The fault that an unwind is for a host is mechanical only if the unwind is such a fault. -/
theorem fault_isMechanical {u : Unwind} (h : (u.fault w).isMechanical) :
    u = .failed (u.fault w) := by
  cases u with
  | failed f => rfl
  | _ => cases h

theorem unwindInto_goes (top : Pending) (u : Unwind) (w : World) (k : List Pending) :
    Goes ⟨w, .unwind u, top :: k⟩ (unwindInto top u w k) := by
  have hk : top :: k <:+ k ∨ (Job.unwind u).isOutcome ∧ (top :: k).tail <:+ k :=
    .inr ⟨rfl, List.suffix_rfl⟩
  cases top with
  | sender a =>
    cases u with
    | restart =>
      exact .stays (World.ledger_of_premises (World.note_premises _ _)) rfl (by rintro ⟨⟩) hk
    | escaped b v => exact .stays rfl rfl (by rintro ⟨⟩) (.inr ⟨rfl, List.suffix_cons _ _⟩)
    | nonLocal activation v => exact abandon_goes (.passes w a k (by simp) (by simp))
    | failed f => exact abandon_goes (.passes w a k (by simp) (by simp))
  | reporter a => exact abandon_goes (.reports w u a k)
  | counting next limit body result => exact .stays rfl rfl (fun _ => rfl) hk
  | cycling left body result => exact .stays rfl rfl (fun _ => rfl) hk
  | sent =>
    refine .stays rfl rfl (fun hm => ?_) hk
    exact congrArg Job.unwind (fault_isMechanical hm).symm
  | called =>
    simp only [unwindInto]
    split
    · exact .stays rfl rfl (fun _ => rfl) hk
    · exact .stays rfl rfl (by rintro ⟨⟩) hk

theorem invoke_goes (i : Invokable) (arguments : List Value) (w : World) (k : List Pending) :
    Goes ⟨w, .invoke i arguments, k⟩ (after k (invoke i arguments w)) := by
  cases i with
  | primitive p =>
    rw [invoke]
    split
    · have hrests := p.builtin.apply_rests arguments w
      exact goes_of_plain rfl (Job.plain hrests.job) hrests.premises ⟨[], rfl, rfl⟩
    · exact goes_of_plain rfl rfl rfl ⟨[], rfl, rfl⟩
  | method c =>
    rw [invoke]
    split
    · rename_i hlength
      exact enter_goes (.method hlength)
    · exact goes_of_plain rfl rfl rfl ⟨[], rfl, rfl⟩

theorem evaluate_goes (b : BlockRef) (arguments : List Value) (w : World) (k : List Pending) :
    Goes ⟨w, .evaluate b arguments, k⟩ (after k (evaluate b arguments w)) := by
  unfold evaluate
  dsimp only
  split
  · rename_i hcount
    exact enter_goes (.block hcount)
  · exact goes_of_plain rfl rfl rfl ⟨[], rfl, rfl⟩

theorem report_goes (receiver : Value) (c : Condition) (w : World) (k : List Pending) :
    Goes ⟨w, .report receiver c, k⟩ (step ⟨w, .report receiver c, k⟩) := by
  have hn : (noteCondition c w).premises = w.premises := by
    cases c with
    | notUnderstood selector arguments => exact World.note_premises _ _
    | _ => rfl
  have hreacts := Handler.job_reacts receiver c (noteCondition c w) k
  refine goes_of_plain rfl hreacts.job (hreacts.premises.trans hn) ?_
  rcases hreacts.pending with hk | hk | hk
  · exact ⟨[], hk, rfl⟩
  · exact ⟨[.sent], hk, rfl⟩
  · exact ⟨[.called], hk, rfl⟩

/-- What a step does to the ledger, in whatever state a machine is that keeps to its stock. -/
theorem step_goes {m : Machine} (h : m.Sound s) : Goes m m.step := by
  obtain ⟨w, job, k⟩ := m
  have hw : w.Sound s := h.world
  cases job with
  | execute a => exact execute_goes hw h.job
  | send selector arguments =>
    refine goes_of_plain rfl ?_ rfl ⟨[], rfl, rfl⟩
    rw [send]
    split <;> rfl
  | invoke i arguments => exact invoke_goes i arguments w k
  | evaluate b arguments => exact evaluate_goes b arguments w k
  | count next limit body result =>
    rw [step]
    split
    · exact goes_of_plain rfl rfl rfl ⟨[.counting _ _ _ _], rfl, rfl⟩
    · exact goes_of_plain rfl rfl rfl ⟨[], rfl, rfl⟩
  | cycle left body result =>
    cases left with
    | zero => exact goes_of_plain rfl rfl rfl ⟨[], rfl, rfl⟩
    | succ left => exact goes_of_plain rfl rfl rfl ⟨[.cycling _ _ _], rfl, rfl⟩
  | report receiver c => exact report_goes receiver c w k
  | answer v =>
    cases k with
    | nil => exact .stays rfl rfl (by rintro ⟨⟩) (.inl List.suffix_rfl)
    | cons top k => exact resume_goes top v w k
  | unwind u =>
    cases k with
    | nil => exact .stays rfl rfl (fun _ => rfl) (.inl List.suffix_rfl)
    | cons top k => exact unwindInto_goes top u w k
  | hang => exact .stays rfl rfl (by rintro ⟨⟩) (.inl List.suffix_rfl)

end Machine

end Parley
