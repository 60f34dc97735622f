import Parley.Proofs.Balance
import Parley.Proofs.Caches
import Parley.Proofs.Compiled

/-!
# What a step does to activations

Of a step only this matters to the activations of a machine: which of them go on, wait, are left or
abandoned, and what becomes of the stage (`Machine.Moves`). Whatever is to hold of all of them is
shown for these moves, and not for each instruction again.

An instruction *finds* what it addresses if there are as many frames around as it says, and the slot
is one of the frame that it comes to (`Opcode.Finds`). An activation that finds what it addresses
fails by no lexical fault (`Activation.Does`).
-/

namespace Parley

/-! ### The stage -/

namespace Stage

variable (s : Stage)

/-- The stage when the activation of a frame has ended. -/
def leave (f : FrameRef) (exit : Marker) : Stage :=
  { s with heap := s.heap.leave f exit }

/-- The stage with the frame of a new activation. -/
def enter (code : Code) (arguments : List Value) (context : Option FrameRef) : Stage :=
  { s with
    heap := (s.heap.newFrame (s.activations + 1) arguments code.program.locals.size context).2
    activations := s.activations + 1 }

/-- The stage with one more closure. -/
def close (c : Closure) : Stage :=
  { s with heap := (s.heap.newClosure c).2 }

/-- The stage when a local was written. -/
def setLocal (f : FrameRef) (slot : Nat) (v : Value) : Stage :=
  { s with heap := s.heap.setLocal f slot v }

/-- The stage when an argument was written. -/
def setArgument (f : FrameRef) (slot : Nat) (v : Value) : Stage :=
  { s with heap := s.heap.setArgument f slot v }

end Stage

/-- Whether a job is to call a method or a primitive. -/
def Job.isInvoke : Job → Bool
  | .invoke _ _ => true
  | _ => false

/-- Whether a job calls no method but one that is installed somewhere. -/
def Job.Listed (t : ClassTable) (job : Job) : Prop :=
  ∀ c arguments, job = .invoke (.method c) arguments → ∃ k selector, t.own? k selector =
    some (.method c)

/-- What an instruction addresses is there: enough frames around the one of the activation, as many
    levels out the frame of the code that is as many levels around, and in that frame the slot. A
    return from a method is by a block, from the outermost frame. -/
def Opcode.Finds (h : Heap) (ran : FrameRef → Code) (f : FrameRef) (op : Opcode)
    (first second : UInt8) : Prop :=
  match op with
  | .push .temporary | .pop .temporary => ∃ g, h.enclosing? f second.toNat = some g ∧
      (ran g).Within second.toNat (ran f) ∧ first.toNat < (ran g).program.locals.size ∧
        first.toNat < (h.frame g).locals.size
  | .push .argument => ∃ g, h.enclosing? f second.toNat = some g ∧
      (ran g).Within second.toNat (ran f) ∧ first.toNat < (ran g).program.arguments.size ∧
        first.toNat < (h.frame g).arguments.size
  | .pop .argument => ∃ g, h.enclosing? f second.toNat = some g ∧
      (ran g).Within second.toNat (ran f) ∧ first.toNat < (ran g).program.arguments.size ∧
        first.toNat < (h.frame g).arguments.size ∧ first ≠ 0
  | .push .field | .pop .field => ∃ g, h.enclosing? f second.toNat = some g
  | .returnNonLocal => h.enclosing? f first.toNat = some (h.home f) ∧ h.home f ≠ f ∧
      (ran (h.home f)).Within first.toNat (ran f) ∧
        ∃ b, (h.frame f).receiver = .block b ∧ (h.closure b).code = ran f
  | _ => True

/-! ### Pending things -/

namespace Pending

/-- The activation that waits. -/
def activation? : Pending → Option Activation
  | .sender a | .reporter a => some a
  | _ => none

/-- Whether a loop of the library waits. -/
def isLoop : Pending → Bool
  | .counting _ _ _ _ | .cycling _ _ _ => true
  | _ => false

/-- At most one thing that is no activation is put on top or taken off. -/
inductive Shifts (standard : Bool) : List Pending → List Pending → Prop
  | none (k : List Pending) : Shifts standard k k
  /-- The standard handler waits for nothing, so that it is a loop. -/
  | push {p : Pending} (k : List Pending) :
      p.activation? = Option.none → (standard → p.isLoop) → Shifts standard k (p :: k)
  | pop {p : Pending} (k : List Pending) : p.activation? = Option.none → Shifts standard (p :: k) k

end Pending

/-- How an unwind ends an activation of a number, and what is left to do. A return that is addressed
    to the activation is its value. -/
def Unwind.ending (u : Unwind) (activation : Nat) : Marker × Job :=
  match u with
  | .nonLocal target v =>
    if target = activation then (.returnedNormally, .answer v) else (.unwound, .unwind u)
  | u => (.aborted, .unwind u)

theorem Unwind.ending_job (u : Unwind) (activation : Nat) :
    (∃ v, (u.ending activation).2 = .answer v) ∨ (u.ending activation).2 = .unwind u := by
  unfold ending
  split
  · split
    · exact .inl ⟨_, rfl⟩
    · exact .inr rfl
  · exact .inr rfl

theorem Unwind.ending_marker (u : Unwind) (activation : Nat) :
    (u.ending activation).1 ≠ .onStack := by
  unfold ending
  split
  · split <;> nofun
  · nofun

/-- A job that ends an activation by an unwind fails only if the unwind does. -/
theorem Unwind.ending_failed {u : Unwind} {activation : Nat} {f : Fault}
    (h : (u.ending activation).2 = .fail f) : u = .failed f := by
  rcases u.ending_job activation with ⟨v, hv⟩ | hu
  · cases hv.symm.trans h
  · exact Job.unwind.inj (hu.symm.trans h)

theorem Unwind.ending_nonLocal {u : Unwind} {activation target : Nat} {v : Value}
    (h : (u.ending activation).2 = .unwind (.nonLocal target v)) :
    u = .nonLocal target v ∧ target ≠ activation := by
  rcases u.ending_job activation with ⟨v, hv⟩ | hu
  · cases hv.symm.trans h
  · obtain rfl := Job.unwind.inj (hu.symm.trans h)
    refine ⟨rfl, fun he => ?_⟩
    rw [ending, if_pos he] at h
    cases h

/-! ### What an activation does -/

namespace Activation

/-- What an instruction does to the stage, if its activation goes on. -/
inductive Updates (a : Activation) (s : Stage) : Stage → Prop
  | nothing : Updates a s s
  | setLocal (f : FrameRef) (slot : Nat) (v : Value) : Updates a s (s.setLocal f slot v)
  /-- Not the receiver. -/
  | setArgument {f : FrameRef} {slot level : Nat} (v : Value) :
      a.code.program.tape.opcode? a.ip = some (.pop .argument) →
      s.heap.enclosing? a.frame level = some f → slot ≠ 0 → Updates a s (s.setArgument f slot v)
  | close {withContext : Bool} {c : Code} :
      a.code.program.tape.opcode? a.ip = some (.pushBlock withContext) →
      a.code.program.literal? (a.code.program.tape.byteAt (a.ip + 1)) = some (.block c) →
        Updates a s (s.close ⟨c, if withContext then some a.frame else none⟩)

/-- How an activation ends without a value. -/
inductive Raises (a : Activation) (w : World) : Unwind → Prop
  | failed {f : Fault} : f.isLexical = false → f.isUnwinding = false → Raises a w (.failed f)
  | nonLocal (v : Value) : a.code.program.tape.opcode? a.ip = some .returnNonLocal →
      (w.heap.frame (w.heap.home a.frame)).marker = .onStack →
        Raises a w (.nonLocal (w.heap.frame (w.heap.home a.frame)).activation v)
  | escaped {b : BlockRef} (v : Value) :
      a.code.program.tape.opcode? a.ip = some .returnNonLocal →
      (w.heap.frame (w.heap.home a.frame)).marker ≠ .onStack →
      (w.heap.frame a.frame).receiver = .block b → Raises a w (.escaped b v)

/-- What executing an instruction comes to for an activation that does not have to wait. -/
inductive Does (a : Activation) (w : World) : Job × World → Prop
  | goesOn {b : Activation} {w' : World} : b.code = a.code → b.frame = a.frame →
      a.Updates w.stage w'.stage → Does a w (.execute b, w')
  | ends (v : Value) {w' : World} :
      w'.stage = w.stage.leave a.frame .returnedNormally → Does a w (.answer v, w')
  | raises {u : Unwind} {job : Job} {w' : World} : a.Raises w u →
      job = (u.ending (w.heap.frame a.frame).activation).2 →
      w'.stage = w.stage.leave a.frame (u.ending (w.heap.frame a.frame).activation).1 →
        Does a w (job, w')

/-- An activation that sends a message or reads a global, and as it waits for the answer. -/
inductive Asks (a : Activation) : Activation → Prop
  | message {toSuper : Bool} {selector : Selector} :
      a.code.sends? a.ip = some (toSuper, selector) → selector.arity < a.stack.length →
        Asks a { a with
          ip := a.ip + (Opcode.send toSuper).size, stack := a.stack.drop (selector.arity + 1) }
  | global {name : String} : a.code.reads? a.ip = some name →
      Asks a { a with ip := a.ip + Opcode.pushGlobal.size }

theorem Asks.code {a b : Activation} (h : a.Asks b) : b.code = a.code := by
  cases h <;> rfl

theorem Asks.frame {a b : Activation} (h : a.Asks b) : b.frame = a.frame := by
  cases h <;> rfl

variable (a : Activation) {w w₁ : World}

@[simp] theorem countLoops_stage (w : World) : (a.countLoops w).stage = w.stage :=
  congrArg Premises.stage (a.countLoops_premises w)

theorem leave_stage (marker : Marker) (job : Job) (w : World) :
    (a.leave marker job w).2.stage = w.stage.leave a.frame marker := by
  have h := a.countLoops_stage w
  rw [leave]
  exact congrArg (Stage.leave · a.frame marker) h

theorem abandon_fst (u : Unwind) (w : World) :
    (a.abandon u w).1 = (u.ending (w.heap.frame a.frame).activation).2 := by
  cases u with
  | nonLocal target v =>
    rw [abandon, Unwind.ending]
    split <;> rfl
  | _ => rfl

theorem abandon_stage (u : Unwind) (w : World) : (a.abandon u w).2.stage =
    w.stage.leave a.frame (u.ending (w.heap.frame a.frame).activation).1 := by
  cases u with
  | nonLocal target v =>
    rw [abandon, Unwind.ending]
    split <;> exact a.leave_stage _ _ w
  | _ => exact a.leave_stage _ _ w

variable {a}

/-- What happens between leaves the stage as it is. -/
theorem does_abandon {u : Unwind} (hu : a.Raises w u) (hw : w₁.stage = w.stage) :
    a.Does w (a.abandon u w₁) := by
  have hframe : w₁.heap.frame a.frame = w.heap.frame a.frame :=
    congrArg (fun s => s.heap.frame a.frame) hw
  have hjob := a.abandon_fst u w₁
  have hstage := a.abandon_stage u w₁
  rw [hframe] at hjob hstage
  rw [hw] at hstage
  exact .raises hu hjob hstage

theorem does_failing {f : Fault} (hl : f.isLexical = false) (hu : f.isUnwinding = false)
    (hw : w₁.stage = w.stage) : a.Does w (a.failing f w₁) :=
  does_abandon (.failed hl hu) hw

theorem does_goOn (ip : Nat) (stack : List Value) (h : a.Updates w.stage w₁.stage) :
    a.Does w (a.goOn ip stack w₁) :=
  .goesOn rfl rfl h

theorem does_finish (v : Value) : a.Does w (a.finish v w) :=
  .ends v (a.leave_stage .returnedNormally (.answer v) w)

theorem does_underflow : a.Does w (a.underflow w) :=
  does_failing rfl rfl rfl

theorem does_withTop {go : Value → List Value → World → Job × World}
    (h : ∀ v rest, a.stack = v :: rest → a.Does w (go v rest w)) : a.Does w (a.withTop w go) := by
  rw [withTop]
  split
  · rename_i v rest hs
    exact h v rest hs
  · exact does_underflow

variable {ran : FrameRef → Code} {first second : UInt8}

theorem pushVariable_does {p : Place}
    (hf : (Opcode.push p).Finds w.heap ran a.frame first second) (next : Nat) :
    a.Does w (a.pushVariable p first second next w) := by
  rw [pushVariable]
  cases p with
  | temporary =>
    obtain ⟨g, hg, -, -, hslot⟩ := hf
    simp only [hg, Array.getElem?_eq_getElem hslot]
    exact does_goOn _ _ .nothing
  | argument =>
    obtain ⟨g, hg, -, -, hslot⟩ := hf
    simp only [hg, Array.getElem?_eq_getElem hslot]
    exact does_goOn _ _ .nothing
  | field =>
    obtain ⟨g, hg⟩ := hf
    simp only [hg]
    split
    · rename_i o _
      have hfield := w.setHeap_stage (w.heap.readField_shell w.classes o first.toNat)
      generalize w.heap.readField w.classes o first.toNat = r at hfield ⊢
      obtain ⟨_ | v, heap⟩ := r
      · exact does_failing rfl rfl hfield
      · exact does_goOn _ _ (hfield ▸ .nothing)
    · exact does_failing rfl rfl rfl

theorem popVariable_does {p : Place} (hop : a.code.program.tape.opcode? a.ip = some (.pop p))
    (hf : (Opcode.pop p).Finds w.heap ran a.frame first second) (next : Nat) (v : Value)
    (rest : List Value) : a.Does w (a.popVariable p first second next v rest w) := by
  rw [popVariable]
  cases p with
  | temporary =>
    obtain ⟨g, hg, -, -, hslot⟩ := hf
    simp only [hg, if_pos hslot]
    exact does_goOn _ _ (.setLocal g first.toNat v)
  | argument =>
    obtain ⟨g, hg, -, -, hslot, hzero⟩ := hf
    simp only [hg, if_pos hslot]
    exact does_goOn _ _ (.setArgument v hop hg fun h => hzero (UInt8.toNat_inj.1 h))
  | field =>
    obtain ⟨g, hg⟩ := hf
    simp only [hg]
    split
    · rename_i o _
      have hfield := w.setHeap_stage (w.heap.writeField_shell w.classes o first.toNat v)
      generalize w.heap.writeField w.classes o first.toNat v = r at hfield ⊢
      obtain ⟨_ | _, heap⟩ := r
      · exact does_failing rfl rfl hfield
      · exact does_goOn _ _ (hfield ▸ .nothing)
    · exact does_failing rfl rfl rfl

theorem pushClosure_does {withContext : Bool}
    (hop : a.code.program.tape.opcode? a.ip = some (.pushBlock withContext)) (next : Nat) :
    a.Does w (a.pushClosure withContext (a.code.program.tape.byteAt (a.ip + 1)) next w) := by
  rw [pushClosure]
  split
  · rename_i c hl
    exact does_goOn _ _ (.close hop hl)
  · exact does_failing rfl rfl rfl

theorem returnNonLocal_does (hop : a.code.program.tape.opcode? a.ip = some .returnNonLocal)
    (hf : Opcode.returnNonLocal.Finds w.heap ran a.frame first second) (v : Value) :
    a.Does w (a.returnNonLocal first v w) := by
  obtain ⟨hhome, -, -, b, hb, -⟩ := hf
  rw [returnNonLocal]
  simp only [hhome, hb]
  split
  · rename_i hm
    exact does_abandon (.nonLocal v hop hm) rfl
  · rename_i hm
    exact does_abandon (.escaped v hop hm hb) (w.note_stage _)

theorem step_does (up : Bool) (v : Value) (rest : List Value) (next : Nat) :
    a.Does w (a.step up v rest next w) := by
  rw [step]
  split
  · refine does_goOn _ _ ?_
    rw [Numbers.notePromotion_stage]
    exact .nothing
  · exact does_failing rfl rfl rfl

theorem jump_does (j : Jump) (wide : Bool) (next : Nat) : a.Does w (a.jump j wide next w) := by
  unfold jump
  split
  · exact does_goOn _ _ .nothing
  · exact .goesOn rfl rfl .nothing
  · split
    · split <;> exact does_goOn _ _ .nothing
    · exact does_failing rfl rfl rfl
    · exact does_underflow
  · split
    · split
      · exact does_goOn _ _ .nothing
      · exact does_goOn _ _ .nothing
      · exact does_failing rfl rfl rfl
    · exact does_underflow

end Activation

/-! ### Jobs that call what is installed -/

namespace Job

variable {t : ClassTable} {w : World}

theorem listed_of_errand {job : Job} (h : job.isErrand) : job.Listed t := by
  rintro c arguments rfl
  cases h

theorem listed_of_not_isInvoke {job : Job} (h : job.isInvoke = false) : job.Listed t := by
  rintro c arguments rfl
  cases h

theorem fail_listed (f : Fault) : (Job.fail f).Listed t :=
  listed_of_not_isInvoke rfl

theorem invoke_listed {i : Invokable} {k : ClassRef} {selector : Selector}
    {arguments : List Value} (h : t.lookup k selector = some i) :
    (Job.invoke i arguments).Listed t := by
  rintro c _ ⟨⟩
  obtain ⟨k', -, hk'⟩ := List.exists_of_findSome?_eq_some h
  exact ⟨k', selector, hk'⟩

theorem send_listed (selector : Selector) (arguments : List Value) (w : World) :
    (Machine.send selector arguments w).Listed w.classes := by
  rw [Machine.send]
  split
  · rename_i i hi
    exact invoke_listed hi
  · exact listed_of_not_isInvoke rfl

theorem fulfils_listed {selector : Selector} {arguments : List Value} {job : Job}
    (h : w.Fulfils selector arguments job) : job.Listed w.classes := by
  cases h with
  | found => exact send_listed _ _ _
  | lookup => exact listed_of_not_isInvoke rfl
  | shortcut _ _ hjob =>
    obtain ⟨r, hr, rfl⟩ := Option.map_eq_some_iff.1 hjob
    exact listed_of_errand (Shortcut.apply?_rests hr).job

theorem fulfilsSuper_listed {code : Code} {selector : Selector} {arguments : List Value} {job : Job}
    (h : w.FulfilsSuper code selector arguments job) : job.Listed w.classes := by
  cases h with
  | @found holder hholder =>
    unfold superJob
    split
    · rename_i i hi
      obtain ⟨c, -, hc⟩ := Option.bind_eq_some_iff.1 hi
      exact invoke_listed hc
    · exact listed_of_not_isInvoke rfl
  | gone _ => exact fail_listed _

theorem standardJob_listed (receiver : Value) (c : Condition) (w : World) :
    (Handler.standardJob receiver c w).1.Listed w.classes := by
  rw [Handler.standardJob]
  split
  · rename_i i hi
    exact invoke_listed hi
  · exact fail_listed _

theorem react_listed (r : Reaction) (receiver : Value) (c : Condition) (w : World)
    (k : List Pending) : (Handler.react r receiver c w k).1.Listed w.classes := by
  cases r with
  | restart => exact listed_of_not_isInvoke rfl
  | fail text => exact fail_listed _
  | standard => exact standardJob_listed _ _ _
  | call block arguments =>
    simp only [Handler.react]
    split
    · exact fail_listed _
    · split <;> exact listed_of_not_isInvoke rfl
  | send selector arguments other =>
    simp only [Handler.react]
    split
    · exact fail_listed _
    · split
      · exact listed_of_not_isInvoke rfl
      · split <;> exact listed_of_not_isInvoke rfl
  | answer r =>
    simp only [Handler.react]
    split <;> exact listed_of_not_isInvoke rfl

theorem handler_listed (receiver : Value) (c : Condition) (w : World) (k : List Pending) :
    (Handler.job receiver c w k).1.Listed w.classes := by
  unfold Handler.job
  split
  · exact standardJob_listed _ _ _
  · rename_i replies _
    split
    · extract_lets report w₁
      split
      · exact listed_of_not_isInvoke rfl
      · rename_i reply rest _
        have hw : (Handler.writeAll reply.writes { w₁ with handler := .scripted rest }).classes =
            w.classes :=
          congrArg (Stage.classes ∘ Premises.stage) (Handler.writeAll_premises _ _)
        have h := react_listed reply.reaction receiver c
          (Handler.writeAll reply.writes { w₁ with handler := .scripted rest }) k
        rw [hw] at h
        exact h
    · exact listed_of_not_isInvoke rfl

end Job

/-! ### Moves -/

/-- A job that calls a method or evaluates a block with as many arguments as it takes. -/
inductive World.Enters (w : World) : Job → Code → List Value → Option FrameRef → Prop
  | method {c : Code} {arguments : List Value} : arguments.length = c.argumentCount →
      Enters w (.invoke (.method c) arguments) c arguments none
  | block {b : BlockRef} {arguments : List Value} :
      (w.heap.closure b).parameterCount = arguments.length →
        Enters w (.evaluate b arguments) (w.heap.closure b).code (.block b :: arguments)
          (w.heap.closure b).context

theorem World.enter_stage (code : Code) (arguments : List Value) (context : Option FrameRef)
    (w : World) :
    (∃ w', w.enter code arguments context = (.execute (.start code w.heap.frames.size), w') ∧
      w'.stage = w.stage.enter code arguments context) ∨
        w.enter code arguments context =
          (.fail (.stackOverflow w.settings.maxDepth code.signature), w) := by
  rw [World.enter]
  split
  · exact .inl ⟨_, rfl, rfl⟩
  · exact .inr rfl

namespace Machine

/-- What a step does to the activations of a machine. -/
inductive Moves : Machine → Machine → Prop
  /-- An activation executes an instruction that it need not wait for. -/
  | does {w : World} {a : Activation} {k : List Pending} {r : Job × World} :
      a.Does w r → Moves ⟨w, .execute a, k⟩ (after k r)
  /-- It has to wait. -/
  | asks {w w' : World} {a b : Activation} {job : Job} {k : List Pending} : a.Asks b →
      job.isOuter → job.Listed w.classes → w'.stage = w.stage →
        Moves ⟨w, .execute a, k⟩ ⟨w', job, .sender b :: k⟩
  /-- A new activation starts. -/
  | enters {w w' : World} {job : Job} {code : Code} {arguments : List Value}
      {context : Option FrameRef} {k : List Pending} : w.Enters job code arguments context →
      w'.stage = w.stage.enter code arguments context →
        Moves ⟨w, job, k⟩ ⟨w', .execute (.start code w.heap.frames.size), k⟩
  /-- An activation that waited is answered. -/
  | resumes (w : World) {p : Pending} {a : Activation} (v : Value) (k : List Pending) :
      p.activation? = some a → Moves ⟨w, .answer v, p :: k⟩ ⟨w, .execute (a.push v), k⟩
  | restarts {w w' : World} (a : Activation) (k : List Pending) : w'.stage = w.stage →
      Moves ⟨w, .unwind .restart, .sender a :: k⟩ ⟨w', .execute a.restarted, k⟩
  | reports {w w' : World} (a : Activation) (b : BlockRef) (v : Value) (receiver : Value)
      (k : List Pending) : w'.stage = w.stage →
        Moves ⟨w, .unwind (.escaped b v), .sender a :: k⟩
          ⟨w', .report receiver (.escaped b v), .reporter a :: k⟩
  /-- An unwind goes through an activation that waited, or is its value. -/
  | abandons {w w' : World} {p : Pending} {a : Activation} {u : Unwind} {job : Job}
      (k : List Pending) : p.activation? = some a →
      job = (u.ending (w.heap.frame a.frame).activation).2 →
      w'.stage = w.stage.leave a.frame (u.ending (w.heap.frame a.frame).activation).1 →
        Moves ⟨w, .unwind u, p :: k⟩ ⟨w', job, k⟩
  /-- An unwind goes through something that is no activation. -/
  | passes {w w' : World} {p : Pending} (u : Unwind) (k : List Pending) : p.activation? = none →
      w'.stage = w.stage → Moves ⟨w, .unwind u, p :: k⟩ ⟨w', .unwind u, k⟩
  /-- A handler turns it into a fault. -/
  | stops (w : World) (u : Unwind) (k : List Pending) :
      Moves ⟨w, .unwind u, .sent :: k⟩ ⟨w, .fail (u.fault w), k⟩
  /-- Something is done outside of activations. -/
  | works {w w' : World} {job job' : Job} {k k' : List Pending} : (∀ a, job ≠ .execute a) →
      job'.isOuter → job'.Listed w.classes → w'.stage = w.stage →
        Pending.Shifts w.handler.isStandard k k' → Moves ⟨w, job, k⟩ ⟨w', job', k'⟩
  /-- A machine that is final stays as it is. -/
  | rests {m : Machine} : m.isFinal → Moves m m

variable {s : Stock} {w : World} {a : Activation} {k : List Pending} {ran : FrameRef → Code}

theorem sendInstruction_moves (hw : w.Sound s) (ha : a.Sound s) (hcode : .block a.code ∈ s.written)
    {toSuper : Bool} (hop : a.code.program.tape.opcode? a.ip = some (.send toSuper)) :
    Moves ⟨w, .execute a, k⟩ (sendInstruction a toSuper
      (a.code.program.tape.byteAt (a.ip + 1)) (a.ip + (Opcode.send toSuper).size) w k) := by
  rw [sendInstruction]
  split
  · rename_i selector hl
    have hsend : a.code.sends? a.ip = some (toSuper, selector) := by
      simp [Code.sends?, hop, hl]
    extract_lets taken arguments w₁ k₁ l inProgress
    have h₁ : w₁.Sound s := hw.count _
    have hw₁ : w₁.stage = w.stage := rfl
    split
    · exact .does Activation.does_underflow
    · rename_i hlength
      have hasks := Activation.Asks.message hsend (Nat.le_of_not_lt hlength)
      cases toSuper with
      | false =>
        have hsent := sendFrom_sent hcode hsend h₁ (ha.stack.take taken).reverse
        have hstays := sendFrom_stays l selector arguments w₁
        exact .asks hasks hstays.job (Job.fulfils_listed (w := w₁) hsent.job)
          (hstays.stage.trans hw₁)
      | true =>
        rw [if_pos rfl]
        split
        · rename_i target ht
          obtain ⟨holder, hholder, rfl⟩ := boundSuper?_eq hcode hsend h₁ ht
          exact .asks hasks (superJob_isOuter _ _ _)
            (Job.fulfilsSuper_listed (w := w₁) (.found hholder)) hw₁
        · have hsent := bindSuper_sent hcode hsend h₁ arguments inProgress
          have hstays := bindSuper_stays l a.code selector arguments inProgress w₁
          exact .asks hasks hstays.job (Job.fulfilsSuper_listed (w := w₁) hsent.job)
            (hstays.stage.trans hw₁)
  · exact .does (Activation.does_failing rfl rfl rfl)

/-- An instruction that finds what it addresses, in a program of which every global is read by its
    name. -/
theorem instruction_moves (hw : w.Sound s) (ha : a.Sound s) (hcode : .block a.code ∈ s.written)
    {op : Opcode} (hop : a.code.program.tape.opcode? a.ip = some op)
    (hf : op.Finds w.heap ran a.frame (a.code.program.tape.byteAt (a.ip + 1))
      (a.code.program.tape.byteAt (a.ip + 2)))
    (hread : op = .pushGlobal → (a.code.reads? a.ip).isSome) :
    Moves ⟨w, .execute a, k⟩ (instruction a op w k) := by
  unfold instruction
  dsimp only
  cases op with
  | halt => exact .does (Activation.does_finish _)
  | dup => exact .does (Activation.does_withTop fun _ _ _ => Activation.does_goOn _ _ .nothing)
  | dupSecond =>
    dsimp only
    split
    · exact .does (Activation.does_goOn _ _ .nothing)
    · exact .does Activation.does_underflow
  | push p => exact .does (Activation.pushVariable_does hf _)
  | pushBlock withContext => exact .does (Activation.pushClosure_does hop _)
  | pushConstant =>
    dsimp only
    split
    · exact .does (Activation.does_goOn _ _ .nothing)
    · exact .does (Activation.does_goOn _ _ .nothing)
    · exact .does (Activation.does_failing rfl rfl rfl)
  | pushGlobal =>
    obtain ⟨name, hname⟩ := Option.isSome_iff_exists.1 (hread rfl)
    have hl : a.code.program.literal? (a.code.program.tape.byteAt (a.ip + 1)) =
        some (.global name) := by
      rw [Code.reads?, hop] at hname
      dsimp only at hname
      split at hname
      · rename_i hl
        cases hname
        exact hl
      · cases hname
    have hstays := readGlobal_stays (a.code.id, a.ip) name
      (w.heap.frame (w.heap.home a.frame)).receiver w
    have hinvoke : (readGlobal (a.code.id, a.ip) (some (.global name))
        (w.heap.frame (w.heap.home a.frame)).receiver w).1.isInvoke = false := by
      rw [readGlobal]
      split
      · rw [readCell]
        split <;> rfl
      · rfl
      · dsimp only
        rw [readCell]
        split <;> rfl
    dsimp only
    rw [hl]
    exact .asks (.global hname) hstays.job (Job.listed_of_not_isInvoke hinvoke) hstays.stage
  | pushSelf | pushNil | pushZero | pushOne => exact .does (Activation.does_goOn _ _ .nothing)
  | drop => exact .does (Activation.does_withTop fun _ _ _ => Activation.does_goOn _ _ .nothing)
  | pop p =>
    exact .does (Activation.does_withTop fun _ _ _ => Activation.popVariable_does hop hf _ _ _)
  | send toSuper => exact sendInstruction_moves hw ha hcode hop
  | returnLocal => exact .does (Activation.does_withTop fun _ _ _ => Activation.does_finish _)
  | returnNonLocal =>
    exact .does (Activation.does_withTop fun _ _ _ => Activation.returnNonLocal_does hop hf _)
  | returnSelf => exact .does (Activation.does_finish _)
  | step up => exact .does (Activation.does_withTop fun _ _ _ => Activation.step_does _ _ _ _)
  | jump j wide => exact .does (Activation.jump_does _ _ _)
  | quickened q => exact .does (Activation.does_failing rfl rfl rfl)

/-- What a machine that is about to execute an instruction finds. -/
structure Ready (m : Machine) (ran : FrameRef → Code) : Prop where
  finds : ∀ a op, m.job = .execute a → a.code.program.tape.opcode? a.ip = some op →
    op.Finds m.world.heap ran a.frame (a.code.program.tape.byteAt (a.ip + 1))
      (a.code.program.tape.byteAt (a.ip + 2))
  reads : ∀ a, m.job = .execute a → a.code.program.tape.opcode? a.ip = some .pushGlobal →
    (a.code.reads? a.ip).isSome

theorem execute_moves (hw : w.Sound s) (ha : a.Sound s)
    (hr : Ready ⟨w, .execute a, k⟩ ran) : Moves ⟨w, .execute a, k⟩ (execute a w k) := by
  rw [execute]
  split
  · exact .does (Activation.does_failing rfl rfl rfl)
  · rename_i byte hbyte
    split
    · exact .does (Activation.does_failing rfl rfl rfl)
    · rename_i op ho
      have hop : a.code.program.tape.opcode? a.ip = some op := by
        rw [Tape.opcode?, hbyte]
        exact ho
      -- A code with an instruction is not the empty one.
      have hcode : .block a.code ∈ s.written := by
        refine ha.code.resolve_left fun hd => ?_
        rw [hd] at hbyte
        cases hbyte
      exact instruction_moves hw ha hcode hop (hr.finds a op rfl hop)
        fun h => hr.reads a rfl (h ▸ hop)

theorem enter_moves {job : Job} {code : Code} {arguments : List Value} {context : Option FrameRef}
    (h : w.Enters job code arguments context) :
    Moves ⟨w, job, k⟩ (after k (w.enter code arguments context)) := by
  rcases w.enter_stage code arguments context with ⟨w', hr, hs⟩ | hr
  · rw [hr]
    exact .enters h hs
  · rw [hr]
    refine .works ?_ rfl (Job.fail_listed _) rfl (.none k)
    rintro a rfl
    cases h

theorem resume_moves (top : Pending) (v : Value) (w : World) (k : List Pending) :
    Moves ⟨w, .answer v, top :: k⟩ (resume top v w k) := by
  cases top with
  | sender a => exact .resumes w v k rfl
  | reporter a => exact .resumes w v k rfl
  | counting next limit body result =>
    exact .works nofun rfl (Job.listed_of_not_isInvoke rfl) rfl (.pop k rfl)
  | cycling left body result =>
    exact .works nofun rfl (Job.listed_of_not_isInvoke rfl) rfl (.pop k rfl)
  | sent | called => exact .works nofun rfl (Job.listed_of_not_isInvoke rfl) rfl (.pop k rfl)

theorem unwindInto_moves (top : Pending) (u : Unwind) (w : World) (k : List Pending) :
    Moves ⟨w, .unwind u, top :: k⟩ (unwindInto top u w k) := by
  cases top with
  | sender a =>
    cases u with
    | restart => exact .restarts a k (World.note_stage _ _)
    | escaped b v => exact .reports a b v _ k rfl
    | nonLocal activation v =>
      exact .abandons k rfl (a.abandon_fst _ w) (a.abandon_stage _ w)
    | failed f => exact .abandons k rfl (a.abandon_fst _ w) (a.abandon_stage _ w)
  | reporter a => exact .abandons k rfl (a.abandon_fst u w) (a.abandon_stage u w)
  | counting next limit body result => exact .passes u k rfl rfl
  | cycling left body result => exact .passes u k rfl rfl
  | sent => exact .stops w u k
  | called =>
    simp only [unwindInto]
    split
    · exact .passes u k rfl rfl
    · exact .works (by simp) rfl (Job.listed_of_not_isInvoke rfl) rfl (.pop k rfl)

theorem invoke_moves (i : Invokable) (arguments : List Value) (w : World) (k : List Pending) :
    Moves ⟨w, .invoke i arguments, k⟩ (after k (invoke i arguments w)) := by
  cases i with
  | primitive p =>
    rw [invoke]
    split
    · have hrests := p.builtin.apply_rests arguments w
      exact .works (by simp) hrests.plain.stays.job (Job.listed_of_errand hrests.job) hrests.stage
        (.none k)
    · exact .works (by simp) rfl (Job.fail_listed _) rfl (.none k)
  | method c =>
    rw [invoke]
    split
    · rename_i hlength
      exact enter_moves (.method hlength)
    · exact .works (by simp) rfl (Job.fail_listed _) rfl (.none k)

theorem evaluate_moves (b : BlockRef) (arguments : List Value) (w : World) (k : List Pending) :
    Moves ⟨w, .evaluate b arguments, k⟩ (after k (evaluate b arguments w)) := by
  unfold evaluate
  dsimp only
  split
  · rename_i hcount
    exact enter_moves (.block hcount)
  · exact .works nofun rfl (Job.fail_listed _) rfl (.none k)

theorem report_moves (receiver : Value) (c : Condition) (w : World) (k : List Pending) :
    Moves ⟨w, .report receiver c, k⟩ (step ⟨w, .report receiver c, k⟩) := by
  have hn : (noteCondition c w).stage = w.stage := by
    cases c with
    | notUnderstood selector arguments => exact World.note_stage _ _
    | _ => rfl
  have hreacts := Handler.job_reacts receiver c (noteCondition c w) k
  have hlisted := Job.handler_listed receiver c (noteCondition c w) k
  rw [show (noteCondition c w).classes = w.classes from congrArg Stage.classes hn] at hlisted
  have hshifts : Pending.Shifts w.handler.isStandard k
      (Handler.job receiver c (noteCondition c w) k).2.2 := by
    by_cases hstandard : w.handler.isStandard
    · have hs : (noteCondition c w).handler.isStandard := by
        rwa [show (noteCondition c w).handler.isStandard = _ from congrArg Stage.standard hn]
      rw [Handler.job_pending_standard receiver c k hs]
      exact .none k
    · rcases hreacts.pending with hk | hk | hk
      · rw [hk]
        exact .none k
      · rw [hk]
        exact .push k rfl fun h => absurd h hstandard
      · rw [hk]
        exact .push k rfl fun h => absurd h hstandard
  exact .works nofun (Job.outer hreacts.job) hlisted (hreacts.stage.trans hn) hshifts

/-- What a step of a machine comes to that keeps to its stock. -/
theorem step_moves {m : Machine} (h : m.Sound s) (hr : m.Ready ran) : Moves m m.step := by
  obtain ⟨w, job, k⟩ := m
  have hw : w.Sound s := h.world
  cases job with
  | execute a => exact execute_moves hw h.job hr
  | send selector arguments =>
    refine .works (by simp) ?_ (Job.send_listed _ _ _) rfl (.none k)
    rw [send]
    split <;> rfl
  | invoke i arguments => exact invoke_moves i arguments w k
  | evaluate b arguments => exact evaluate_moves b arguments w k
  | count next limit body result =>
    rw [step]
    split
    · exact .works (by simp) rfl (Job.listed_of_not_isInvoke rfl) rfl (.push k rfl fun _ => rfl)
    · exact .works (by simp) rfl (Job.listed_of_not_isInvoke rfl) rfl (.none k)
  | cycle left body result =>
    cases left with
    | zero => exact .works (by simp) rfl (Job.listed_of_not_isInvoke rfl) rfl (.none k)
    | succ left =>
      exact .works (by simp) rfl (Job.listed_of_not_isInvoke rfl) rfl (.push k rfl fun _ => rfl)
  | report receiver c => exact report_moves receiver c w k
  | answer v =>
    cases k with
    | nil => exact .rests rfl
    | cons top k => exact resume_moves top v w k
  | unwind u =>
    cases k with
    | nil => exact .rests rfl
    | cons top k => exact unwindInto_moves top u w k
  | hang => exact .rests rfl

end Machine

end Parley
