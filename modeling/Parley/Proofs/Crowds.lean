import Mathlib
import Parley.Machine.Seat
import Parley.Proofs.Brackets

/-!
# Machines that take turns at any point

Machines on one world may take turns between any two steps, while all of them have activations in
progress (`Crowd`). A block that one of them has made another one may find in a global, and
evaluate; if the block returns from its method, the return unwinds the activations of the machine
that evaluates it.

A return carries the number of the activation that it is for, and each machine counts its own
activations. So a return ends the activation that it is for if that was started by the machine
itself. One that is for an activation of another machine ends an activation that it is not for, if
there is one with the same number (`Crowd.absorbs`).
-/

namespace Parley

variable {s : Stock} {w : World} {m : Machine} {target : Nat} {v : Value}

/-! ### Where returns come from -/

/-- Whether a job is to return through activations. -/
def Job.isReturn : Job → Bool
  | .unwind (.nonLocal _ _) => true
  | _ => false

theorem Job.isReturn_of_outer {job : Job} (h : job.isOuter) : job.isReturn = false := by
  cases job with
  | unwind u =>
    cases u with
    | nonLocal _ _ => cases h
    | _ => rfl
  | _ => rfl

theorem Job.isReturn_of_errand {job : Job} (h : job.isErrand) : job.isReturn = false :=
  isReturn_of_outer (outer (plain h))

namespace Activation

variable (a : Activation)

theorem withTop_isReturn {go : Value → List Value → World → Job × World}
    (h : ∀ v rest, (go v rest w).1.isReturn = false) : (a.withTop w go).1.isReturn = false := by
  rw [withTop]
  split
  · exact h _ _
  · rfl

theorem pushVariable_isReturn (p : Place) (slot level : UInt8) (next : Nat) (w : World) :
    (a.pushVariable p slot level next w).1.isReturn = false := by
  rcases a.pushVariable_cases p slot level next w with ⟨u, w', hu⟩ | ⟨f, w', -, hu⟩ <;>
    rw [hu] <;> rfl

theorem popVariable_isReturn (p : Place) (slot level : UInt8) (next : Nat) (v : Value)
    (rest : List Value) (w : World) :
    (a.popVariable p slot level next v rest w).1.isReturn = false := by
  rcases a.popVariable_cases p slot level next v rest w with ⟨w', hu⟩ | ⟨f, w', -, hu⟩ <;>
    rw [hu] <;> rfl

theorem pushClosure_isReturn (withContext : Bool) (index : UInt8) (next : Nat) (w : World) :
    (a.pushClosure withContext index next w).1.isReturn = false := by
  rw [pushClosure]
  split <;> rfl

theorem step_isReturn (up : Bool) (v : Value) (rest : List Value) (next : Nat) (w : World) :
    (a.step up v rest next w).1.isReturn = false := by
  rw [step]
  split <;> rfl

theorem jump_isReturn (j : Jump) (wide : Bool) (next : Nat) (w : World) :
    (a.jump j wide next w).1.isReturn = false := by
  unfold jump
  split
  · rfl
  · rfl
  · split
    · split <;> rfl
    · rfl
    · rfl
  · split
    · split <;> rfl
    · rfl

end Activation

theorem readGlobal_isReturn (l : Location) (literal : Option (Literal Code)) (receiver : Value)
    (w : World) : (readGlobal l literal receiver w).1.isReturn = false := by
  unfold readGlobal
  split
  · exact Job.isReturn_of_outer (readCell_isOuter _ _ _)
  · rfl
  · split
    · exact Job.isReturn_of_outer (readCell_isOuter _ _ _)
    · rfl

namespace Machine

variable {a : Activation} {k : List Pending}

theorem sendInstruction_isReturn (a : Activation) (toSuper : Bool) (index : UInt8) (next : Nat)
    (w : World) (k : List Pending) :
    (sendInstruction a toSuper index next w k).job.isReturn = false := by
  rw [sendInstruction]
  split
  · dsimp only
    split
    · rfl
    · split
      · split
        · exact Job.isReturn_of_outer (superJob_isOuter _ _ _)
        · exact Job.isReturn_of_outer (bindSuper_stays _ _ _ _ _ _).job
      · exact Job.isReturn_of_outer (sendFrom_stays _ _ _ _).job
  · rfl

/-- Only one instruction makes a return. -/
theorem instruction_isReturn {op : Opcode} (hop : op ≠ .returnNonLocal) (a : Activation) (w : World)
    (k : List Pending) : (instruction a op w k).job.isReturn = false := by
  cases op with
  | halt | returnSelf | pushSelf | pushNil | pushZero | pushOne | quickened => rfl
  | dup | drop | returnLocal => exact a.withTop_isReturn fun _ _ => rfl
  | dupSecond =>
    simp only [instruction]
    split <;> rfl
  | push p => exact a.pushVariable_isReturn _ _ _ _ _
  | pushBlock withContext => exact a.pushClosure_isReturn _ _ _ _
  | pushConstant =>
    simp only [instruction]
    split <;> rfl
  | pushGlobal => exact readGlobal_isReturn _ _ _ _
  | pop p => exact a.withTop_isReturn fun _ _ => a.popVariable_isReturn _ _ _ _ _ _ _
  | send toSuper => exact sendInstruction_isReturn _ _ _ _ _ _
  | returnNonLocal => exact absurd rfl hop
  | step up => exact a.withTop_isReturn fun _ _ => a.step_isReturn _ _ _ _ _
  | jump j wide => exact a.jump_isReturn _ _ _ _

/-- The frame that a machine is to return to by the instruction that it executes next. -/
def aim? (m : Machine) : Option FrameRef :=
  match m.job with
  | .execute a =>
    if a.code.program.tape.opcode? a.ip = some .returnNonLocal then
      m.world.heap.enclosing? a.frame (a.code.program.tape.byteAt (a.ip + 1)).toNat
    else none
  | _ => none

theorem aim?_return {a : Activation} {k : List Pending}
    (h : a.code.program.tape.opcode? a.ip = some .returnNonLocal) : aim? ⟨w, .execute a, k⟩ =
      w.heap.enclosing? a.frame (a.code.program.tape.byteAt (a.ip + 1)).toNat :=
  if_pos h

/-- A block returns to the frame that a machine aims at, which is marked as on the stack. -/
structure Aims (m : Machine) (g : FrameRef) (target : Nat) : Prop where
  aim : m.aim? = some g
  onStack : (m.world.heap.frame g).marker = .onStack
  number : (m.world.heap.frame g).activation = target

theorem ending_isReturn {u : Unwind} {activation : Nat}
    (h : (u.ending activation).2 = .unwind (.nonLocal target v)) : u = .nonLocal target v := by
  rcases u.ending_job activation with ⟨v', hv⟩ | hu
  · rw [hv] at h
    cases h
  · rw [hu] at h
    exact Job.unwind.inj h

theorem execute_return (h : (execute a w k).job = .unwind (.nonLocal target v)) :
    ∃ g, Aims ⟨w, .execute a, k⟩ g target := by
  rw [execute] at h
  split at h
  · cases h
  rename_i byte hbyte
  split at h
  · cases h
  rename_i op ho
  have hop : a.code.program.tape.opcode? a.ip = some op := by
    rw [Tape.opcode?, hbyte]
    exact ho
  obtain rfl : op = .returnNonLocal := by
    by_contra hne
    have hreturn := instruction_isReturn hne a w k
    rw [h] at hreturn
    cases hreturn
  simp only [instruction, Activation.withTop] at h
  split at h
  · rename_i v' rest hstack
    have hcomes := Activation.returnNonLocal_comes (w := w) hop v'
    generalize a.returnNonLocal _ v' w = r at h hcomes
    cases hcomes with
    | goesOn | returns => cases h
    | throws hu hjob _ =>
      obtain rfl := ending_isReturn (hjob.symm.trans h)
      cases hu with
      | returns _ _ hg hm => exact ⟨_, (aim?_return hop).trans hg, hm, rfl⟩
  · cases h

/-- A machine that is to return through activations after a step was so before, or has executed the
    return of a block. -/
theorem step_return {m : Machine} (h : m.step.job = .unwind (.nonLocal target v)) :
    m.job = .unwind (.nonLocal target v) ∨ ∃ g, m.Aims g target := by
  have hnot : ∀ {job : Job}, job.isReturn = false → job ≠ .unwind (.nonLocal target v) := by
    rintro _ hjob rfl
    cases hjob
  obtain ⟨w, job, k⟩ := m
  cases job with
  | execute a => exact .inr (execute_return h)
  | send selector arguments =>
    refine absurd h (hnot ?_)
    rw [step, send]
    split <;> rfl
  | invoke i arguments =>
    refine absurd h (hnot ?_)
    cases i with
    | primitive p =>
      rw [step, invoke]
      split
      · exact Job.isReturn_of_errand (p.builtin.apply_rests arguments w).job
      · rfl
    | method c =>
      rw [step, invoke]
      split
      · rw [World.enter]
        split <;> rfl
      · rfl
  | evaluate b arguments =>
    refine absurd h (hnot ?_)
    simp only [step, evaluate, World.enter]
    split
    · split <;> rfl
    · rfl
  | count next limit body result =>
    rw [step] at h
    split at h <;> cases h
  | cycle left body result => cases left <;> cases h
  | report receiver c =>
    have hreacts := Handler.job_reacts receiver c (noteCondition c w) k
    exact absurd h (hnot (Job.isReturn_of_outer (Job.outer hreacts.job)))
  | answer u =>
    cases k with
    | nil => cases h
    | cons top k => cases top <;> cases h
  | unwind u =>
    left
    cases k with
    | nil => exact h
    | cons top k =>
      have habandon : ∀ a : Activation, (a.abandon u w).1 = .unwind (.nonLocal target v) →
          Job.unwind u = .unwind (.nonLocal target v) := fun a ha =>
        congrArg Job.unwind (ending_isReturn ((a.abandon_fst u w).symm.trans ha))
      cases top with
      | sender a =>
        cases u with
        | restart | escaped => cases h
        | nonLocal | failed => exact habandon a h
      | reporter a => exact habandon a h
      | counting | cycling => exact h
      | sent => cases h
      | called =>
        simp only [step, unwindInto] at h
        split at h
        · exact h
        · cases h
  | hang => cases h

end Machine

/-! ### Ledgers -/

namespace Ledger.Turns

variable {l l' : Ledger} {f : FrameRef} {fs fs' : List FrameRef}

/-- What is in progress was so before, or is new. -/
theorem mem (h : l.Turns fs l' fs') (hf : f ∈ fs') :
    f ∈ fs ∨ f = l.frames ∧ l'.frames = l.frames + 1 := by
  cases h with
  | stays => exact .inl hf
  | starts =>
    rcases List.mem_cons.1 hf with rfl | hf
    · exact .inr ⟨rfl, rfl⟩
    · exact .inl hf
  | ends => exact .inl (List.mem_cons_of_mem _ hf)

end Ledger.Turns

/-! ### Crowds -/

/-- Machines on one world, each of them at some point of its own run. -/
structure Crowd where
  world : World
  seats : Nat → Seat
  /-- Which machine started the activation of a frame. -/
  starter : FrameRef → Nat
  /-- The frame that the last return of a machine through activations was for. -/
  aim : Nat → FrameRef

namespace Crowd

variable {c c' : Crowd} {i j : Nat} {f g : FrameRef}

/-- A machine of a crowd, when it has its turn. -/
def machine (c : Crowd) (i : Nat) : Machine :=
  (c.seats i).machine c.world

/-- A machine has become another one. What activations are new it started. -/
def put (c : Crowd) (i : Nat) (m : Machine) : Crowd where
  world := m.world
  seats := Function.update c.seats i m.seat
  starter f := if f < c.world.heap.frames.size then c.starter f else i
  aim := c.aim

/-- A machine takes a step. -/
def step (c : Crowd) (i : Nat) : Crowd :=
  { c.put i (c.machine i).step with
    aim := Function.update c.aim i ((c.machine i).aim?.getD (c.aim i)) }

/-- Any number of machines that have done nothing. -/
def start (w : World) : Crowd :=
  ⟨w, fun _ => .idle, fun _ => 0, fun _ => 0⟩

/-- What becomes of a crowd: any machine takes a step, or its host does something. A host that is
    asked may refuse, but makes up no return. -/
inductive Next (c : Crowd) : Crowd → Prop
  | step (i : Nat) : Next c (c.step i)
  | host (i : Nat) {m : Machine} : (c.machine i).Proceeds m →
      (m.job.isReturn → m.job = (c.machine i).job) → Next c (c.put i m)

/-- The crowds that come about, with the library or without. -/
inductive Live : Crowd → Prop
  | start {w : World} : w.IsNew → Live (start w)
  | next {c c' : Crowd} : Live c → c.Next c' → Live c'

theorem machine_put_self (c : Crowd) (i : Nat) (m : Machine) : (c.put i m).machine i = m := by
  rw [machine, show (c.put i m).seats i = m.seat from Function.update_self _ _ _]
  rfl

theorem seats_put_of_ne (c : Crowd) (h : j ≠ i) (m : Machine) :
    (c.put i m).seats j = c.seats j :=
  Function.update_of_ne h _ _

theorem machine_put_of_ne (c : Crowd) (h : j ≠ i) (m : Machine) :
    (c.put i m).machine j = (c.seats j).machine m.world := by
  rw [machine, seats_put_of_ne c h]
  rfl

theorem put_starter_of_lt (hf : f < c.world.heap.frames.size) (i : Nat) (m : Machine) :
    (c.put i m).starter f = c.starter f :=
  if_pos hf

theorem put_starter_of_not_lt (hf : ¬f < c.world.heap.frames.size) (i : Nat) (m : Machine) :
    (c.put i m).starter f = i :=
  if_neg hf

/-! ### What crowds keep -/

/-- The activations of the machines of a crowd, with their numbers. -/
structure Kept (c : Crowd) : Prop where
  sound : ∃ s, ∀ i, (c.machine i).Sound s
  /-- What a machine has in progress it started. -/
  own : ∀ i, ∀ f ∈ (c.machine i).frames, f < c.world.heap.frames.size ∧ c.starter f = i
  positive : ∀ f < c.world.heap.frames.size, 0 < (c.world.heap.frame f).activation
  counted : ∀ f < c.world.heap.frames.size,
    (c.world.heap.frame f).activation ≤ (c.seats (c.starter f)).thread.activations
  /-- No two activations of a machine have the same number. -/
  apart : ∀ f < c.world.heap.frames.size, ∀ g < c.world.heap.frames.size,
    c.starter f = c.starter g →
      (c.world.heap.frame f).activation = (c.world.heap.frame g).activation → f = g

variable {l l' : Ledger}

theorem put_sound (hs : ∀ i, (c.machine i).Sound s) (hp : (c.machine i).Proceeds m) :
    ∃ s', ∀ j, ((c.put i m).machine j).Sound s' := by
  obtain ⟨s', hle, hm⟩ := hp.sound (hs i)
  refine ⟨s', fun j => ?_⟩
  by_cases hj : j = i
  · rw [hj, machine_put_self]
    exact hm
  · rw [machine_put_of_ne c hj]
    exact (hs j).mono hle (hm.world.congr rfl rfl rfl rfl rfl rfl le_rfl)

theorem Kept.put (h : c.Kept) (hp : (c.machine i).Proceeds m) : (c.put i m).Kept := by
  obtain ⟨s, hs⟩ := h.sound
  have ht := hp.turns (hs i)
  have hsize : c.world.heap.frames.size ≤ m.world.heap.frames.size := ht.frames_le
  have hnumber : ∀ f < c.world.heap.frames.size,
      (m.world.heap.frame f).activation = (c.world.heap.frame f).activation := fun f hf =>
        ht.number hf
  have hnew : ∀ f < m.world.heap.frames.size, ¬f < c.world.heap.frames.size →
      f = c.world.heap.frames.size ∧
        (m.world.heap.frame f).activation = (c.seats i).thread.activations + 1 ∧
        m.world.thread.activations = (c.seats i).thread.activations + 1 := fun f => ht.new
  have hactivations : ∀ j,
      (c.seats j).thread.activations ≤ ((c.put i m).seats j).thread.activations := by
    intro j
    by_cases hj : j = i
    · rw [hj, show (c.put i m).seats i = m.seat from Function.update_self _ _ _]
      exact ht.activations_le
    · rw [seats_put_of_ne c hj]
  refine ⟨put_sound hs hp, fun j f hf => ?_, fun f hf => ?_, fun f hf => ?_,
    fun f hf g hg hstarter heq => ?_⟩
  · by_cases hj : j = i
    · rw [hj, machine_put_self] at hf
      rw [hj]
      rcases ht.mem hf with hf | ⟨rfl, hlt⟩
      · obtain ⟨hlt, hstarter⟩ := h.own i f hf
        exact ⟨Nat.lt_of_lt_of_le hlt hsize, (put_starter_of_lt hlt i m).trans hstarter⟩
      · exact ⟨Nat.lt_of_lt_of_eq (Nat.lt_succ_self _) hlt.symm,
          put_starter_of_not_lt (Nat.lt_irrefl _) i m⟩
    · rw [machine_put_of_ne c hj] at hf
      obtain ⟨hlt, hstarter⟩ := h.own j f hf
      exact ⟨Nat.lt_of_lt_of_le hlt hsize, (put_starter_of_lt hlt i m).trans hstarter⟩
  · by_cases hold : f < c.world.heap.frames.size
    · exact Nat.lt_of_lt_of_eq (h.positive f hold) (hnumber f hold).symm
    · exact Nat.lt_of_lt_of_eq (Nat.succ_pos _) (hnew f hf hold).2.1.symm
  · by_cases hold : f < c.world.heap.frames.size
    · rw [put_starter_of_lt hold]
      exact (hnumber f hold).le.trans ((h.counted f hold).trans (hactivations _))
    · obtain ⟨-, hn, hcount⟩ := hnew f hf hold
      rw [put_starter_of_not_lt hold, show (c.put i m).seats i = m.seat from
        Function.update_self _ _ _]
      exact (hn.trans hcount.symm).le
  -- A new activation has a number that no other one of its machine has got.
  · have hne : ∀ f < c.world.heap.frames.size, ∀ g < m.world.heap.frames.size,
        ¬g < c.world.heap.frames.size → (c.put i m).starter f = (c.put i m).starter g →
          (m.world.heap.frame f).activation ≠ (m.world.heap.frame g).activation := by
      intro f hf g hg hnot hstarter heq
      rw [put_starter_of_lt hf, put_starter_of_not_lt hnot] at hstarter
      have hcounted := h.counted f hf
      rw [hstarter] at hcounted
      have heq := (hnumber f hf).symm.trans (heq.trans (hnew g hg hnot).2.1)
      exact absurd (heq.symm.le.trans hcounted) (Nat.not_succ_le_self _)
    by_cases hf' : f < c.world.heap.frames.size <;> by_cases hg' : g < c.world.heap.frames.size
    · rw [put_starter_of_lt hf', put_starter_of_lt hg'] at hstarter
      exact h.apart f hf' g hg' hstarter
        ((hnumber f hf').symm.trans (heq.trans (hnumber g hg')))
    · exact absurd heq (hne f hf' g hg hg' hstarter)
    · exact absurd heq.symm (hne g hg' f hf hf' hstarter.symm)
    · exact (hnew f hf hf').1.trans (hnew g hg hg').1.symm

theorem Kept.step (h : c.Kept) (i : Nat) : (c.step i).Kept := by
  have hkept := h.put (Machine.Proceeds.step (c.machine i))
  exact ⟨hkept.sound, hkept.own, hkept.positive, hkept.counted, hkept.apart⟩

theorem start_kept (hw : w.IsNew) : (start w).Kept := by
  obtain ⟨s, hs⟩ := hw.sound
  obtain ⟨settings, hledger⟩ := hw.ledger
  have hsize : w.heap.frames.size = 0 := congrArg Ledger.frames hledger
  have hnone : ∀ f, ¬f < w.heap.frames.size := fun f hf => Nat.not_lt_zero f (hsize ▸ hf)
  exact ⟨⟨s, fun _ => ⟨hs.congr rfl rfl rfl rfl rfl rfl le_rfl, trivial, nofun⟩⟩, nofun,
    fun f hf => absurd hf (hnone f), fun f hf => absurd hf (hnone f),
    fun f hf => absurd hf (hnone f)⟩

theorem Live.kept (h : Live c) : c.Kept := by
  induction h with
  | start hw => exact start_kept hw
  | next _ hn ih =>
    cases hn with
    | step i => exact ih.step i
    | host i hp _ => exact ih.put hp

/-! ### What returns are for -/

/-- A frame has the number of an activation. -/
structure Numbers (c : Crowd) (f : FrameRef) (n : Nat) : Prop where
  lt : f < c.world.heap.frames.size
  number : (c.world.heap.frame f).activation = n

/-- Only the frames that there are have numbers. -/
theorem numbers_of_pos (hf : (c.world.heap.frame f).activation = target) (hpos : 0 < target) :
    c.Numbers f target := by
  refine ⟨?_, hf⟩
  by_contra hlt
  have hdefault : c.world.heap.frame f = default := dif_neg hlt
  rw [hdefault] at hf
  exact Nat.lt_irrefl _ (hf ▸ hpos)

theorem Kept.numbers_put (h : c.Kept) (hp : (c.machine i).Proceeds m)
    (hf : c.Numbers f target) : (c.put i m).Numbers f target := by
  obtain ⟨s, hs⟩ := h.sound
  have ht := hp.turns (hs i)
  exact ⟨Nat.lt_of_lt_of_le hf.lt ht.frames_le, (ht.number hf.lt).trans hf.number⟩

/-- Machines that return through activations return to what they aimed at. -/
def Aimed (c : Crowd) : Prop :=
  ∀ i target v, (c.seats i).job = .unwind (.nonLocal target v) → 0 < target →
    c.Numbers (c.aim i) target

theorem Aimed.step (h : c.Aimed) (hk : c.Kept) (i : Nat) : (c.step i).Aimed := by
  intro j target v hjob hpos
  have hkeeps : ∀ {f}, c.Numbers f target → (c.step i).Numbers f target := fun hf =>
    have hf := hk.numbers_put (.step (c.machine i)) hf
    ⟨hf.lt, hf.number⟩
  by_cases hj : j = i
  · obtain rfl := hj
    have hseat : (c.step j).seats j = (c.machine j).step.seat := Function.update_self _ _ _
    have haim : (c.step j).aim j = (c.machine j).aim?.getD (c.aim j) := Function.update_self _ _ _
    rw [hseat] at hjob
    rw [haim]
    rcases Machine.step_return hjob with hold | ⟨g, hg⟩
    · rw [show (c.machine j).aim? = none by rw [Machine.aim?, hold]]
      exact hkeeps (h j target v hold hpos)
    · rw [hg.aim]
      exact hkeeps (numbers_of_pos hg.number hpos)
  · have hseat : (c.step i).seats j = c.seats j := Function.update_of_ne hj _ _
    have haim : (c.step i).aim j = c.aim j := Function.update_of_ne hj _ _
    rw [hseat] at hjob
    rw [haim]
    exact hkeeps (h j target v hjob hpos)

theorem Aimed.put (h : c.Aimed) (hk : c.Kept) (hp : (c.machine i).Proceeds m)
    (hreturn : m.job.isReturn → m.job = (c.machine i).job) : (c.put i m).Aimed := by
  intro j target v hjob hpos
  refine hk.numbers_put hp (h j target v ?_ hpos)
  by_cases hj : j = i
  · obtain rfl := hj
    rw [show (c.put j m).seats j = m.seat from Function.update_self _ _ _] at hjob
    have hjob : m.job = .unwind (.nonLocal target v) := hjob
    exact (hreturn (by rw [hjob]; rfl)).symm.trans hjob
  · rwa [seats_put_of_ne c hj] at hjob

theorem Live.aimed (h : Live c) : c.Aimed := by
  induction h with
  | start => exact nofun
  | next h hn ih =>
    cases hn with
    | step i => exact ih.step h.kept i
    | host i hp hreturn => exact ih.put h.kept hp hreturn

/-- An activation that ends by a return that is for its number. -/
structure Ending (c : Crowd) (i : Nat) (f : FrameRef) : Prop where
  own : c.starter f = i
  /-- The frame that the return is for has that number. -/
  number : (c.world.heap.frame ((c.step i).aim i)).activation = (c.world.heap.frame f).activation
  /-- It is the frame of the activation if the same machine has started it, and only then. -/
  target : f = (c.step i).aim i ↔ c.starter ((c.step i).aim i) = i

theorem Live.numbers_aim (h : Live c) {a : Activation} {k : List Pending}
    (hc : (c.machine i).Concludes a (.unwinds (.nonLocal target v)) k) (hpos : 0 < target) :
    c.Numbers ((c.step i).aim i) target := by
  have haim : (c.step i).aim i = (c.machine i).aim?.getD (c.aim i) := Function.update_self _ _ _
  rw [haim]
  have haimed := h.aimed i target v
  generalize hm : c.machine i = m at hc
  have hjob : (c.seats i).job = m.job := congrArg Machine.job hm
  have hheap : c.world.heap = m.world.heap := congrArg (fun m => m.world.heap) hm
  rw [hjob] at haimed
  cases hc with
  | throws k hu =>
    cases hu with
    | @returns g _ hop hg _ =>
      rw [Machine.aim?_return hop, hg]
      exact numbers_of_pos (by rw [hheap]; rfl) hpos
  | passes | reports => exact haimed rfl hpos

/-- The returns that end activations in a crowd, which may be for activations of other machines. -/
def Absorbs (c : Crowd) : Prop :=
  ∀ i a v k, (c.machine i).Concludes a
    (.unwinds (.nonLocal (c.world.heap.frame a.frame).activation v)) k → c.Ending i a.frame

/-- A return ends the activation that it is for if the machine has started that itself. -/
theorem absorbs (h : Live c) : c.Absorbs := by
  intro i a v k hc
  have hmem : a.frame ∈ (c.machine i).frames := by
    rw [hc.frames]
    exact List.mem_cons_self
  obtain ⟨hlt, hown⟩ := h.kept.own i a.frame hmem
  have haim := h.numbers_aim hc (h.kept.positive a.frame hlt)
  refine ⟨hown, haim.number, fun heq => heq ▸ hown, fun hstarter => ?_⟩
  exact h.kept.apart a.frame hlt _ haim.lt (hown.trans hstarter.symm) haim.number.symm

/-! ### A block of another machine -/

/-- The host changes the world when it is the turn of a machine. -/
def change (c : Crowd) (i : Nat) (w : World) : Crowd :=
  c.put i { c.machine i with world := w }

/-- It installs a primitive in a class. -/
def equip (c : Crowd) (k : ClassRef) (selector : Selector) (builtin : Builtin) : Crowd :=
  let r := (c.machine 0).world.newPrimitive selector builtin none
  let c := c.change 0 r.2
  c.change 0 ((c.machine 0).world.install k (.primitive r.1))

/-- It compiles a method and has a machine run that. -/
def call (c : Crowd) (i : Nat) (m : MethodTree) : Crowd :=
  let r := (c.machine i).world.compile Core.object m false
  let c := c.change i r.2
  match r.1 with
  | .ok code => c.put i ⟨(c.machine i).world, .invoke (.method code) [.nil], []⟩
  | .error _ => c

theorem Live.change (h : Live c) (i : Nat) (hc : (c.machine i).world.Change w)
    (hsettings : w.settings = (c.machine i).world.settings)
    (hthread : w.thread = (c.machine i).world.thread) : Live (c.change i w) :=
  h.next (.host i (.change hc hsettings hthread) fun _ => rfl)

theorem Live.equip (h : Live c) (k : ClassRef) (selector : Selector) (builtin : Builtin) :
    Live (c.equip k selector builtin) :=
  (h.change 0 (.newPrimitive selector builtin none) rfl rfl).change 0
    (.install k (show World.Offers _ (.primitive _) from trivial)) rfl rfl

theorem Live.call (h : Live c) (i : Nat) (hi : (c.machine i).outcome ≠ .unfinished)
    (hobject : Core.object < (c.machine i).world.classes.next) (m : MethodTree) :
    Live (c.call i m) := by
  obtain ⟨hsettings, hthread⟩ := (c.machine i).world.compile_own Core.object m false
  have h' := h.change i (.compile m false hobject) hsettings hthread
  unfold Crowd.call
  have hcodes := ((c.machine i).world.compile_codes Core.object m false).2
  generalize (c.machine i).world.compile Core.object m false = r at h' hcodes ⊢
  obtain ⟨e | code, w⟩ := r
  · exact h'
  · have hmachine : (c.change i w).machine i = { c.machine i with world := w } :=
      c.machine_put_self i _
    have hrequest : ((c.change i w).machine i).world.Requests (.invoke (.method code) [.nil]) := by
      rw [hmachine]
      refine ⟨⟨code, hcodes code rfl, .self _⟩, fun v hv => ?_⟩
      rw [List.mem_singleton.1 hv]
      trivial
    have hi' : ((c.change i w).machine i).outcome ≠ .unfinished := hmachine ▸ hi
    exact h'.next (.host i (.request hi' (.request hrequest)) nofun)

theorem Live.iterate (h : Live c) (i n : Nat) : Live ((step · i)^[n] c) := by
  induction n generalizing c with
  | zero => exact h
  | succ n ih => exact ih (h.next (.step i))

/-- A method that lets others have a block that returns from it. -/
def lend : MethodTree where
  selector := "lend"
  parameters := []
  locals := []
  body := [.send (.variable "self") "global:put:"
    [.constant (.symbol "Block"), .block [] [] [.leave (.constant (.symbol "lent"))]]]

/-- A method that evaluates the block of another one. -/
def borrow : MethodTree where
  selector := "borrow"
  parameters := []
  locals := []
  body := [.send (.send (.variable "self") "global:" [.constant (.symbol "Block")]) "value" []]

/-- Machines that have the primitives for that. -/
def equipped : Crowd :=
  (((start (.bare .standard .standard .kept false)).equip Core.object "global:" .global).equip
    Core.object "global:put:" .globalPut).equip Core.block "value" .blockValue

/-- One machine has put a block into a global, the method of the block is in progress still, and
    another machine has evaluated the block. -/
def borrowing : Crowd :=
  (step · 1)^[11] (((step · 0)^[7] (equipped.call 0 lend)).call 1 borrow)

/-- Whether the second machine is to end its own activation by a return to an activation of the
    first one, which is in progress. -/
def borrows (c : Crowd) : Bool :=
  match c.machine 1 with
  | ⟨w, .unwind (.nonLocal 1 (.symbol "lent")), [.sender a]⟩ => decide (a.frame = 1 ∧
      (w.heap.frame a.frame).activation = 1 ∧ (c.step 1).aim 1 = 0 ∧ c.starter 0 = 0 ∧
      (w.heap.frame 0).marker = .onStack)
  | _ => false

set_option maxRecDepth 10000 in
theorem borrows_borrowing : borrowing.borrows := by
  cbv

set_option maxRecDepth 10000 in
theorem live_borrowing : Live borrowing := by
  have h : Live equipped :=
    (((Live.start (.bare .standard .standard .kept false)).equip _ _ _).equip _ _ _).equip _ _ _
  have h : Live ((step · 0)^[7] (equipped.call 0 lend)) :=
    (h.call 0 (by cbv; rintro ⟨⟩) (by cbv) lend).iterate 0 7
  exact (h.call 1 (by cbv; rintro ⟨⟩) (by cbv) borrow).iterate 1 11

/-- The second machine ends its own activation by a return to an activation of the first one, which
    is in progress: the activation has the same number, but is not the one that the return is
    for. -/
theorem absorbs_borrowing : Live borrowing ∧ ∃ a v, (borrowing.machine 1).Concludes a
    (.unwinds (.nonLocal (borrowing.world.heap.frame a.frame).activation v)) [] ∧
      borrowing.Ending 1 a.frame ∧ borrowing.starter ((borrowing.step 1).aim 1) = 0 ∧
        (borrowing.world.heap.frame ((borrowing.step 1).aim 1)).marker = .onStack ∧
          a.frame ≠ (borrowing.step 1).aim 1 := by
  refine ⟨live_borrowing, ?_⟩
  have hlook := borrows_borrowing
  have habsorbs := absorbs live_borrowing
  generalize borrowing = c at hlook habsorbs ⊢
  unfold borrows at hlook
  split at hlook
  · rename_i w a hm
    obtain ⟨ha, hnumber, haim, hstarter, hmark⟩ := of_decide_eq_true hlook
    have hheap : c.world.heap = w.heap := congrArg (fun m => m.world.heap) hm
    rw [← hheap] at hnumber hmark
    have hc : (c.machine 1).Concludes a (.unwinds (.nonLocal
        (c.world.heap.frame a.frame).activation (.symbol "lent"))) [] := by
      rw [hnumber, hm]
      exact .passes w a [] nofun nofun
    refine ⟨a, _, hc, habsorbs 1 a _ [] hc, ?_, ?_, ?_⟩
    · rw [haim, hstarter]
    · rw [haim, hmark]
    · rw [haim, ha]
      nofun
  · cases hlook

end Crowd

end Parley
