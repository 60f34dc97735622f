import Mathlib.Logic.Function.Iterate
import Parley.Proofs.Check
import Parley.Proofs.Outward

/-!
# Activations of a checked program

An activation of a program that passed the check keeps to the depths that the check found. Its
instructions are executed one by one; a message that it sends, or a global that it reads, lets it
wait, and then it goes on with whatever it is answered, or starts again.

The argument has three parts. One instruction leads where its visit says (`execute_follows`);
so every state of an activation has the depth of its offset (`Run.balanced`); and
every activation of a machine is in such a state, since a machine starts activations at their
first instruction and only lets them execute, answers them or restarts them
(`Machine.step_underway`).
-/

namespace Parley

/-! ### What an instruction comes to -/

/-- What executing an instruction comes to for an activation, given the visit of the instruction:
    it goes on at one of the places that the visit leads to, or waits and will go on at the next
    instruction with an answer, or is left. -/
inductive Activation.Follows (a : Activation) (v : Tape.Visit) (k : List Pending) : Machine → Prop
  | goesOn {w : World} {b : Activation} : b.code = a.code → b.frame = a.frame →
      (b.ip, b.stack.length) ∈ v.next.toList ++ v.branch.toList → Follows a v k ⟨w, .execute b, k⟩
  | waits {w : World} {b : Activation} {job : Job} : b.code = a.code → b.frame = a.frame →
      v.next = some (b.ip, b.stack.length + 1) → job.isOutward →
      Follows a v k ⟨w, job, .sender b :: k⟩
  | ends {w : World} {job : Job} : job.isOutward → Follows a v k ⟨w, job, k⟩

namespace Activation

open Machine (after)

variable {a : Activation} {v : Tape.Visit} {k : List Pending} {w : World}

theorem follows_goOn {ip : Nat} {stack : List Value}
    (h : (ip, stack.length) ∈ v.next.toList ++ v.branch.toList) :
    a.Follows v k (after k (a.goOn ip stack w)) :=
  .goesOn rfl rfl h

theorem follows_goOn_next {ip : Nat} {stack : List Value}
    (h : v.next = some (ip, stack.length)) : a.Follows v k (after k (a.goOn ip stack w)) :=
  follows_goOn (by simp [h])

theorem follows_finish {u : Value} : a.Follows v k (after k (a.finish u w)) :=
  .ends rfl

theorem follows_abandon {u : Unwind} (h : (Job.unwind u).isOutward) :
    a.Follows v k (after k (a.abandon u w)) := by
  cases u with
  | nonLocal activation r =>
    simp only [abandon]
    split
    · exact .ends rfl
    · exact .ends rfl
  | escaped block r => exact .ends rfl
  | restart => exact .ends rfl
  | failed f => exact .ends h

theorem follows_failing {f : Fault} (h : f.isDefect = false) :
    a.Follows v k (after k (a.failing f w)) :=
  follows_abandon (by simp [Job.isOutward, h])

end Activation

/-! ### One instruction -/

namespace Activation

open Machine (after)

variable {a : Activation} {v : Tape.Visit} {k : List Pending} {w : World} {next : Nat}

/-- A variable is pushed and the activation goes on, or it fails by no fault of the tape. -/
theorem pushVariable_cases (a : Activation) (p : Place) (slot level : UInt8) (next : Nat)
    (w : World) :
    (∃ v w', a.pushVariable p slot level next w = a.goOn next (v :: a.stack) w') ∨
      ∃ f w', f.isDefect = false ∧ a.pushVariable p slot level next w = a.failing f w' := by
  rw [pushVariable]
  split
  · exact .inr ⟨_, _, rfl, rfl⟩
  · split
    · split
      · exact .inl ⟨_, _, rfl⟩
      · exact .inr ⟨_, _, rfl, rfl⟩
    · split
      · exact .inl ⟨_, _, rfl⟩
      · exact .inr ⟨_, _, rfl, rfl⟩
    · split
      · split
        · exact .inl ⟨_, _, rfl⟩
        · exact .inr ⟨_, _, rfl, rfl⟩
      · exact .inr ⟨_, _, rfl, rfl⟩

/-- A variable is written and the activation goes on, or it fails by no fault of the tape. -/
theorem popVariable_cases (a : Activation) (p : Place) (slot level : UInt8) (next : Nat)
    (v : Value) (rest : List Value) (w : World) :
    (∃ w', a.popVariable p slot level next v rest w = a.goOn next rest w') ∨
      ∃ f w', f.isDefect = false ∧ a.popVariable p slot level next v rest w = a.failing f w' := by
  rw [popVariable]
  split
  · exact .inr ⟨_, _, rfl, rfl⟩
  · split
    · split
      · exact .inl ⟨_, rfl⟩
      · exact .inr ⟨_, _, rfl, rfl⟩
    · split
      · exact .inl ⟨_, rfl⟩
      · exact .inr ⟨_, _, rfl, rfl⟩
    · split
      · split
        · exact .inl ⟨_, rfl⟩
        · exact .inr ⟨_, _, rfl, rfl⟩
      · exact .inr ⟨_, _, rfl, rfl⟩

theorem pushVariable_follows (h : v.next = some (next, a.stack.length + 1)) (p : Place)
    (slot level : UInt8) : a.Follows v k (after k (a.pushVariable p slot level next w)) := by
  rcases a.pushVariable_cases p slot level next w with ⟨u, w', hu⟩ | ⟨f, w', hf, hu⟩
  · rw [hu]
    exact follows_goOn_next h
  · rw [hu]
    exact follows_failing hf

theorem popVariable_follows {rest : List Value} (h : v.next = some (next, rest.length)) (p : Place)
    (slot level : UInt8) (u : Value) :
    a.Follows v k (after k (a.popVariable p slot level next u rest w)) := by
  rcases a.popVariable_cases p slot level next u rest w with ⟨w', hu⟩ | ⟨f, w', hf, hu⟩
  · rw [hu]
    exact follows_goOn_next h
  · rw [hu]
    exact follows_failing hf

theorem pushClosure_follows (h : v.next = some (next, a.stack.length + 1)) {index : UInt8}
    {c : Code} (hl : a.code.program.literal? index = some (.block c)) (withContext : Bool) :
    a.Follows v k (after k (a.pushClosure withContext index next w)) := by
  rw [pushClosure, hl]
  exact follows_goOn_next h

theorem returnNonLocal_follows (level : UInt8) (u : Value) :
    a.Follows v k (after k (a.returnNonLocal level u w)) := by
  rw [returnNonLocal]
  split
  · exact follows_failing rfl
  · dsimp only
    split
    · exact follows_abandon rfl
    · split
      · exact follows_abandon rfl
      · exact follows_failing rfl

theorem step_follows {rest : List Value} (h : v.next = some (next, rest.length + 1)) (up : Bool)
    (u : Value) : a.Follows v k (after k (a.step up u rest next w)) := by
  rw [step]
  split
  · exact follows_goOn_next h
  · exact follows_failing rfl

theorem withTop_follows {go : Value → List Value → World → Job × World}
    (h : 1 ≤ a.stack.length) (hgo : ∀ u rest, rest.length + 1 = a.stack.length →
      a.Follows v k (after k (go u rest w))) : a.Follows v k (after k (a.withTop w go)) := by
  rw [withTop]
  split
  · rename_i u rest hs
    exact hgo u rest (by simp [hs])
  · rename_i hs
    simp [hs] at h

/-- A jump goes on at its target or behind it, with the depths that its visit names. -/
theorem jump_follows {literals : Array (Literal Code)} {pops pushes : Nat} {j : Jump} {wide : Bool}
    (hv : v.Describes a.code.program.tape literals a.ip a.stack.length (.jump j wide) pops
      pushes) :
    a.Follows v k (after k (a.jump j wide (a.ip + (Opcode.jump j wide).size) w)) := by
  have hbranch := hv.branch
  cases j with
  | always =>
    obtain ⟨rfl, rfl⟩ := hv.effect_eq rfl
    exact follows_goOn (by simp [hbranch, Tape.branch?, Tape.taken])
  | back =>
    obtain ⟨rfl, rfl⟩ := hv.effect_eq rfl
    exact .goesOn rfl rfl (by simp [hbranch, Tape.branch?, Tape.taken])
  | test on leavesNil =>
    obtain ⟨rfl, rfl⟩ := hv.effect_eq rfl
    obtain ⟨enough, hnext⟩ := hv.goesOn rfl rfl
    simp only [jump]
    split
    · rename_i b rest hs
      split
      · -- taken, the condition is kept or nil is left in its place
        refine follows_goOn ?_
        cases leavesNil <;> simp [hbranch, Tape.branch?, Tape.taken, hs]
      · exact follows_goOn_next (by simp [hnext, hs])
    · exact follows_failing rfl
    · rename_i hs
      simp [hs] at enough
  | greater =>
    obtain ⟨rfl, rfl⟩ := hv.effect_eq rfl
    obtain ⟨enough, hnext⟩ := hv.goesOn rfl rfl
    simp only [jump]
    split
    · rename_i top below rest hs
      split
      · exact follows_goOn (by simp [hbranch, Tape.branch?, Tape.taken, hs])
      · exact follows_goOn_next (by simp [hnext, hs])
      · exact follows_failing rfl
    · rename_i hs
      -- Two operands are there, so no other shape of the stack is left.
      rcases hst : a.stack with _ | ⟨top, _ | ⟨below, rest⟩⟩
      · simp [hst] at enough
      · simp [hst] at enough
      · exact absurd hst (hs top below rest)

end Activation

namespace Machine

open Activation

variable {a : Activation} {v : Tape.Visit} {k : List Pending} {w : World}

theorem sendInstruction_follows {index : UInt8} {s : Selector} {next : Nat}
    (hl : a.code.program.literal? index = some (.selector s))
    (henough : s.arity + 1 ≤ a.stack.length)
    (hnext : v.next = some (next, a.stack.length - (s.arity + 1) + 1)) (toSuper : Bool) :
    a.Follows v k (sendInstruction a toSuper index next w k) := by
  rw [sendInstruction, hl]
  dsimp only
  rw [if_neg (Nat.not_lt.2 henough)]
  have hwait : v.next = some (next, (a.stack.drop (s.arity + 1)).length + 1) := by
    rw [List.length_drop, hnext]
  split
  · split
    · exact .waits rfl rfl hwait (superJob_isOutward _ _ _)
    · exact .waits rfl rfl hwait (bindSuper_isOutward _ _ _ _ _ _)
  · exact .waits rfl rfl hwait (sendFrom_isOutward _ _ _ _)

/-- An instruction with operands that suit it comes to what its visit says. -/
theorem instruction_follows {op : Opcode} {pops pushes arguments locals : Nat}
    {marks : Array Bool}
    (hv : v.Describes a.code.program.tape a.code.program.literals a.ip a.stack.length op pops
      pushes)
    (ho : a.code.program.tape.checkOperands a.code.program.literals arguments locals marks a.ip op =
      .ok ()) (hq : op.isQuickened = false) :
    a.Follows v k (instruction a op w k) := by
  cases op with
  | halt => exact follows_finish
  | dup =>
    obtain ⟨enough, hnext⟩ := hv.goesOn rfl rfl
    refine withTop_follows enough fun u rest hs => follows_goOn_next ?_
    simp only [hnext, List.length_cons, Option.some.injEq, Prod.mk.injEq, true_and]
    omega
  | dupSecond =>
    obtain ⟨enough, hnext⟩ := hv.goesOn rfl rfl
    simp only [instruction]
    split
    · rename_i u t rest hs
      exact follows_goOn_next (by simp [hnext, hs])
    · rename_i hs
      rcases hst : a.stack with _ | ⟨u, _ | ⟨t, rest⟩⟩
      · simp [hst] at enough
      · simp [hst] at enough
      · exact absurd hst (hs u t rest)
  | push p =>
    obtain ⟨-, hnext⟩ := hv.goesOn rfl rfl
    exact pushVariable_follows hnext _ _ _
  | pushBlock withContext =>
    obtain ⟨-, hnext⟩ := hv.goesOn rfl rfl
    -- The operand is a block, since no other literal suits the instruction.
    simp only [Tape.checkOperands] at ho
    split at ho
    · cases ho
    · rename_i l hl
      cases l <;> simp [Tape.suits] at ho
      exact pushClosure_follows hnext hl _
  | pushConstant =>
    obtain ⟨-, hnext⟩ := hv.goesOn rfl rfl
    simp only [Tape.checkOperands] at ho
    split at ho
    · cases ho
    · rename_i l hl
      have hl' : a.code.program.literal? (a.code.program.tape.byteAt (a.ip + 1)) = some l := hl
      simp only [instruction, hl']
      cases l with
      | value u => exact follows_goOn_next hnext
      | selector s => exact follows_goOn_next hnext
      | global name => simp [Tape.suits] at ho
      | block c => simp [Tape.suits] at ho
  | pushGlobal =>
    obtain ⟨-, hnext⟩ := hv.goesOn rfl rfl
    simp only [Tape.checkOperands] at ho
    split at ho
    · cases ho
    · rename_i l hl
      have hl' : a.code.program.literal? (a.code.program.tape.byteAt (a.ip + 1)) = some l := hl
      cases l with
      | global name =>
        simp only [instruction, hl']
        exact .waits rfl rfl hnext (readGlobal_isOutward _ _ _ _)
      | value u => simp [Tape.suits] at ho
      | selector s => simp [Tape.suits] at ho
      | block c => simp [Tape.suits] at ho
  | pushSelf | pushNil | pushZero | pushOne =>
    obtain ⟨-, hnext⟩ := hv.goesOn rfl rfl
    exact follows_goOn_next hnext
  | drop =>
    obtain ⟨enough, hnext⟩ := hv.goesOn rfl rfl
    refine withTop_follows enough fun u rest hs => follows_goOn_next ?_
    simp [hnext, ← hs]
  | pop p =>
    obtain ⟨enough, hnext⟩ := hv.goesOn rfl rfl
    refine withTop_follows enough fun u rest hs => popVariable_follows ?_ _ _ _ _
    simp [hnext, ← hs]
  | send toSuper =>
    have heffect := hv.effect
    simp only [Tape.effect] at heffect
    split at heffect
    · rename_i s hl
      -- The receiver and the arguments are taken off, and the answer will be put there.
      obtain ⟨rfl, rfl⟩ : s.arity + 1 = pops ∧ 1 = pushes := by simpa using heffect
      have hnext : v.next = _ := hv.next.trans (if_pos rfl)
      exact sendInstruction_follows hl hv.enough hnext _
    · cases heffect
  | returnLocal =>
    obtain ⟨rfl, rfl⟩ := hv.effect_eq rfl
    exact withTop_follows hv.enough fun _ _ _ => follows_finish
  | returnNonLocal =>
    obtain ⟨rfl, rfl⟩ := hv.effect_eq rfl
    exact withTop_follows hv.enough fun _ _ _ => returnNonLocal_follows _ _
  | returnSelf => exact follows_finish
  | step up =>
    obtain ⟨enough, hnext⟩ := hv.goesOn rfl rfl
    refine withTop_follows enough fun u rest hs => step_follows ?_ _ _
    simp [hnext, ← hs]
  | jump j wide => exact jump_follows hv
  | quickened q => cases hq

end Machine

/-! ### States of a checked program -/

namespace Tape

variable {β : Type} {t : Tape} {literals : Array (Literal β)}

/-- Where a jump is taken to is its target. -/
theorem taken_fst {ip before after target : Nat} {j : Jump} {wide : Bool}
    (h : t.jumpTarget? ip j wide = some target) :
    (t.taken ip j wide before after).1 = target := by
  rw [jumpTarget?] at h
  cases j with
  | back =>
    simp only [if_true] at h
    split at h <;> cases h
    rfl
  | test on leavesNil =>
    simp only [reduceCtorEq, if_false] at h
    split at h <;> cases h
    cases leavesNil <;> rfl
  | always | greater =>
    simp only [reduceCtorEq, if_false] at h
    split at h <;> cases h
    rfl

/-- What a visit leads to starts an instruction. -/
theorem Checked.leads {arguments locals bound : Nat} {depths : Array (Option Nat)}
    (hc : t.Checked literals arguments locals depths bound) {ip depth : Nat} (hip : ip ∈ t.starts)
    {op : Opcode} (ho : t.opcode? ip = some op) {v : Visit} {pops pushes : Nat}
    (hv : v.Describes t literals ip depth op pops pushes) {x : Nat × Nat}
    (hx : x ∈ v.next.toList ++ v.branch.toList) : x.1 ∈ t.starts := by
  rcases List.mem_append.1 hx with hx | hx
  · rw [hv.next] at hx
    split at hx
    · rename_i hf
      obtain rfl : x = _ := by simpa using hx
      exact next_mem_startsFrom hip ho (hv.inside hf)
    · simp at hx
  · rw [hv.branch] at hx
    cases op with
    | jump j wide =>
      obtain rfl : x = _ := by simpa [branch?] using hx
      obtain ⟨target, hmem, htarget⟩ := hc.jumpTarget hip ho
      rw [taken_fst htarget]
      exact hmem
    | _ => simp [branch?] at hx

end Tape

/-- An activation whose stack has the depth that was found for its offset. -/
structure Activation.Placed (a : Activation) (depths : Array (Option Nat)) : Prop where
  starts : a.ip ∈ a.code.program.tape.starts
  depth : depths[a.ip]? = some (some a.stack.length)

/-- What the check of its program promises for an activation about to execute an instruction. -/
structure Activation.Balanced (a : Activation) (depths : Array (Option Nat)) (bound : Nat) :
    Prop where
  /-- It is at an instruction start inside the tape. -/
  starts : a.ip ∈ a.code.program.tape.starts
  inside : a.ip < a.code.program.tape.size
  /-- The stack has the depth that was found for the offset, and no more than the bound. -/
  depth : depths[a.ip]? = some (some a.stack.length)
  bounded : a.stack.length ≤ bound
  /-- The instruction takes off no more than there is. -/
  enough : ∃ op pops pushes, a.code.program.tape.opcode? a.ip = some op ∧
    a.code.program.tape.effect a.code.program.literals a.ip op = .ok (pops, pushes) ∧
      pops ≤ a.stack.length
  /-- A jump leads to an instruction start, taken or not. -/
  lands : ∀ j wide, a.code.program.tape.opcode? a.ip = some (.jump j wide) →
    ∃ target ∈ a.code.program.tape.starts,
      a.code.program.tape.jumpTarget? a.ip j wide = some target
  /-- No defect of the tape is found, an empty stack among them. -/
  sound : ∀ w k f, (Machine.execute a w k).job = .fail f → f.isDefect = false

/-- The check of the program that an activation executes. -/
abbrev Activation.Checked (a : Activation) (arguments locals : Nat) (depths : Array (Option Nat))
    (bound : Nat) : Prop :=
  a.code.program.tape.Checked a.code.program.literals arguments locals depths bound

namespace Activation

variable {a b : Activation} {arguments locals bound : Nat} {depths : Array (Option Nat)}
  {w w' : World} {k : List Pending}

/-- An activation in its place executes its instruction as the visit of it says. -/
theorem Placed.execute_follows (hp : a.Placed depths)
    (hc : a.Checked arguments locals depths bound) : ∃ op v pops pushes,
      a.code.program.tape.opcode? a.ip = some op ∧
      v.Describes a.code.program.tape a.code.program.literals a.ip a.stack.length op pops pushes ∧
      v.peak ≤ bound ∧
      (∀ x ∈ v.next.toList ++ v.branch.toList, depths[x.1]? = some (some x.2)) ∧
      ∀ w k, a.Follows v k (Machine.execute a w k) := by
  obtain ⟨op, ho, hq, -⟩ := hc.whole a.ip hp.starts
  obtain ⟨marks, -, hok⟩ := hc.operands a.ip hp.starts op ho
  obtain ⟨v, hvisit, hpeak, hleads⟩ := hc.settled.visits a.ip _ hp.depth
  obtain ⟨pops, pushes, hv⟩ := Tape.visit_describes hvisit ho
  refine ⟨op, v, pops, pushes, ho, hv, hpeak, hleads, fun w k => ?_⟩
  have hlt := Tape.lt_of_mem_startsFrom hp.starts
  -- The machine reads the same instruction that the check has read.
  rw [Tape.opcode?_of_lt hlt] at ho
  simp only [Machine.execute, Array.getElem?_eq_getElem hlt, ho]
  exact Machine.instruction_follows hv hok hq

theorem Placed.balanced (hp : a.Placed depths) (hc : a.Checked arguments locals depths bound) :
    a.Balanced depths bound := by
  obtain ⟨op, v, pops, pushes, ho, hv, hpeak, -, hf⟩ := hp.execute_follows hc
  have hdepth : a.stack.length ≤ v.peak := by
    rw [hv.peak]
    exact Nat.le_max_right _ _
  refine ⟨hp.starts, Tape.lt_of_mem_startsFrom hp.starts, hp.depth, Nat.le_trans hdepth hpeak,
    ⟨op, pops, pushes, ho, hv.effect, hv.enough⟩, fun j wide hj => hc.jumpTarget hp.starts hj,
    fun w k f hjob => ?_⟩
  -- What an instruction asks for may fail, but not with a defect of the tape.
  have hout : (Job.fail f).isOutward → f.isDefect = false := by
    simp [Job.fail, Job.isOutward]
  have h := hf w k
  generalize Machine.execute a w k = m at h hjob
  cases h with
  | goesOn => cases hjob
  | waits _ _ _ hj =>
    obtain rfl : _ = Job.fail f := hjob
    exact hout hj
  | ends hj =>
    obtain rfl : _ = Job.fail f := hjob
    exact hout hj

/-- Going on, an activation is in its place again. -/
theorem Placed.goesOn (hp : a.Placed depths) (hc : a.Checked arguments locals depths bound)
    (he : Machine.execute a w k = ⟨w', .execute b, k⟩) : b.Placed depths ∧ b.code = a.code := by
  obtain ⟨op, v, pops, pushes, ho, hv, -, hleads, hf⟩ := hp.execute_follows hc
  have h := hf w k
  rw [he] at h
  -- An instruction that waits has something on top of what was pending.
  cases h with
  | goesOn hcode _ hx =>
    refine ⟨⟨?_, hleads _ hx⟩, hcode⟩
    rw [hcode]
    exact hc.leads hp.starts ho hv hx
  | ends hj => cases hj

/-- Answered, an activation that waited is in its place again. -/
theorem Placed.answered (hp : a.Placed depths) (hc : a.Checked arguments locals depths bound)
    {job : Job} (he : Machine.execute a w k = ⟨w', job, .sender b :: k⟩) (u : Value) :
    (b.push u).Placed depths ∧ b.code = a.code := by
  obtain ⟨op, v, pops, pushes, ho, hv, -, hleads, hf⟩ := hp.execute_follows hc
  have h := hf w k
  rw [he] at h
  generalize hk : Pending.sender b :: k = k' at h
  cases h with
  | goesOn => simp at hk
  | waits hcode _ hnext _ =>
    obtain rfl : b = _ := by simpa using hk
    have hx : (b.ip, b.stack.length + 1) ∈ v.next.toList ++ v.branch.toList := by simp [hnext]
    refine ⟨⟨?_, hleads _ hx⟩, hcode⟩
    change b.ip ∈ b.code.program.tape.starts
    rw [hcode]
    exact hc.leads hp.starts ho hv hx
  | ends => simp at hk

/-- At the first instruction, with an empty stack, an activation is in its place. -/
theorem placed_of_first (hc : a.Checked arguments locals depths bound) (hip : a.ip = 0)
    (hstack : a.stack = []) : a.Placed depths := by
  refine ⟨?_, ?_⟩
  · rw [hip]
    exact Tape.mem_startsFrom_self hc.nonempty
  · rw [hip, hstack]
    exact hc.settled.start

end Activation

/-! ### Runs of an activation -/

/-- The states of an activation of a code between its instructions, whatever becomes of the world
    meanwhile, whatever it is answered, and however often it starts again. -/
inductive Activation.Run (code : Code) (f : FrameRef) : Activation → Prop
  | start : Run code f (.start code f)
  | goesOn {a b : Activation} {w w' : World} {k : List Pending} : Run code f a →
      Machine.execute a w k = ⟨w', .execute b, k⟩ → Run code f b
  | answered {a b : Activation} {w w' : World} {job : Job} {k : List Pending} (v : Value) :
      Run code f a → Machine.execute a w k = ⟨w', job, .sender b :: k⟩ → Run code f (b.push v)
  | restarted {a b : Activation} {w w' : World} {job : Job} {k : List Pending} :
      Run code f a → Machine.execute a w k = ⟨w', job, .sender b :: k⟩ → Run code f b.restarted

/-- A state of an activation that waits for the outcome of what it asked for. -/
def Activation.Waits (code : Code) (f : FrameRef) (b : Activation) : Prop :=
  ∃ a w w' job k, Run code f a ∧ Machine.execute a w k = ⟨w', job, .sender b :: k⟩

namespace Activation

variable {code : Code} {f : FrameRef} {a b : Activation} {arguments locals bound : Nat}
  {depths : Array (Option Nat)}

theorem Run.placed
    (hc : code.program.tape.Checked code.program.literals arguments locals depths bound)
    (h : Run code f a) : a.Placed depths ∧ a.code = code := by
  induction h with
  | start => exact ⟨placed_of_first hc rfl rfl, rfl⟩
  | goesOn _ he ih =>
    obtain ⟨hp, rfl⟩ := ih
    exact hp.goesOn hc he
  | answered v _ he ih =>
    obtain ⟨hp, rfl⟩ := ih
    exact hp.answered hc he v
  | @restarted a b _ _ _ _ _ he ih =>
    obtain ⟨hp, rfl⟩ := ih
    have hcode : b.code = a.code := (hp.answered hc he .nil).2
    -- A restarted activation is at the first instruction of the code that it always had.
    have hc' : b.restarted.Checked arguments locals depths bound := by
      change Tape.Checked b.code.program.tape _ _ _ _ _
      exact hcode ▸ hc
    exact ⟨placed_of_first hc' rfl rfl, hcode⟩

theorem Run.balanced
    (hc : code.program.tape.Checked code.program.literals arguments locals depths bound)
    (h : Run code f a) : a.Balanced depths bound := by
  obtain ⟨hp, rfl⟩ := h.placed hc
  exact hp.balanced hc

theorem Waits.answered (h : Waits code f b) (v : Value) : Run code f (b.push v) :=
  let ⟨_, _, _, _, _, hr, he⟩ := h
  .answered v hr he

theorem Waits.restarted (h : Waits code f b) : Run code f b.restarted :=
  let ⟨_, _, _, _, _, hr, he⟩ := h
  .restarted hr he

end Activation

/-! ### Activations of a machine -/

/-- A job that goes on with an activation, if with any, in the same frame. -/
def Job.StaysWith (a : Activation) (job : Job) : Prop :=
  ∀ b, job = .execute b → b.code = a.code ∧ b.frame = a.frame

namespace Activation

variable (a : Activation) (w : World)

theorem goOn_staysWith (ip : Nat) (stack : List Value) :
    (a.goOn ip stack w).1.StaysWith a := by
  rintro b hb
  cases hb
  exact ⟨rfl, rfl⟩

theorem finish_staysWith (v : Value) : (a.finish v w).1.StaysWith a :=
  fun _ hb => by cases hb

theorem abandon_staysWith (u : Unwind) : (a.abandon u w).1.StaysWith a := by
  intro b hb
  unfold abandon at hb
  split at hb
  · split at hb <;> cases hb
  · cases hb

theorem failing_staysWith (f : Fault) : (a.failing f w).1.StaysWith a :=
  a.abandon_staysWith w _

theorem pushVariable_staysWith (p : Place) (slot level : UInt8) (next : Nat) :
    (a.pushVariable p slot level next w).1.StaysWith a := by
  rcases a.pushVariable_cases p slot level next w with ⟨u, w', hu⟩ | ⟨f, w', -, hu⟩
  · rw [hu]
    exact goOn_staysWith _ _ _ _
  · rw [hu]
    exact failing_staysWith _ _ _

theorem popVariable_staysWith (p : Place) (slot level : UInt8) (next : Nat) (v : Value)
    (rest : List Value) : (a.popVariable p slot level next v rest w).1.StaysWith a := by
  rcases a.popVariable_cases p slot level next v rest w with ⟨w', hu⟩ | ⟨f, w', -, hu⟩
  · rw [hu]
    exact goOn_staysWith _ _ _ _
  · rw [hu]
    exact failing_staysWith _ _ _

theorem pushClosure_staysWith (withContext : Bool) (index : UInt8) (next : Nat) :
    (a.pushClosure withContext index next w).1.StaysWith a := by
  rw [pushClosure]
  split
  · exact goOn_staysWith _ _ _ _
  · exact failing_staysWith _ _ _

theorem returnNonLocal_staysWith (level : UInt8) (v : Value) :
    (a.returnNonLocal level v w).1.StaysWith a := by
  rw [returnNonLocal]
  split
  · exact failing_staysWith _ _ _
  · dsimp only
    split
    · exact abandon_staysWith _ _ _
    · split
      · exact abandon_staysWith _ _ _
      · exact failing_staysWith _ _ _

theorem step_staysWith (up : Bool) (v : Value) (rest : List Value) (next : Nat) :
    (a.step up v rest next w).1.StaysWith a := by
  rw [step]
  split
  · exact goOn_staysWith _ _ _ _
  · exact failing_staysWith _ _ _

theorem jump_staysWith (j : Jump) (wide : Bool) (next : Nat) :
    (a.jump j wide next w).1.StaysWith a := by
  unfold jump
  split
  · exact goOn_staysWith _ _ _ _
  · rintro b hb
    cases hb
    exact ⟨rfl, rfl⟩
  · split
    · split
      · exact goOn_staysWith _ _ _ _
      · exact goOn_staysWith _ _ _ _
    · exact failing_staysWith _ _ _
    · exact failing_staysWith _ _ _
  · split
    · split
      · exact goOn_staysWith _ _ _ _
      · exact goOn_staysWith _ _ _ _
      · exact failing_staysWith _ _ _
    · exact failing_staysWith _ _ _

theorem withTop_staysWith {go : Value → List Value → World → Job × World}
    (h : ∀ v rest, (go v rest w).1.StaysWith a) : (a.withTop w go).1.StaysWith a := by
  rw [withTop]
  split
  · exact h _ _
  · exact failing_staysWith _ _ _

end Activation

namespace Machine

open Activation

/-- What is left of an activation after an instruction: it goes on, it waits on top of what was
    pending, or it is left. -/
inductive Stays (a : Activation) (k : List Pending) : Machine → Prop
  | on {w : World} {job : Job} : job.StaysWith a → Stays a k ⟨w, job, k⟩
  | waiting {w : World} {job : Job} {b : Activation} : b.code = a.code → b.frame = a.frame →
      (∀ c, job ≠ .execute c) → Stays a k ⟨w, job, .sender b :: k⟩

variable (a : Activation) (w : World) (k : List Pending)

theorem sendInstruction_stays (toSuper : Bool) (index : UInt8) (next : Nat) :
    Stays a k (sendInstruction a toSuper index next w k) := by
  rw [sendInstruction]
  split
  · dsimp only
    split
    · exact .on (failing_staysWith _ _ _)
    · split
      · split
        · exact .waiting rfl rfl (Job.ne_execute (superJob_isOutward _ _ _))
        · exact .waiting rfl rfl (Job.ne_execute (bindSuper_isOutward _ _ _ _ _ _))
      · exact .waiting rfl rfl (Job.ne_execute (sendFrom_isOutward _ _ _ _))
  · exact .on (failing_staysWith _ _ _)

theorem instruction_stays (op : Opcode) : Stays a k (instruction a op w k) := by
  cases op with
  | halt => exact .on (finish_staysWith _ _ _)
  | dup => exact .on (withTop_staysWith _ _ fun _ _ => goOn_staysWith _ _ _ _)
  | dupSecond =>
    simp only [instruction]
    split
    · exact .on (goOn_staysWith _ _ _ _)
    · exact .on (failing_staysWith _ _ _)
  | push p => exact .on (pushVariable_staysWith _ _ _ _ _ _)
  | pushBlock withContext => exact .on (pushClosure_staysWith _ _ _ _ _)
  | pushConstant =>
    simp only [instruction]
    split
    · exact .on (goOn_staysWith _ _ _ _)
    · exact .on (goOn_staysWith _ _ _ _)
    · exact .on (failing_staysWith _ _ _)
  | pushGlobal => exact .waiting rfl rfl (readGlobal_ne_execute _ _ _ _)
  | pushSelf | pushNil | pushZero | pushOne => exact .on (goOn_staysWith _ _ _ _)
  | drop => exact .on (withTop_staysWith _ _ fun _ _ => goOn_staysWith _ _ _ _)
  | pop p => exact .on (withTop_staysWith _ _ fun _ _ => popVariable_staysWith _ _ _ _ _ _ _ _)
  | send toSuper => exact sendInstruction_stays _ _ _ _ _ _
  | returnLocal => exact .on (withTop_staysWith _ _ fun _ _ => finish_staysWith _ _ _)
  | returnNonLocal =>
    exact .on (withTop_staysWith _ _ fun _ _ => returnNonLocal_staysWith _ _ _ _)
  | returnSelf => exact .on (finish_staysWith _ _ _)
  | step up => exact .on (withTop_staysWith _ _ fun _ _ => step_staysWith _ _ _ _ _ _)
  | jump j wide => exact .on (jump_staysWith _ _ _ _ _)
  | quickened q => exact .on (failing_staysWith _ _ _)

theorem execute_stays : Stays a k (execute a w k) := by
  rw [execute]
  split
  · exact .on (failing_staysWith _ _ _)
  · split
    · exact .on (failing_staysWith _ _ _)
    · exact instruction_stays _ _ _ _

/-- The activations of a code in a machine are in states of runs: the one that executes, and each
    that waits. -/
structure Underway (code : Code) (m : Machine) : Prop where
  executes : ∀ a, m.job = .execute a → a.code = code → a.Run code a.frame
  waits : ∀ a, .sender a ∈ m.pending ∨ .reporter a ∈ m.pending → a.code = code →
    a.Waits code a.frame

variable {code : Code} {w k}

/-- A machine that does not execute an instruction keeps the activations that wait. -/
theorem Underway.of_ne_execute {m : Machine}
    (hw : ∀ a, .sender a ∈ m.pending ∨ .reporter a ∈ m.pending → a.code = code →
      a.Waits code a.frame) (h : ∀ a, m.job ≠ .execute a) : Underway code m :=
  ⟨fun a ha => absurd ha (h a), hw⟩

theorem Underway.execute {w : World} {job : Job} {a : Activation} {k : List Pending}
    (h : Underway code ⟨w, job, k⟩) (ha : job = .execute a) (w : World) :
    Underway code (Machine.execute a w k) := by
  have hs := execute_stays a w k
  generalize he : Machine.execute a w k = m at hs
  -- Whatever the instruction comes to, the activations that waited before still wait.
  cases hs with
  | on hstays =>
    refine ⟨fun b hb hcode => ?_, h.waits⟩
    obtain rfl : _ = Job.execute b := hb
    obtain ⟨hc, hf⟩ := hstays b rfl
    rw [hf]
    exact .goesOn (h.executes a ha (hc ▸ hcode)) he
  | waiting hc hf hne =>
    refine .of_ne_execute (fun b hb hcode => ?_) hne
    rcases hb with hb | hb
    · rcases List.mem_cons.1 hb with hb | hb
      · cases hb
        rw [hf]
        exact ⟨a, _, _, _, _, h.executes a ha (hc ▸ hcode), he⟩
      · exact h.waits b (.inl hb) hcode
    · rcases List.mem_cons.1 hb with hb | hb
      · cases hb
      · exact h.waits b (.inr hb) hcode

/-- A code starts to be executed at its first instruction. -/
theorem enter_cases (c : Code) (arguments : List Value) (context : Option FrameRef) (w : World) :
    (∃ f, (w.enter c arguments context).1 = .execute (.start c f)) ∨
      ∀ a, (w.enter c arguments context).1 ≠ .execute a := by
  rw [World.enter]
  split
  · exact .inl ⟨_, rfl⟩
  · exact .inr fun a ha => by cases ha

theorem Underway.enter {w : World} {job : Job} {k : List Pending}
    (h : Underway code ⟨w, job, k⟩) (c : Code) (arguments : List Value)
    (context : Option FrameRef) (w : World) :
    Underway code (after k (w.enter c arguments context)) := by
  refine ⟨fun a ha hcode => ?_, h.waits⟩
  rcases enter_cases c arguments context w with ⟨f, hf⟩ | hne
  · obtain rfl : Activation.start c f = a := Job.execute.inj (hf.symm.trans ha)
    obtain rfl : c = code := hcode
    exact .start
  · exact absurd ha (hne a)

theorem Underway.tail {w : World} {job : Job} {top : Pending} {k : List Pending}
    (h : Underway code ⟨w, job, top :: k⟩) (a : Activation)
    (ha : .sender a ∈ k ∨ .reporter a ∈ k) (hcode : a.code = code) : a.Waits code a.frame :=
  h.waits a (ha.imp (List.mem_cons_of_mem _) (List.mem_cons_of_mem _)) hcode

theorem Underway.resume {w : World} {job : Job} {top : Pending} {k : List Pending}
    (h : Underway code ⟨w, job, top :: k⟩) (v : Value) (w : World) :
    Underway code (Machine.resume top v w k) := by
  cases top with
  | sender a =>
    refine ⟨fun b hb hcode => ?_, h.tail⟩
    cases hb
    exact (h.waits a (.inl List.mem_cons_self) hcode).answered v
  | reporter a =>
    refine ⟨fun b hb hcode => ?_, h.tail⟩
    cases hb
    exact (h.waits a (.inr List.mem_cons_self) hcode).answered v
  | counting next limit body result => exact .of_ne_execute h.tail (by rintro _ ⟨⟩)
  | cycling left body result => exact .of_ne_execute h.tail (by rintro _ ⟨⟩)
  | sent => exact .of_ne_execute h.tail (by rintro _ ⟨⟩)
  | called => exact .of_ne_execute h.tail (by rintro _ ⟨⟩)

theorem abandon_ne_execute (a : Activation) (u : Unwind) (w : World) (b : Activation) :
    (a.abandon u w).1 ≠ .execute b := by
  unfold abandon
  split
  · split <;> rintro ⟨⟩
  · rintro ⟨⟩

theorem Underway.unwindInto {w : World} {job : Job} {top : Pending} {k : List Pending}
    (h : Underway code ⟨w, job, top :: k⟩) (u : Unwind) (w : World) :
    Underway code (Machine.unwindInto top u w k) := by
  cases top with
  | sender a =>
    have hw := h.waits a (.inl List.mem_cons_self)
    cases u with
    | nonLocal activation v => exact .of_ne_execute h.tail (abandon_ne_execute _ _ _)
    | escaped block v =>
      -- The sender goes on waiting, now for the answer to a report.
      refine .of_ne_execute (fun b hb hcode => ?_) (by rintro _ ⟨⟩)
      rcases hb with hb | hb
      · rcases List.mem_cons.1 hb with hb | hb
        · cases hb
        · exact h.tail b (.inl hb) hcode
      · rcases List.mem_cons.1 hb with hb | hb
        · cases hb
          exact hw hcode
        · exact h.tail b (.inr hb) hcode
    | restart =>
      refine ⟨fun b hb hcode => ?_, h.tail⟩
      -- The only way back to the first instruction.
      cases hb
      exact (hw hcode).restarted
    | failed f => exact .of_ne_execute h.tail (abandon_ne_execute _ _ _)
  | reporter a => exact .of_ne_execute h.tail (abandon_ne_execute _ _ _)
  | counting next limit body result => exact .of_ne_execute h.tail (by rintro _ ⟨⟩)
  | cycling left body result => exact .of_ne_execute h.tail (by rintro _ ⟨⟩)
  | sent => exact .of_ne_execute h.tail (by rintro _ ⟨⟩)
  | called =>
    simp only [Machine.unwindInto]
    split
    · exact .of_ne_execute h.tail (by rintro _ ⟨⟩)
    · exact .of_ne_execute h.tail (by rintro _ ⟨⟩)

theorem Underway.report {w : World} {job : Job} {k : List Pending}
    (h : Underway code ⟨w, job, k⟩) (receiver : Value) (c : Condition) (w : World) :
    Underway code ⟨(Handler.job receiver c w k).2.1, (Handler.job receiver c w k).1,
      (Handler.job receiver c w k).2.2⟩ := by
  refine .of_ne_execute (fun a ha hcode => h.waits a ?_ hcode)
    (Job.ne_execute (Handler.job_isOutward _ _ _ _))
  rcases Handler.job_pending receiver c w k with hk | hk | hk <;> simpa [hk] using ha

/-- A step keeps the activations of a code in states of runs. -/
theorem step_underway {m : Machine} (h : Underway code m) : Underway code m.step := by
  obtain ⟨w, job, k⟩ := m
  cases job with
  | execute a => exact h.execute rfl w
  | send s arguments =>
    refine .of_ne_execute h.waits fun a => ?_
    simp only [step, send]
    split <;> rintro ⟨⟩
  | invoke i arguments =>
    simp only [step, invoke]
    split
    · split
      · exact .of_ne_execute h.waits (Job.ne_execute (Builtin.apply_isOutward _ _ _))
      · exact .of_ne_execute h.waits (by rintro _ ⟨⟩)
    · split
      · exact h.enter _ _ _ _
      · exact .of_ne_execute h.waits (by rintro _ ⟨⟩)
  | evaluate b arguments =>
    simp only [step, evaluate]
    split
    · exact h.enter _ _ _ _
    · exact .of_ne_execute h.waits (by rintro _ ⟨⟩)
  | count next limit body result =>
    simp only [step]
    split
    · exact .of_ne_execute (fun a ha hcode => h.waits a (by simpa using ha) hcode)
        (by rintro _ ⟨⟩)
    · exact .of_ne_execute h.waits (by rintro _ ⟨⟩)
  | cycle left body result =>
    cases left with
    | zero => exact .of_ne_execute h.waits (by rintro _ ⟨⟩)
    | succ left =>
      exact .of_ne_execute (fun a ha hcode => h.waits a (by simpa [step] using ha) hcode)
        (by rintro _ ⟨⟩)
  | report receiver c => exact h.report receiver c _
  | answer v =>
    cases k with
    | nil => exact .of_ne_execute h.waits (by rintro _ ⟨⟩)
    | cons top k => exact h.resume v w
  | unwind u =>
    cases k with
    | nil => exact .of_ne_execute h.waits (by rintro _ ⟨⟩)
    | cons top k => exact h.unwindInto u w
  | hang => exact .of_ne_execute h.waits (by rintro _ ⟨⟩)

/-- So does a run, from a job that does not go on with an activation. -/
theorem iterate_step_underway (w : World) {job : Job} (h : ∀ a, job ≠ .execute a) (n : Nat) :
    Underway code (step^[n] ⟨w, job, []⟩) := by
  induction n with
  | zero => exact .of_ne_execute (by simp) h
  | succ n ih =>
    rw [Function.iterate_succ_apply']
    exact step_underway ih

end Machine

/-- The check of a tape is sound: whatever code has the tape and the literals, each of its
    activations is balanced between any two instructions, whatever the world does meanwhile and
    whatever it is answered. In particular it is so at every moment of a machine that does any
    job in any world. -/
theorem stackBound_sound {t : Tape} {literals : Array (Literal Code)} {arguments locals m : Nat}
    (h : t.stackBound literals arguments locals = .ok m) :
    ∃ depths, t.check literals arguments locals = .ok (depths, m) ∧
      ∀ code : Code, code.program.tape = t → code.program.literals = literals →
        (∀ f a, Activation.Run code f a → a.Balanced depths m) ∧
        ∀ (w : World) (job : Job), (∀ a, job ≠ .execute a) → ∀ n a,
          (Machine.step^[n] ⟨w, job, []⟩).job = .execute a → a.code = code →
            a.Balanced depths m := by
  rw [Tape.stackBound] at h
  cases hcheck : t.check literals arguments locals with
  | error e => simp [hcheck, Except.map] at h
  | ok r =>
    obtain ⟨depths, bound⟩ := r
    obtain rfl : bound = m := by simpa [hcheck, Except.map] using h
    refine ⟨depths, rfl, fun code ht hl => ?_⟩
    -- The check is of a tape and a pool, so that every code with these two passes it.
    have hc : code.program.tape.Checked code.program.literals arguments locals depths bound := by
      rw [ht, hl]
      exact Tape.checked_of_check hcheck
    refine ⟨fun f a ha => ha.balanced hc, fun w job hjob n a ha hcode => ?_⟩
    exact ((Machine.iterate_step_underway w hjob n).executes a ha hcode).balanced hc

/-- A loop that counts from one to a limit in a literal and answers the receiver: it tests with two
    entries on the stack, and leaves with none. -/
def countingTape : Tape :=
  #[8, 0, 13, 30, 7, 0, 23, 31, 4, 0, 22]

/-- The loop passes the check with a bound of two, however often it goes round. -/
theorem stackBound_sound_countingTape :
    countingTape.stackBound (#[.value (.int 9)] : Array (Literal Code)) 1 0 = .ok 2 ∧
      ∃ depths,
        countingTape.check (#[.value (.int 9)] : Array (Literal Code)) 1 0 = .ok (depths, 2) ∧
        ∀ code : Code, code.program.tape = countingTape →
          code.program.literals = #[.value (.int 9)] →
            ∀ f a, Activation.Run code f a → a.Balanced depths 2 := by
  have h : countingTape.stackBound (#[.value (.int 9)] : Array (Literal Code)) 1 0 = .ok 2 := by
    -- The error has no decidable equality, so only the bound is computed.
    have hbound : (countingTape.stackBound (#[.value (.int 9)] : Array (Literal Code)) 1
        0).toOption = some 2 := by
      decide +kernel
    cases hr : countingTape.stackBound (#[.value (.int 9)] : Array (Literal Code)) 1 0 with
    | error e =>
      rw [hr] at hbound
      cases hbound
    | ok m =>
      rw [hr] at hbound
      cases hbound
      rfl
  obtain ⟨depths, hd, hs⟩ := stackBound_sound h
  exact ⟨h, depths, hd, fun code ht hl => (hs code ht hl).1⟩

end Parley
