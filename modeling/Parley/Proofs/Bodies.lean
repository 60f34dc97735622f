import Parley.Proofs.Brackets
import Parley.Proofs.Caches
import Parley.Proofs.Counting
import Parley.Proofs.Settled

/-!
# Bodies of loops in execution

An activation in a part of its program that leaves one value (`Program.Region`) goes on in it, waits
in it, or ends, and what was on its stack before stays where it is (`Activation.Remains`,
`Machine.executes_of_region`).

The codes that are executed in ordinary machines were compiled. So every comparison that one of them
comes to is that of a complete loop over integers (`Machine.Ordinary.counts`).
-/

namespace Parley

variable {w w' : World} {a : Activation} {k : List Pending} {base : List Value}
  {R : Nat → Nat → Prop} {low exit ip n : Nat} {op : Opcode} {ran : FrameRef → Code}

/-! ### Instructions of a part -/

/-- What executing an instruction of a part comes to, above what was on the stack before. `R` are
    the places of the part. -/
inductive Activation.Remains (a : Activation) (base : List Value) (R : Nat → Nat → Prop)
    (k : List Pending) : Machine → Prop
  | goesOn {w : World} {b : Activation} {new : List Value} : b.code = a.code → b.frame = a.frame →
      b.stack = new ++ base → R b.ip new.length → Remains a base R k ⟨w, .execute b, k⟩
  /-- The answer will be one more value. -/
  | waits {w : World} {b : Activation} {job : Job} {new : List Value} : b.code = a.code →
      b.frame = a.frame → b.stack = new ++ base → R b.ip (new.length + 1) →
      (∀ c, job ≠ .execute c) → Remains a base R k ⟨w, job, .sender b :: k⟩
  | ends {w : World} {job : Job} : job.isOutcome → Remains a base R k ⟨w, job, k⟩

namespace Activation

open Machine (after)

theorem remains_goOn {next : Nat} {new stack : List Value} (hstack : stack = new ++ base)
    (h : R next new.length) : a.Remains base R k (after k (a.goOn next stack w)) :=
  .goesOn rfl rfl hstack h

theorem remains_finish {v : Value} : a.Remains base R k (after k (a.finish v w)) :=
  .ends rfl

theorem abandon_isOutcome (a : Activation) (u : Unwind) (w : World) :
    (a.abandon u w).1.isOutcome := by
  rw [a.abandon_fst u w]
  rcases u.ending_job (w.heap.frame a.frame).activation with ⟨v, h⟩ | h <;> rw [h] <;> rfl

theorem remains_abandon {u : Unwind} : a.Remains base R k (after k (a.abandon u w)) :=
  .ends (a.abandon_isOutcome u w)

theorem remains_failing {f : Fault} : a.Remains base R k (after k (a.failing f w)) :=
  remains_abandon

theorem remains_withTop {new : List Value} (hstack : a.stack = new ++ base) (hn : 1 ≤ new.length)
    {go : Value → List Value → World → Job × World}
    (h : ∀ v rest, new = v :: rest → a.Remains base R k (after k (go v (rest ++ base) w))) :
    a.Remains base R k (after k (a.withTop w go)) := by
  obtain ⟨v, rest, rfl⟩ := List.exists_cons_of_length_pos hn
  rw [withTop, hstack]
  exact h v rest rfl

end Activation

theorem Tape.eq_of_jumpTarget? {t : Tape} {j : Jump} {wide : Bool} {target : Nat}
    (h : t.jumpTarget? ip j wide = some target) :
    target = if j = .back then ip - t.distance ip wide else ip + t.distance ip wide := by
  simp only [jumpTarget?] at h
  split_ifs at h ⊢
  all_goals exact (Option.some.inj h).symm

theorem Program.LeadsTo.next {p : Program Code} (h : p.LeadsTo R ip n op) {pops pushes : Nat}
    (he : p.tape.effect p.literals ip op = .ok (pops, pushes)) (hf : Tape.fallsThrough op) :
    pops ≤ n ∧ R (ip + op.size) (n - pops + pushes) := by
  obtain ⟨pops', pushes', he', hle, hfalls⟩ := h.effect
  obtain ⟨rfl, rfl⟩ := Prod.mk.inj (Except.ok.inj (he.symm.trans he'))
  exact ⟨hle, hfalls hf⟩

namespace Machine

open Activation

variable {new : List Value}

theorem jump_remains {j : Jump} {wide : Bool}
    (h : a.code.program.LeadsTo R a.ip new.length (.jump j wide)) (hstack : a.stack = new ++ base) :
    a.Remains base R k (after k (a.jump j wide (a.ip + (Opcode.jump j wide).size) w)) := by
  obtain ⟨target, htarget, hlands⟩ := h.jump j wide rfl
  have heq := Tape.eq_of_jumpTarget? htarget
  unfold jump
  cases j with
  | always =>
    rw [if_neg nofun] at heq
    exact remains_goOn hstack (heq ▸ hlands)
  | back =>
    rw [if_pos rfl] at heq
    exact .goesOn rfl rfl hstack (heq ▸ hlands)
  | test on leavesNil =>
    obtain ⟨hpops, hnext⟩ := h.next rfl rfl
    obtain ⟨v, rest, rfl⟩ := List.exists_cons_of_length_pos hpops
    rw [if_neg nofun] at heq
    simp only [hstack]
    split
    · rename_i heq'
      obtain ⟨rfl, rfl⟩ := List.cons.inj heq'
      split
      · cases leavesNil with
        | true => exact remains_goOn (show _ = Value.nil :: rest ++ base from rfl) (heq ▸ hlands)
        | false => exact remains_goOn rfl (heq ▸ hlands)
      · exact remains_goOn rfl hnext
    · exact remains_failing
    · rename_i heq'
      cases heq'
  | greater =>
    obtain ⟨hpops, hnext⟩ := h.next rfl rfl
    rw [if_neg nofun] at heq
    obtain ⟨top, rest', rfl⟩ := List.exists_cons_of_length_pos
      (Nat.lt_of_lt_of_le Nat.zero_lt_two hpops)
    obtain ⟨below, rest, rfl⟩ := List.exists_cons_of_length_pos (Nat.le_of_succ_le_succ hpops)
    simp only [hstack, List.cons_append]
    split
    · exact remains_goOn rfl (heq ▸ hlands)
    · exact remains_goOn (show _ = top :: below :: rest ++ base from rfl) hnext
    · exact remains_failing

theorem sendInstruction_remains {toSuper : Bool} {index : UInt8} {next : Nat} {selector : Selector}
    (hl : a.code.program.literal? index = some (.selector selector))
    (hstack : a.stack = new ++ base)
    (hpops : selector.arity + 1 ≤ new.length)
    (hR : R next (new.length - (selector.arity + 1) + 1)) :
    a.Remains base R k (sendInstruction a toSuper index next w k) := by
  rw [sendInstruction, hl]
  dsimp only
  have hlength : selector.arity + 1 ≤ a.stack.length := by
    rw [hstack, List.length_append]
    omega
  rw [if_neg (Nat.not_lt.2 hlength)]
  have hdrop : a.stack.drop (selector.arity + 1) = new.drop (selector.arity + 1) ++ base := by
    rw [hstack, List.drop_append_of_le_length hpops]
  have hwaits : R next ((new.drop (selector.arity + 1)).length + 1) := by
    rwa [List.length_drop]
  split
  · split
    · exact .waits rfl rfl hdrop hwaits (Job.ne_execute (superJob_isOutward _ _ _))
    · exact .waits rfl rfl hdrop hwaits (Job.ne_execute (bindSuper_isOutward _ _ _ _ _ _))
  · exact .waits rfl rfl hdrop hwaits (Job.ne_execute (sendFrom_isOutward _ _ _ _))

theorem readGlobal_ne_execute (l : Location) (literal : Option (Literal Code)) (receiver : Value)
    (w : World) (c : Activation) : (readGlobal l literal receiver w).1 ≠ .execute c := by
  have hcell : ∀ cell w, readCell cell receiver w ≠ .execute c := by
    intro cell w
    rw [readCell]
    split <;> nofun
  unfold readGlobal
  split
  · exact hcell _ _
  · nofun
  · split
    · exact hcell _ _
    · nofun

theorem instruction_remains (h : a.code.program.LeadsTo R a.ip new.length op)
    (hstack : a.stack = new ++ base) : a.Remains base R k (instruction a op w k) := by
  -- An instruction that puts a value on the stack and goes on behind itself.
  have hpush : ∀ {v : Value} {w' : World}, a.code.program.tape.effect a.code.program.literals a.ip
      op = .ok (0, 1) → Tape.fallsThrough op →
        a.Remains base R k (after k (a.goOn (a.ip + op.size) (v :: a.stack) w')) := by
    intro v w' he hf
    obtain ⟨-, hnext⟩ := h.next he hf
    exact remains_goOn (show _ = v :: new ++ base from hstack ▸ rfl) hnext
  cases op with
  | halt | returnSelf => exact remains_finish
  | dup =>
    obtain ⟨hpops, hnext⟩ := h.next rfl rfl
    refine remains_withTop hstack hpops fun v rest hnew => ?_
    subst hnew
    exact remains_goOn (show _ = v :: v :: rest ++ base from rfl) hnext
  | dupSecond =>
    obtain ⟨hpops, hnext⟩ := h.next rfl rfl
    obtain ⟨v, rest', rfl⟩ := List.exists_cons_of_length_pos
      (Nat.lt_of_lt_of_le Nat.zero_lt_two hpops)
    obtain ⟨u, rest, rfl⟩ := List.exists_cons_of_length_pos (Nat.le_of_succ_le_succ hpops)
    simp only [instruction, hstack, List.cons_append]
    exact remains_goOn (show _ = u :: v :: u :: rest ++ base from rfl) hnext
  | push place =>
    simp only [instruction]
    rcases a.pushVariable_cases place (a.code.program.tape.byteAt (a.ip + 1))
      (a.code.program.tape.byteAt (a.ip + 2)) (a.ip + (Opcode.push place).size) w with
      ⟨v, w', hv⟩ | ⟨f, w', -, hf⟩
    · rw [hv]
      exact hpush rfl rfl
    · rw [hf]
      exact remains_failing
  | pushBlock withContext =>
    simp only [instruction, pushClosure]
    split
    · exact hpush rfl rfl
    · exact remains_failing
  | pushConstant =>
    simp only [instruction]
    split
    · exact hpush rfl rfl
    · exact hpush rfl rfl
    · exact remains_failing
  | pushGlobal =>
    obtain ⟨-, hnext⟩ := h.next rfl rfl
    simp only [instruction]
    exact .waits rfl rfl hstack hnext (readGlobal_ne_execute _ _ _ _)
  | pushSelf | pushNil | pushZero | pushOne => exact hpush rfl rfl
  | drop =>
    obtain ⟨hpops, hnext⟩ := h.next rfl rfl
    refine remains_withTop hstack hpops fun v rest hnew => ?_
    subst hnew
    exact remains_goOn rfl hnext
  | pop place =>
    obtain ⟨hpops, hnext⟩ := h.next rfl rfl
    refine remains_withTop hstack hpops fun v rest hnew => ?_
    subst hnew
    rcases a.popVariable_cases place (a.code.program.tape.byteAt (a.ip + 1))
      (a.code.program.tape.byteAt (a.ip + 2)) (a.ip + (Opcode.pop place).size) v (rest ++ base)
        w with
      ⟨w', hv⟩ | ⟨f, w', -, hf⟩
    · rw [hv]
      exact remains_goOn rfl hnext
    · rw [hf]
      exact remains_failing
  | send toSuper =>
    obtain ⟨pops, pushes, he, -⟩ := h.effect
    simp only [Tape.effect] at he
    split at he
    · rename_i selector hl
      have heffect : a.code.program.tape.effect a.code.program.literals a.ip (.send toSuper) =
          .ok (selector.arity + 1, 1) := by
        simp only [Tape.effect, hl]
      obtain ⟨hpops, hnext⟩ := h.next heffect rfl
      exact sendInstruction_remains hl hstack hpops hnext
    · cases he
  | returnLocal =>
    obtain ⟨_, _, he, hpops, -⟩ := h.effect
    cases he
    exact remains_withTop hstack hpops fun _ _ _ => remains_finish
  | returnNonLocal =>
    obtain ⟨_, _, he, hpops, -⟩ := h.effect
    cases he
    refine remains_withTop hstack hpops fun _ _ _ => ?_
    rw [returnNonLocal]
    split
    · exact remains_failing
    · extract_lets target
      split
      · exact remains_abandon
      · split
        · exact remains_abandon
        · exact remains_failing
  | step up =>
    obtain ⟨hpops, hnext⟩ := h.next rfl rfl
    refine remains_withTop hstack hpops fun v rest hnew => ?_
    subst hnew
    rw [Activation.step]
    split
    · rename_i stepped _
      exact remains_goOn (show _ = stepped :: rest ++ base from rfl) hnext
    · exact remains_failing
  | jump j wide => exact jump_remains h hstack
  | quickened q => exact remains_failing

/-- An activation in a part of its program goes on there, or waits, or ends. -/
theorem executes_of_region (h : a.code.program.Region low exit R) (hR : R a.ip new.length)
    (hip : a.ip < exit) (hstack : a.stack = new ++ base) (w : World) (k : List Pending) :
    a.Remains base R k (step ⟨w, .execute a, k⟩) := by
  obtain ⟨-, op, first, second, hr, -, hleads⟩ := h.leads _ _ hR hip
  rw [step_execute hr.opcode]
  exact instruction_remains hleads hstack

end Machine

/-! ### Compiled codes -/

/-- A world in which every comparison of a code is that of a loop over integers. -/
def World.Loops (w : World) : Prop :=
  ∀ c ∈ w.codes, c.Loops

theorem Code.Loops.has {l m : Literal Code} (h : l.Has m) (hl : ∀ c, l = .block c → c.Loops) :
    ∀ c, m = .block c → c.Loops := by
  induction h with
  | self => exact hl
  | inside hm _ ih =>
    refine ih fun b hb => ?_
    obtain ⟨-, hblocks⟩ := hl _ rfl
    exact hblocks b (hb ▸ hm)

theorem Code.loops_default : (default : Code).Loops :=
  .intro (fun _ hip => absurd (Tape.lt_of_mem_startsFrom hip) (Nat.not_lt_zero _))
    fun _ hb => absurd hb (Array.not_mem_empty _)

namespace World

theorem compile_loops (h : w.Loops) (c : ClassRef) (m : MethodTree) (inlining : Bool) :
    (w.compile c m inlining).2.Loops := by
  intro d hd
  rcases (w.compile_codes c m inlining).1 d hd with hd | hd
  · exact h d hd
  · unfold compile at hd
    extract_lets l w₁ w₂ at hd
    split at hd
    · cases hd
    · rename_i hcode
      cases hd
      exact lower_loops hcode

theorem define_loops (h : w.Loops) (c : ClassRef) (m : MethodTree) : (w.define c m).2.Loops := by
  have hcompile := compile_loops h c m w.settings.inlining
  rw [define]
  split
  · rename_i hr
    rw [hr] at hcompile
    exact hcompile
  · rename_i hr
    rw [hr] at hcompile
    exact hcompile

theorem defineAll_loops (h : w.Loops) (c : ClassRef) (ms : List MethodTree) :
    (w.defineAll c ms).2.Loops := by
  induction ms generalizing w with
  | nil => exact h
  | cons m rest ih =>
    have hd := define_loops h c m
    rw [defineAll]
    split
    · rename_i hr
      rw [hr] at hd
      exact hd
    · rename_i hr
      rw [hr] at hd
      exact ih hd

theorem loops_of_codes (h : w.Loops) (hw : w'.codes = w.codes) : w'.Loops :=
  fun c hc => h c (hw ▸ hc)

theorem bare_loops (settings : Settings) (handler : Handler) (sink : Sink) (watched : Bool) :
    (bare settings handler sink watched).Loops := by
  rintro c ⟨⟩

theorem boot_loops (settings : Settings) (handler : Handler) (sink : Sink) (watched : Bool) :
    (boot settings handler sink watched).Loops := by
  unfold boot installLibrary
  extract_lets w₁
  have h₁ : w₁.Loops := by
    refine List.foldlRecOn (motive := fun w : World => w.Loops) _ _ (bare_loops _ _ _ _)
      fun w h e _ => ?_
    exact List.foldlRecOn (motive := fun w : World => w.Loops) _ _ h fun w h p _ => h
  have h₂ := defineAll_loops h₁ Core.block Library.loops
  generalize w₁.defineAll Core.block Library.loops = r at h₂ ⊢
  obtain ⟨_, w₂⟩ := r
  dsimp only at h₂ ⊢
  have h₃ : w₂.bindClasses.Loops :=
    List.foldlRecOn (motive := fun w : World => w.Loops) _ _ h₂ fun w h _ _ => h
  exact loops_of_codes h₃ (congrArg Stage.codes (note_stage _ _))

theorem Prepares.loops (hp : w.Prepares w') (h : w.Loops) : w'.Loops := by
  cases hp with
  | compile m inlining hc => exact compile_loops h _ m inlining
  | addField c name => exact loops_of_codes h (congrArg Stage.codes (note_stage _ _))
  | _ => exact h

end World

namespace Machine

variable {m m' : Machine}

theorem Next.loops (h : m.Settled ran) (hn : m.Next m') (hl : m.world.Loops) : m'.world.Loops := by
  cases hn with
  | step =>
    obtain ⟨heap, activations, hstage⟩ := h.moves.stage
    exact World.loops_of_codes hl (congrArg Stage.codes hstage)
  | prepare hp => exact hp.loops hl
  | turn _ _ _ _ _ _ hcodes _ => exact World.loops_of_codes hl hcodes
  | _ => exact hl

theorem Ordinary.loops (h : m.Ordinary ran) : m.world.Loops := by
  induction h with
  | bare settings handler sink watched => exact World.bare_loops settings handler sink watched
  | boot settings handler sink watched =>
    have h := World.boot_loops settings handler sink watched
    generalize World.boot settings handler sink watched = w at h ⊢
    exact h
  | next h hn ih => exact hn.loops h.settled ih

/-- Where an activation comes to a comparison, it is in a complete loop over integers. -/
theorem Ordinary.counts (h : m.Ordinary ran) (ha : m.job = .execute a) {wide : Bool}
    (hip : ip ∈ a.code.program.tape.starts)
    (hop : a.code.program.tape.opcode? ip = some (.jump .greater wide)) :
    ∃ entry exit slot, ip = entry + 1 ∧ a.code.program.Counts entry exit slot := by
  obtain ⟨s, hs⟩ := h.settled.stock
  have hjob := hs.job
  rw [ha] at hjob
  have hloops : a.code.Loops := by
    rcases hjob.code with hd | hwritten
    · exact hd ▸ Code.loops_default
    · rw [hs.world.written] at hwritten
      obtain ⟨c, hc, hpart⟩ := hwritten
      refine Code.Loops.has hpart (fun d hd => ?_) _ rfl
      cases hd
      exact h.loops c hc
  obtain ⟨hloops, -⟩ := hloops
  exact hloops ip hip wide hop

end Machine

end Parley
