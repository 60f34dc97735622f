import Mathlib.Data.List.Pairwise
import Parley.Machine.Workload
import Parley.Proofs.Remaining
import Parley.Proofs.Replaying
import Parley.Proofs.Unrolling

/-!
# Code that is executed in place

The instructions that make closures are one for one the blocks that remain of a method, in the code
of the method and in the codes of these blocks (`lower_pushes_remaining`). If none remains, an
activation of the method makes no closure, and while it executes its own code no frame either,
however often it goes round its loops: frames are made for the messages that it sends
(`Code.InPlace`).

* `Code.Lexical.pushesEach`: of each block in a pool just one instruction makes a closure;
* `Machine.Settled.makesNothing`: a step of a code without blocks makes neither closures nor frames;
* `Machine.Ordinary.during`: until an activation is over, it is executed in its own frame, or waits
  for what it has asked.
-/

namespace Parley

/-! ### One instruction for each block -/

theorem BlockTree.signatures_sublist {t : BlockTree} {ts : List BlockTree} (h : t ∈ ts) :
    t.signatures.Sublist (allSignatures ts) := by
  induction ts with
  | nil => cases h
  | cons u rest ih =>
    rw [allSignatures]
    rcases List.mem_cons.1 h with rfl | h
    · exact List.sublist_append_left _ _
    · exact (ih h).trans (List.sublist_append_right _ _)

/-- The signatures of codes are among those in their trees. -/
theorem BlockTree.map_signature_sublist (cs : List Code) :
    (cs.map Code.signature).Sublist (allSignatures (cs.map Code.tree)) := by
  induction cs with
  | nil => exact .slnil
  | cons c rest ih =>
    rw [List.map_cons, List.map_cons, allSignatures, Code.tree_eq, signatures, List.cons_append]
    exact (ih.trans (List.sublist_append_right _ _)).cons_cons _

/-- What is inside a code is among what it is made of. -/
theorem Code.Within.signatures_sublist {c d : Code} {k : Nat} {env : List Outline}
    (h : c.Within k d) (hc : c.Lexical env) :
    (BlockTree.allSignatures d.program.closures).Sublist
      (BlockTree.allSignatures c.program.closures) := by
  induction h generalizing env with
  | self => exact .refl _
  | @inside b c d k hb _ ih =>
    obtain ⟨D, hD⟩ := hc.labelled
    have hmem : b.tree ∈ c.program.closures :=
      List.mem_map_of_mem (hD.mem_pushed (Code.mem_blocks.1 hb))
    have hinner := BlockTree.signatures_sublist hmem
    rw [b.tree_eq, BlockTree.signatures] at hinner
    exact (ih (hc.block hb)).trans ((List.sublist_cons_self _ _).trans hinner)

/-- The instructions of a program that make closures are one for one the blocks in its pool. -/
structure Program.PushesEach (p : Program Code) : Prop where
  /-- Each of them makes a closure of a block of the pool. -/
  supplied : ∀ ip ∈ p.tape.starts, ∀ withContext, p.tape.opcode? ip =
    some (.pushBlock withContext) →
    ∃ b, p.literal? (p.tape.byteAt (ip + 1)) = some (.block b)
  /-- Of each block of the pool just one of them makes a closure. -/
  once : ∀ (i : Nat) b, p.literals[i]? = some (.block b) → ∃! ip, ip ∈ p.tape.starts ∧
    (∃ withContext, p.tape.opcode? ip = some (.pushBlock withContext)) ∧
      (p.tape.byteAt (ip + 1)).toNat = i

/-- No block of a pool is pushed twice if no two blocks that are pushed have the same signature. -/
theorem Code.Lexical.pushesEach {c : Code} {env : List Outline} (h : c.Lexical env)
    (hnodup : (BlockTree.allSignatures c.program.closures).Nodup) : c.program.PushesEach := by
  obtain ⟨D, hD⟩ := h.labelled
  refine ⟨fun ip hip withContext hop => ?_, fun i b hi => ?_⟩
  · obtain ⟨b, hb⟩ := hD.exists_pushedAt? hip hop
    obtain ⟨-, -, hb⟩ := Program.exists_of_pushedAt? hb
    exact ⟨b, Program.blockAt?_eq_some.1 hb⟩
  · obtain ⟨ip, hip, withContext, first, second, hr, rfl⟩ := hD.pushed i b hi
    have hindex : c.program.tape.byteAt (ip + 1) = first := hr.first (by simp [Opcode.size])
    refine ⟨ip, ⟨hip, ⟨withContext, hr.opcode⟩, by rw [hindex]⟩, ?_⟩
    rintro ip' ⟨hip', ⟨withContext', hop'⟩, hindex'⟩
    have hb : c.program.pushedAt? ip = some b :=
      (Program.pushedAt?_of_pushBlock hr).trans (Program.blockAt?_eq_some.2 hi)
    have hb' : c.program.pushedAt? ip' = some b := by
      rw [Program.pushedAt?, hop']
      dsimp only
      rw [hindex', Program.blockAt?_eq_some.2 hi]
    -- Both make a closure of the block, which is pushed but once.
    have hpushed : c.program.pushed.Nodup :=
      .of_map _ ((BlockTree.map_signature_sublist _).nodup hnodup)
    let Apart (i j : Nat) : Prop := ∀ b, c.program.pushedAt? i = some b →
      ∀ b', c.program.pushedAt? j = some b' → b ≠ b'
    have : Std.Symm Apart := ⟨fun _ _ h b hb b' hb' he => h b' hb' b hb he.symm⟩
    have hapart : c.program.tape.starts.Pairwise Apart := List.pairwise_filterMap.1 hpushed
    by_contra hne
    exact hapart.forall hip' hip hne b hb' b hb rfl

/-! ### Steps of a code without blocks -/

/-- Of a code without blocks no closure is made. -/
theorem Activation.Updates.closures {a : Activation} {s s' : Stage} (hu : a.Updates s s')
    (hnone : a.code.blocks = []) : s'.heap.closures = s.heap.closures := by
  cases hu with
  | nothing | setLocal | setArgument => rfl
  | close _ hl =>
    have hmem := Code.mem_blocks.2 (Array.mem_of_getElem? hl)
    rw [hnone] at hmem
    cases hmem

namespace Machine

variable {m m' : Machine} {ran : FrameRef → Code} {a : Activation} {f : FrameRef} {code : Code}
  {k : List Pending}

/-- The next step of a machine makes no closure and no frame. -/
structure MakesNothing (m : Machine) : Prop where
  closures : m.step.world.heap.closures = m.world.heap.closures
  frames : m.step.world.heap.frames.size = m.world.heap.frames.size

theorem Moves.makesNothing (hm : Moves m m') (ha : m.job = .execute a)
    (hnone : a.code.blocks = []) :
    m'.world.stage.heap.closures = m.world.stage.heap.closures ∧
      m'.world.stage.heap.frames.size = m.world.stage.heap.frames.size := by
  cases hm with
  | does hd =>
    obtain rfl := Job.execute.inj ha
    cases hd with
    | goesOn _ _ hu => exact ⟨hu.closures hnone, (Heap.like_updates hu).size⟩
    | ends _ hstage | raises _ _ hstage =>
      exact ⟨congrArg (fun s => s.heap.closures) hstage,
        (congrArg (fun s => s.heap.frames.size) hstage).trans (Heap.like_leave _ _ _).size⟩
  | asks _ _ _ hstage =>
    exact ⟨congrArg (fun s => s.heap.closures) hstage,
      congrArg (fun s => s.heap.frames.size) hstage⟩
  | enters he _ =>
    subst ha
    cases he
  | works hne => exact absurd ha (hne a)
  | rests => exact ⟨rfl, rfl⟩
  | _ => cases ha

/-- An activation of a code without blocks makes nothing in a step. -/
theorem Settled.makesNothing (h : m.Settled ran) (ha : m.job = .execute a)
    (hnone : a.code.blocks = []) : m.MakesNothing :=
  let ⟨hclosures, hframes⟩ := h.moves.makesNothing ha hnone
  ⟨hclosures, hframes⟩

/-! ### Runs -/

/-- A machine that executes a code in a frame, on top of `k`. -/
def Executes (m : Machine) (f : FrameRef) (code : Code) (k : List Pending) : Prop :=
  ∃ a, m.job = .execute a ∧ a.frame = f ∧ a.code = code ∧ m.pending = k

/-- A machine in which an activation of a code in a frame waits on top of `k` for what it has asked:
    a message that it has sent, or a global that it has read. -/
def Awaits (m : Machine) (f : FrameRef) (code : Code) (k : List Pending) : Prop :=
  ∃ (p : Pending) (a b : Activation), a.frame = f ∧ a.code = code ∧ a.Asks b ∧
    p.activation? = some b ∧ p :: k <:+ m.pending

/-- What was on top of `k` has come to a value, or was left. -/
structure IsOver (m : Machine) (k : List Pending) : Prop where
  job : m.job.isOutcome
  pending : m.pending = k

/-- One machine after another, until what is on top of `k` is over. -/
def During (k : List Pending) : Machine → Machine → Prop :=
  Relation.ReflTransGen fun m m' => ¬ m.IsOver k ∧ m.Next m'

theorem During.later (h : During k m m') : m.Later m' := by
  induction h with
  | refl => exact .refl
  | tail _ hn ih => exact ih.tail hn.2

/-- What comes next of a machine that executes a code in a frame. -/
theorem Executes.next (h : m.Executes f code k) (hs : m.Settled ran) (hn : m.Next m') :
    m'.IsOver k ∨ m'.Awaits f code k ∨ m'.Executes f code k := by
  obtain ⟨a, ha, rfl, rfl, rfl⟩ := h
  by_cases hne : m' = m.step
  · have hmoves := hs.moves
    rw [← hne] at hmoves
    obtain ⟨w, job, k⟩ := m
    obtain rfl : job = .execute a := ha
    clear hs hn hne
    cases hmoves with
    | does hd =>
      cases hd with
      | goesOn hcode hframe => exact .inr (.inr ⟨_, rfl, hframe, hcode, rfl⟩)
      | ends => exact .inl ⟨rfl, rfl⟩
      | @raises u job w' _ hjob =>
        subst hjob
        exact .inl ⟨u.ending_isOutcome _, rfl⟩
    | asks hasks => exact .inr (.inl ⟨_, a, _, rfl, rfl, hasks, rfl, List.suffix_rfl⟩)
    | enters he => cases he
    | works hne => exact absurd rfl (hne a)
    | rests hfinal => cases hfinal
  · rw [hn.prepares hne ha rfl nofun]
    exact .inr (.inr ⟨a, ha, rfl, rfl, rfl⟩)

/-- What comes next of a machine in which an activation waits. -/
theorem Awaits.next (h : m.Awaits f code k) (hs : m.Settled ran) (hn : m.Next m') :
    m'.IsOver k ∨ m'.Awaits f code k ∨ m'.Executes f code k := by
  obtain ⟨p, a, b, rfl, rfl, hasks, hp, hk⟩ := h
  by_cases hne : m' = m.step
  · subst hne
    by_cases hend : m.job.isOutcome ∧ m.pending = p :: k
    -- The activation is told the outcome of what it has asked for.
    · obtain ⟨w, job, k'⟩ := m
      obtain rfl : k' = p :: k := hend.2
      have hby := settledBy hp hend.1 w k
      generalize Machine.step _ = m' at hby
      cases hby with
      | value | restart => exact .inr (.inr ⟨_, rfl, hasks.frame, hasks.code, rfl⟩)
      | escaped => exact .inr (.inl ⟨_, a, b, rfl, rfl, hasks, rfl, List.suffix_rfl⟩)
      | @ending u => exact .inl ⟨u.ending_isOutcome _, rfl⟩
    · obtain ⟨s, hsound⟩ := hs.stock
      exact .inr (.inl ⟨p, a, b, rfl, rfl, hasks, hp,
        step_keeps hsound hk fun ho hk' => hend ⟨ho, hk'⟩⟩)
  · refine .inr (.inl ⟨p, a, b, rfl, rfl, hasks, hp, hn.keeps hne ?_ hk⟩)
    rintro rfl
    cases hp

/-- Until an activation is over it is executed in its frame, or waits. -/
theorem Ordinary.during (h : m.Ordinary ran) (ha : m.job = .execute a)
    (hd : During m.pending m m') :
    m'.IsOver m.pending ∨ m'.Awaits a.frame a.code m.pending ∨
      m'.Executes a.frame a.code m.pending := by
  induction hd with
  | refl => exact .inr (.inr ⟨a, ha, rfl, rfl, rfl⟩)
  | tail hd hn ih =>
    obtain ⟨ran', h'⟩ := h.later (During.later hd)
    rcases ih with hover | hawaits | hexecutes
    · exact absurd hover hn.1
    · exact hawaits.next h'.settled hn.2
    · exact hexecutes.next h'.settled hn.2

end Machine

/-- Until an activation of a code is over, it executes the code in its own frame and makes nothing,
    or waits for a message that it has sent. -/
def Code.InPlace (code : Code) : Prop :=
  ∀ (m : Machine) (ran : FrameRef → Code) (a : Activation), m.Ordinary ran → m.job = .execute a →
    a.code = code → ∀ m', Machine.During m.pending m m' →
      m'.IsOver m.pending ∨ m'.Awaits a.frame code m.pending ∨
        m'.Executes a.frame code m.pending ∧ m'.MakesNothing

theorem Code.inPlace {code : Code} (hnone : code.blocks = []) : code.InPlace := by
  rintro m ran a h ha rfl m' hd
  refine (h.during ha hd).imp_right (Or.imp_right fun hexecutes => ⟨hexecutes, ?_⟩)
  obtain ⟨ran', h'⟩ := h.later hd.later
  obtain ⟨b, hb, -, hcode, -⟩ := hexecutes
  exact h'.settled.makesNothing hb (hcode ▸ hnone)

/-- Only a code without blocks makes no closure. -/
theorem Code.Lexical.blocks_eq_nil {c : Code} {env : List Outline} (h : c.Lexical env)
    (hnone : c.program.closures = []) : c.blocks = [] := by
  obtain ⟨D, hD⟩ := h.labelled
  rw [List.eq_nil_iff_forall_not_mem]
  intro b hb
  have hmem : b.tree ∈ c.program.closures :=
    List.mem_map_of_mem (hD.mem_pushed (Code.mem_blocks.1 hb))
  rw [hnone] at hmem
  cases hmem

/-- The instructions that make closures in the code of a method, and in the codes of its blocks, are
    one for one the blocks that remain of the method. If none remains, the code is executed in
    place. -/
theorem lower_pushes_remaining {m : MethodTree} {holder : ClassRef} {fields : List String}
    {inlining : Bool} {supply : Supply} {code : Code}
    (h : (m.lower holder fields inlining supply).result = .ok code) :
    code.program.closures = m.remaining inlining ∧ (∀ c ∈ code.family, c.program.PushesEach) ∧
      (m.remaining inlining = [] → code.InPlace) := by
  have hcode := ((lower_safe m holder fields inlining supply).of_ok h).1
  have hclosures := lower_closures h
  refine ⟨hclosures, fun c hc => ?_, fun hnone => ?_⟩
  · obtain ⟨k, hk⟩ := Code.exists_within hc
    obtain ⟨inner, -, hlexical⟩ := hcode.within hk
    refine hlexical.pushesEach ((hk.signatures_sublist hcode).nodup ?_)
    rw [hclosures]
    exact Census.nodup _ 0
  · exact Code.inPlace (hcode.blocks_eq_nil (hclosures.trans hnone))

/-! ### A loop that is executed in place -/

/-- What comes of `sumTo:` when a host compiles it in a new world. -/
def sumLowered : Lowered :=
  Workload.sumMethod.lower Core.object [] true ⟨1, 0, 0, 0⟩

/-- The host runs it. -/
def summing : Machine :=
  .running (.bare .standard .standard .kept false) Core.object Workload.sumMethod true
    [.nil, .int 2]

theorem sumLowered_succeeds : sumLowered.result.toBool := by
  rw [sumLowered, ← MethodTree.lowerTo_eq 100]
  decide +kernel

theorem summing_eq {code : Code} (h : sumLowered.result = .ok code) :
    summing = ⟨summing.world, .invoke (.method code) [.nil, .int 2], []⟩ := by
  have hfields :
      ((World.bare .standard .standard .kept false).classes.get Core.object).fields = [] := by
    cbv
  have hsupply : (World.bare .standard .standard .kept false).supply = ⟨1, 0, 0, 0⟩ := by
    cbv
  rw [sumLowered] at h
  simp only [summing, Machine.running, World.compile, hfields, hsupply, h]

theorem summing_executes {code : Code} (h : sumLowered.result = .ok code) :
    ∃ ran a, summing.step.Ordinary ran ∧ summing.step.job = .execute a ∧ a.code = code := by
  have hcovers : World.Covers (.bare .standard .standard .kept false) [.nil, .int 2] := by
    intro v hv
    rcases List.mem_pair.1 hv with rfl | rfl <;> trivial
  obtain ⟨ran, hordinary⟩ := (Machine.Ordinary.bare .standard .standard .kept false).compiled
    (by rintro ⟨⟩) (show Core.object < _ by decide) Workload.sumMethod true hcovers
  have hordinary : summing.Ordinary ran := hordinary
  obtain ⟨hsettings, hthread⟩ := (World.bare .standard .standard .kept false).compile_own
    Core.object Workload.sumMethod true
  have hroom : ¬ summing.world.settings.maxDepth ≤ summing.world.thread.depth := by
    rw [summing, Machine.running, hsettings, hthread]
    decide
  have hcount : 2 = code.argumentCount :=
    ((lower_safe Workload.sumMethod Core.object [] true _).of_ok h).2.1.symm
  rcases Machine.step_method summing.world [.nil, .int 2] [] hcount with
    ⟨w, hstep, -⟩ | ⟨f, -, hfull⟩
  · rw [← summing_eq h] at hstep
    exact ⟨_, _, hordinary.next (.step _), by rw [hstep], rfl⟩
  · exact absurd hfull hroom

/-- The loop of `sumTo:` is executed in place, and no closure is made for its body. -/
theorem lower_pushes_remaining_sum : ∃ code ran a, sumLowered.result = .ok code ∧
    summing.step.Ordinary ran ∧ summing.step.job = .execute a ∧ a.code = code ∧
      code.program.closures = [] ∧ (∀ c ∈ code.family, c.program.PushesEach) ∧ code.InPlace := by
  have hremaining : Workload.sumMethod.remaining true = [] := by
    cbv
  have hsucceeds := sumLowered_succeeds
  cases h : sumLowered.result with
  | ok code =>
    obtain ⟨ran, a, hordinary, ha, hcode⟩ := summing_executes h
    obtain ⟨hclosures, heach, hinPlace⟩ := lower_pushes_remaining h
    exact ⟨code, ran, a, rfl, hordinary, ha, hcode, hclosures.trans hremaining, heach,
      hinPlace hremaining⟩
  | error e =>
    rw [h] at hsucceeds
    cases hsucceeds

end Parley
