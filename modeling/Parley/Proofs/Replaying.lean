import Parley.Proofs.Executing
import Parley.Proofs.Repetition
import Parley.Proofs.Replying
import Parley.Proofs.Unwinding

/-!
# Activations that start again

What the activation of a loop does by itself, between the turns of the loop (`Repetition.Busy`).
Every step of it either comes nearer to the next turn or is one (`Repetition.Busy.step`).

* The instructions of the method are known from its sketch, inlined or not (`Repetition.Lays`). A
  loop that is not inlined is left by a block of its own, which returns from the method: there is
  room for that block because there was room for the condition (`Repetition.Room`).
* A message that the method sends (`Repetition.Message`) comes to what its primitive does, be it
  looked up, found by its site or bound to a shortcut (`Repetition.Own.step`,
  `Repetition.Busy.of_job`). So nothing depends on what the sites of the method have become on the
  way.
* What is on top of something that waits is an activation, until that has ended (`Machine.Tops`).
-/

namespace Parley

/-! ### Single instructions -/

namespace Machine

section Instructions

variable {c : Code} {f : FrameRef} {ip n : Nat} {r : List Value} {w : World} {k : List Pending}
  {v : Value} {slot i d : UInt8}

theorem step_pushSelf (h : c.Reads ip .pushSelf []) : step ⟨w, .execute ⟨c, f, ip, r, n⟩, k⟩ =
    ⟨w, .execute ⟨c, f, ip + 1, (w.heap.frame f).receiver :: r, n⟩, k⟩ := by
  rw [step_execute (a := ⟨c, f, ip, r, n⟩) h.opcode]
  rfl

theorem step_pushNil (h : c.Reads ip .pushNil []) :
    step ⟨w, .execute ⟨c, f, ip, r, n⟩, k⟩ = ⟨w, .execute ⟨c, f, ip + 1, .nil :: r, n⟩, k⟩ := by
  rw [step_execute (a := ⟨c, f, ip, r, n⟩) h.opcode]
  rfl

theorem step_drop (h : c.Reads ip .drop []) :
    step ⟨w, .execute ⟨c, f, ip, v :: r, n⟩, k⟩ = ⟨w, .execute ⟨c, f, ip + 1, r, n⟩, k⟩ := by
  rw [step_execute (a := ⟨c, f, ip, v :: r, n⟩) h.opcode]
  rfl

theorem step_pushArgument (h : c.Reads ip (.push .argument) [slot, 0])
    (hv : (w.heap.frame f).arguments[slot.toNat]? = some v) :
    step ⟨w, .execute ⟨c, f, ip, r, n⟩, k⟩ = ⟨w, .execute ⟨c, f, ip + 3, v :: r, n⟩, k⟩ := by
  rw [step_execute (a := ⟨c, f, ip, r, n⟩) h.opcode, instruction]
  simp only [Activation.pushVariable, h.first, h.second, show (0 : UInt8).toNat = 0 from rfl,
    Heap.enclosing?_zero, hv]
  rfl

/-- A jump that is made if a Boolean is the one that it is for. -/
theorem step_jump {on b : Bool} (h : c.Reads ip (.jump (.test on true) false) [d]) :
    step ⟨w, .execute ⟨c, f, ip, .bool b :: r, n⟩, k⟩ =
      if b = on then ⟨w, .execute ⟨c, f, ip + d.toNat, .nil :: r, n⟩, k⟩
      else ⟨w, .execute ⟨c, f, ip + 3, r, n⟩, k⟩ := by
  rw [step_execute (a := ⟨c, f, ip, .bool b :: r, n⟩) h.opcode, instruction]
  simp only [Activation.jump, Tape.distance, h.first]
  split <;> rfl

theorem step_pushConstant (h : c.Reads ip .pushConstant [i])
    (hv : c.program.literals[i.toNat]? = some (.value v)) :
    step ⟨w, .execute ⟨c, f, ip, r, n⟩, k⟩ = ⟨w, .execute ⟨c, f, ip + 2, v :: r, n⟩, k⟩ := by
  rw [step_execute (a := ⟨c, f, ip, r, n⟩) h.opcode, instruction]
  simp only [Program.literal?, h.first, hv]
  rfl

theorem step_pushBlock {b : Code} {withContext : Bool} (h : c.Reads ip (.pushBlock withContext) [i])
    (hb : c.program.literals[i.toNat]? = some (.block b)) : ∃ w',
    step ⟨w, .execute ⟨c, f, ip, r, n⟩, k⟩ =
      ⟨w', .execute ⟨c, f, ip + 2, .block w.heap.closures.size :: r, n⟩, k⟩ ∧
        w'.heap = (w.heap.newClosure ⟨b, if withContext then some f else none⟩).2 := by
  rw [step_execute (a := ⟨c, f, ip, r, n⟩) h.opcode, instruction]
  simp only [Activation.pushClosure, Program.literal?, h.first, hb]
  exact ⟨_, rfl, rfl⟩

theorem step_returnLocal (h : c.Reads ip .returnLocal []) :
    ∃ w', step ⟨w, .execute ⟨c, f, ip, v :: r, n⟩, k⟩ = ⟨w', .answer v, k⟩ := by
  rw [step_execute (a := ⟨c, f, ip, v :: r, n⟩) h.opcode]
  exact ⟨_, rfl⟩

/-- A method is called if there is room for one more activation. -/
theorem step_method (w : World) (arguments : List Value) (k : List Pending)
    (h : arguments.length = c.argumentCount) :
    (∃ w', step ⟨w, .invoke (.method c) arguments, k⟩ =
        ⟨w', .execute (.start c w.heap.frames.size), k⟩ ∧
      w'.stage = w.stage.enter c arguments none) ∨
    ∃ f, step ⟨w, .invoke (.method c) arguments, k⟩ = ⟨w, .fail f, k⟩ ∧
      w.settings.maxDepth ≤ w.thread.depth := by
  rw [step, invoke]
  simp only [if_pos h, World.enter]
  split
  · exact .inl ⟨_, rfl, rfl⟩
  · rename_i hdepth
    exact .inr ⟨_, rfl, Nat.le_of_not_lt hdepth⟩

/-- A message of an instruction. -/
theorem step_send {s : Stock} {selector : Selector} {arguments : List Value}
    (hm : Machine.Sound ⟨w, .execute ⟨c, f, ip, arguments.reverse ++ r, n⟩, k⟩ s)
    (hsend : c.sends? ip = some (false, selector))
    (hlength : arguments.length = selector.arity + 1) :
    ∃ w' job, step ⟨w, .execute ⟨c, f, ip, arguments.reverse ++ r, n⟩, k⟩ =
      ⟨w', job, .sender ⟨c, f, ip + 2, r, n⟩ :: k⟩ ∧ w.Fulfils selector arguments job ∧
        w'.stage = w.stage := by
  obtain ⟨hop, hl⟩ := sends?_eq_some hsend
  have ha : Activation.Sound ⟨c, f, ip, arguments.reverse ++ r, n⟩ s := hm.job
  -- A code that sends something is not the empty one.
  have hcode : .block c ∈ s.written := by
    refine ha.code.resolve_left fun hd => ?_
    rw [show c = default from hd] at hop
    cases hop
  have harguments : s.Covers arguments := fun v hv => ha.stack v (by simp [hv])
  have htake : ((arguments.reverse ++ r).take (selector.arity + 1)).reverse = arguments := by
    rw [← hlength, ← List.length_reverse, List.take_left, List.reverse_reverse]
  have hdrop : (arguments.reverse ++ r).drop (selector.arity + 1) = r := by
    rw [← hlength, ← List.length_reverse, List.drop_left]
  let w₁ := w.count fun t => { t with sends := t.sends + 1 }
  have h₁ : w₁.Sound s := hm.world.count _
  have hsent := (sendFrom_sent hcode hsend h₁ harguments).of_eq (w := w) rfl rfl
  have hstage := (sendFrom_stays (c.id, ip) selector arguments w₁).stage
  rw [step_execute (a := ⟨c, f, ip, arguments.reverse ++ r, n⟩) hop, instruction, sendInstruction,
    hl]
  simp only [htake, hdrop]
  rw [if_neg (by simp only [List.length_append, List.length_reverse]; omega)]
  exact ⟨_, _, rfl, hsent.job, hstage⟩

/-- A block is evaluated if it takes the arguments and there is room for one more activation. -/
theorem step_evaluate (w : World) (b : BlockRef) (arguments : List Value) (k : List Pending) :
    (∃ w', step ⟨w, .evaluate b arguments, k⟩ =
        ⟨w', .execute (.start (w.heap.closure b).code w.heap.frames.size), k⟩ ∧
      w.thread.depth < w.settings.maxDepth ∧ w'.stage = w.stage.enter (w.heap.closure b).code
        (.block b :: arguments) (w.heap.closure b).context) ∨
    ∃ f, step ⟨w, .evaluate b arguments, k⟩ = ⟨w, .fail f, k⟩ ∧
      ((w.heap.closure b).parameterCount = arguments.length →
        w.settings.maxDepth ≤ w.thread.depth) := by
  rw [step, evaluate]
  by_cases hcount : (w.heap.closure b).parameterCount = arguments.length
  · simp only [if_pos hcount, World.enter]
    split
    · rename_i hdepth
      exact .inl ⟨_, rfl, hdepth, rfl⟩
    · rename_i hdepth
      exact .inr ⟨_, rfl, fun _ => Nat.le_of_not_lt hdepth⟩
  · simp only [if_neg hcount]
    exact .inr ⟨_, rfl, fun h => absurd h hcount⟩

end Instructions

end Machine

/-! ### Outcomes -/

theorem Job.isOutcome_iff {job : Job} :
    job.isOutcome ↔ (∃ v, job = .answer v) ∨ ∃ u, job = .unwind u := by
  cases job with
  | answer v => exact iff_of_true rfl (.inl ⟨v, rfl⟩)
  | unwind u => exact iff_of_true rfl (.inr ⟨u, rfl⟩)
  | _ => simp [isOutcome]

theorem Unwind.ending_isOutcome (u : Unwind) (activation : Nat) :
    (u.ending activation).2.isOutcome :=
  Job.isOutcome_iff.2 ((u.ending_job activation).imp_right fun h => ⟨u, h⟩)

/-- An unwind goes on behind an activation that it is not for. -/
theorem Unwind.ending_of_foreign {u : Unwind} {activation : Nat}
    (h : ∀ v, u ≠ .nonLocal activation v) : (u.ending activation).2 = .unwind u := by
  cases u with
  | nonLocal target v =>
    rw [ending_of_ne]
    rintro rfl
    exact h v rfl
  | _ => rfl

/-! ### What is in progress on top of something -/

namespace Machine

variable {m m' : Machine} {k : List Pending} {ran : FrameRef → Code}

/-- On top of `k` an activation is in progress, or has just ended. -/
inductive Tops (k : List Pending) (m : Machine) : Prop
  | executes {a : Activation} : m.job = .execute a → m.pending = k → Tops k m
  | waits {p : Pending} {a : Activation} : p.activation? = some a → p :: k <:+ m.pending → Tops k m
  | ends : m.job.isOutcome → m.pending = k → Tops k m

theorem Tops.suffix (h : m.Tops k) : k <:+ m.pending := by
  cases h with
  | executes _ hk | ends _ hk => rw [hk]
  | waits _ hk => exact (List.suffix_cons _ _).trans hk

theorem Tops.step (h : m.Tops k) (hm : m.Settled ran) (ho : m.job.isOutcome → m.pending ≠ k) :
    m.step.Tops k := by
  cases h with
  | @executes a hjob hk =>
    have hmoves := hm.moves
    obtain ⟨w, job, k'⟩ := m
    obtain rfl : job = .execute a := hjob
    obtain rfl : k' = k := hk
    generalize Machine.step _ = m' at hmoves
    cases hmoves with
    | does hd =>
      cases hd with
      | goesOn => exact .executes rfl rfl
      | ends => exact .ends rfl rfl
      | @raises u job w' _ hjob _ =>
        subst hjob
        exact .ends (u.ending_isOutcome _) rfl
    | asks => exact .waits rfl List.suffix_rfl
    | enters he _ => cases he
    | works hne _ _ _ _ => exact absurd rfl (hne a)
    | rests hfinal => cases hfinal
  | @waits p a hp hk =>
    by_cases hend : m.job.isOutcome ∧ m.pending = p :: k
    · obtain ⟨w, job, k'⟩ := m
      obtain rfl : k' = p :: k := hend.2
      have hby := settledBy hp hend.1 w k
      generalize Machine.step _ = m' at hby
      cases hby with
      | value | restart => exact .executes rfl rfl
      | escaped => exact .waits rfl List.suffix_rfl
      | @ending u w' _ _ => exact .ends (u.ending_isOutcome _) rfl
    · obtain ⟨s, hs⟩ := hm.stock
      exact .waits hp (step_keeps hs hk fun ho hk' => hend ⟨ho, hk'⟩)
  | ends hend hk => exact absurd hk (ho hend)

/-- Hosts leave it as it is. -/
theorem Tops.meanwhile (h : m.Tops k) (hn : m.Next m') (hne : m' ≠ m.step)
    (ho : m.job.isOutcome → m.pending ≠ k) : m'.Tops k := by
  cases h with
  | executes hjob hk =>
    rw [hn.prepares hne hjob rfl nofun]
    exact .executes hjob hk
  | waits hp hk =>
    refine .waits hp (hn.keeps hne ?_ hk)
    rintro rfl
    cases hp
  | ends hend hk => exact absurd hk (ho hend)

/-- Nobody is asked about the outcome of what an activation waits for. -/
theorem not_consults {a : Activation} (ho : m.job.isOutcome) (hk : m.pending = .sender a :: k)
    (k' : List Pending) : ¬ m.Consults k' := by
  intro hc
  cases hc with
  | told => cases ho
  | answered | unwound => cases hk

end Machine

namespace Repetition

variable (l : Repetition)

/-! ### What the activation does by itself -/

/-- The messages that the activation of a loop sends. -/
inductive Message where
  | condition
  /-- To the answer of the condition, with the block that leaves the loop. -/
  | exit (answer : Bool) (block : BlockRef)
  | body
  | restart

/-- What goes with a message. -/
structure Errand where
  /-- The turns of the round up to then. -/
  turns : List Turn
  site : Nat
  selector : Selector
  arguments : List Value
  builtin : Builtin
  /-- What the message comes to. -/
  job : Job
  /-- The steps from then to the next turn, at most. -/
  rank : Nat

def errand : Message → Errand
  | .condition => ⟨[], 1, "value", [.block l.condition], .blockValue, .evaluate l.condition [], 0⟩
  | .exit b e => ⟨[.asks, .tells (.bool b)], 5, LibraryLoop.exit l.on, [.bool b, .block e],
      if l.on then .ifFalse else .ifTrue, if b = l.on then .answer .nil else .evaluate e [], 6⟩
  | .body => ⟨[.asks, .tells (.bool l.on)], l.decided + 4, "value", [.block l.body], .blockValue,
      .evaluate l.body [], 0⟩
  | .restart => ⟨[.asks, .tells (.bool l.on), .runs, .ran], l.decided + 8, "restart",
      [.block l.condition], .restart, .unwind .restart, 0⟩

/-- A block that leaves the loop. -/
def Exit (h : Heap) (e : BlockRef) : Prop :=
  ∃ c, c.Follows Workload.loopExit ∧ h.closure e = ⟨c, some l.frame⟩

/-- A block leaves the loop only if nothing is inlined, and then there is room for it (`R`). -/
def Ready (R : Prop) (h : Heap) : Message → Prop
  | .exit _ e => l.inlining = false ∧ R ∧ l.Exit h e
  | _ => True

/-- The places of the activation while it executes, with the stack there, the turns of the round up
    to then, and the steps to the next turn, at most. -/
inductive Own (R : Prop) (h : Heap) : List Turn → Nat → Nat → List Value → Prop
  | starts : Own R h [] 4 0 []
  | tests (b : Bool) : R → Own R h [.asks, .tells (.bool b)] 10 asked [.bool b]
  | leaves : l.inlining → Own R h [.asks, .tells (.bool !l.on)] 2 6 []
  | returns : l.inlining → Own R h [.asks, .tells (.bool !l.on)] 1 7 [.nil]
  | drops : Own R h [.asks, .tells (.bool l.on)] 5 l.decided [.nil]
  | fetches : Own R h [.asks, .tells (.bool l.on)] 4 (l.decided + 1) []
  | discards (v : Value) : Own R h [.asks, .tells (.bool l.on), .runs, .ran] 5 l.evaluated [v]
  | turns : Own R h [.asks, .tells (.bool l.on), .runs, .ran] 4 (l.decided + 7) []
  | sends (q : Message) : l.Ready R h q → Own R h (l.errand q).turns ((l.errand q).rank + 3)
      (l.errand q).site (l.errand q).arguments.reverse

/-- The activation has ended, if it ever started. -/
def Ended (h : Heap) : Prop :=
  l.frame < h.frames.size → (h.frame l.frame).marker ≠ .onStack

/-- A loop that goes on by itself, on a heap: the turns of the round so far, the steps to the next
    turn, at most, the job and what is pending. -/
inductive Busy (R : Prop) (h : Heap) : List Turn → Nat → Job → List Pending → Prop
  | executes (n : Nat) {ts : List Turn} {r ip : Nat} {stack : List Value} :
      l.Own R h ts r ip stack → Busy R h ts r (.execute ⟨l.code, l.frame, ip, stack, n⟩) l.outer
  | looks (n : Nat) (q : Message) : l.Ready R h q →
      Busy R h (l.errand q).turns ((l.errand q).rank + 2)
        (.send (l.errand q).selector (l.errand q).arguments)
        (.sender ⟨l.code, l.frame, (l.errand q).site + 2, [], n⟩ :: l.outer)
  | calls (n : Nat) (q : Message) {p : Primitive} : l.Ready R h q →
      p.selector = (l.errand q).selector → p.builtin = (l.errand q).builtin →
        Busy R h (l.errand q).turns ((l.errand q).rank + 1)
          (.invoke (.primitive p) (l.errand q).arguments)
          (.sender ⟨l.code, l.frame, (l.errand q).site + 2, [], n⟩ :: l.outer)
  | asks (n : Nat) : Busy R h [] 0 (.evaluate l.condition [])
      (.sender ⟨l.code, l.frame, asked, [], n⟩ :: l.outer)
  /-- There is no reason to leave. -/
  | goesOn (n : Nat) : Busy R h [.asks, .tells (.bool l.on)] 6 (.answer .nil)
      (.sender ⟨l.code, l.frame, l.decided, [], n⟩ :: l.outer)
  | exits (n : Nat) {e : BlockRef} : R → l.Exit h e →
      Busy R h [.asks, .tells (.bool !l.on)] 4 (.evaluate e [])
        (.sender ⟨l.code, l.frame, l.decided, [], n⟩ :: l.outer)
  | enters (n n' : Nat) {c : Code} {g : FrameRef} : c.Follows Workload.loopExit →
      h.enclosing? g 1 = some l.frame →
        Busy R h [.asks, .tells (.bool !l.on)] 3 (.execute ⟨c, g, 0, [], n'⟩)
          (.sender ⟨l.code, l.frame, l.decided, [], n⟩ :: l.outer)
  | parts (n n' : Nat) {c : Code} {g : FrameRef} : c.Follows Workload.loopExit →
      h.enclosing? g 1 = some l.frame →
        Busy R h [.asks, .tells (.bool !l.on)] 2 (.execute ⟨c, g, 1, [.nil], n'⟩)
          (.sender ⟨l.code, l.frame, l.decided, [], n⟩ :: l.outer)
  | unwinds (n : Nat) : Busy R h [.asks, .tells (.bool !l.on)] 1
      (.unwind (.nonLocal (h.frame l.frame).activation .nil))
      (.sender ⟨l.code, l.frame, l.decided, [], n⟩ :: l.outer)
  | answers : l.Ended h → Busy R h [.asks, .tells (.bool !l.on)] 0 (.answer .nil) l.outer
  | runs (n : Nat) : Busy R h [.asks, .tells (.bool l.on)] 0 (.evaluate l.body [])
      (.sender ⟨l.code, l.frame, l.evaluated, [], n⟩ :: l.outer)
  | replays (n : Nat) : Busy R h [.asks, .tells (.bool l.on), .runs, .ran] 0 (.unwind .restart)
      (.sender ⟨l.code, l.frame, l.replayed, [], n⟩ :: l.outer)

/-! ### The method -/

/-- What the method looks like. -/
structure Lays : Prop where
  argumentCount : l.code.argumentCount = 2
  spares : l.code.Sparing
  starts : l.code.Reads 0 .pushSelf []
  drops : l.code.Reads l.decided .drop []
  fetches : l.code.Reads (l.decided + 1) (.push .argument) [1, 0]
  discards : l.code.Reads l.evaluated .drop []
  turns : l.code.Reads (l.decided + 7) .pushSelf []
  tests : l.inlining → l.code.Reads asked (.jump (.test l.on true) false) [5]
  leaves : l.inlining → l.code.Reads 6 .pushNil []
  returns : l.inlining → l.code.Reads 7 .returnLocal []
  closes : l.inlining = false → l.code.Reads asked (.pushBlock true) [1] ∧
    ∃ c, l.code.program.literals[1]? = some (.block c) ∧ c.Follows Workload.loopExit
  sends : ∀ q R h, l.Ready R h q →
    l.code.sends? (l.errand q).site = some (false, (l.errand q).selector)

variable {l}

theorem lays_of_isCode (h : LibraryLoop.IsCode l.on l.inlining l.code) : l.Lays := by
  have hf := h.follows
  obtain ⟨on, inlining, code, frame, condition, body, outer⟩ := l
  cases inlining with
  | true =>
    replace hf : code.Follows (Workload.loopInlined on) := hf
    refine ⟨hf.argumentCount, h.sparing, hf.reads rfl, hf.reads rfl, hf.reads rfl, hf.reads rfl,
      hf.reads rfl, fun _ => hf.reads rfl, fun _ => hf.reads rfl, fun _ => hf.reads rfl, nofun,
      fun q R h hq => ?_⟩
    cases q with
    | condition | body | restart => exact hf.sends rfl
    | exit b e => cases hq.1
  | false =>
    replace hf : code.Follows (Workload.loopClosed (LibraryLoop.exit on)) := hf
    refine ⟨hf.argumentCount, h.sparing, hf.reads rfl, hf.reads rfl, hf.reads rfl, hf.reads rfl,
      hf.reads rfl, nofun, nofun, nofun, fun _ =>
        ⟨hf.reads rfl, hf.block 1 rfl⟩, fun q R h hq => ?_⟩
    cases q with
    | condition | body | restart | exit b e => exact hf.sends rfl

/-! ### Messages -/

variable {R : Prop} {h : Heap} {w : World} {n : Nat}

theorem errand_length (l : Repetition) (q : Message) :
    (l.errand q).arguments.length = (l.errand q).selector.arity + 1 := by
  obtain ⟨on, inlining, code, frame, condition, body, outer⟩ := l
  cases q with
  | condition | body => exact show 1 = Selector.arity "value" + 1 by decide
  | restart => exact show 1 = Selector.arity "restart" + 1 by decide
  | exit b e =>
    cases on with
    | true => exact show 2 = Selector.arity "ifFalse:" + 1 by decide
    | false => exact show 2 = Selector.arity "ifTrue:" + 1 by decide

/-- A message comes to what its primitive does. -/
theorem errand_apply (l : Repetition) (q : Message) (w : World) :
    (l.errand q).builtin.apply (l.errand q).arguments w = ((l.errand q).job, w) := by
  obtain ⟨on, inlining, code, frame, condition, body, outer⟩ := l
  cases q with
  | condition | body | restart => rfl
  | exit b e => cases on <;> cases b <;> rfl

theorem errand_performs (hi : w.classes.Intact) (l : Repetition) (q : Message) :
    w.classes.Performs (w.classOf (argument (l.errand q).arguments 0)) (l.errand q).selector
      (l.errand q).builtin := by
  obtain ⟨on, inlining, code, frame, condition, body, outer⟩ := l
  cases q with
  | condition | body => exact hi.value
  | restart => exact hi.restart
  | exit b e =>
    have hclass : w.classOf (.bool b) ∈ [Core.true, Core.false] := by
      cases b
      · exact List.mem_cons_of_mem _ List.mem_cons_self
      · exact List.mem_cons_self
    cases on with
    | true => exact hi.ifFalse _ hclass
    | false => exact hi.ifTrue _ hclass

theorem Busy.of_job (n : Nat) {q : Message} (hq : l.Ready R h q) : ∃ r ≤ (l.errand q).rank,
    l.Busy R h (l.errand q).turns r (l.errand q).job
      (.sender ⟨l.code, l.frame, (l.errand q).site + 2, [], n⟩ :: l.outer) := by
  cases q with
  | condition => exact ⟨0, le_rfl, .asks n⟩
  | body => exact ⟨0, le_rfl, .runs n⟩
  | restart => exact ⟨0, le_rfl, .replays n⟩
  | exit b e =>
    obtain ⟨hinlining, hR, he⟩ := hq
    have hdecided : (l.errand (.exit b e)).site + 2 = l.decided := by
      rw [decided, hinlining]
      rfl
    rw [hdecided]
    by_cases hb : b = l.on
    · subst hb
      refine ⟨6, le_rfl, ?_⟩
      rw [show (l.errand (.exit l.on e)).job = .answer .nil from if_pos rfl]
      exact .goesOn n
    · obtain rfl : b = !l.on := Bool.eq_not_iff.2 hb
      refine ⟨4, show 4 ≤ 6 by decide, ?_⟩
      rw [show (l.errand (.exit (!l.on) e)).job = .evaluate e [] from if_neg hb]
      exact .exits n hR he

/-! ### Steps by itself -/

/-- Whether there is room for one of the blocks. -/
def Room (l : Repetition) (base limit : Nat) : Prop :=
  base + (Pending.frames l.outer).length + 1 < limit

/-- What a loop in progress relies on. -/
structure Runs (l : Repetition) (base limit : Nat) (m : Machine) (ran : FrameRef → Code) :
    Prop where
  ordinary : m.Ordinary ran
  lays : l.Lays
  intact : m.world.classes.Intact
  /-- The arguments of the activation, if it was started. -/
  arguments : l.frame < m.world.heap.frames.size →
    (m.world.heap.frame l.frame).arguments = #[.block l.condition, .block l.body]
  stands : m.Stands base limit

variable {ran : FrameRef → Code} {m : Machine} {base limit r : Nat} {ts : List Turn}

theorem Runs.lt (hr : l.Runs base limit m ran) (hmem : l.frame ∈ m.frames) :
    l.frame < m.world.heap.frames.size :=
  ((hr.ordinary.carrying.carries.onStack _).1 hmem).1

theorem Runs.receiver (hr : l.Runs base limit m ran) (hmem : l.frame ∈ m.frames) :
    (m.world.heap.frame l.frame).receiver = .block l.condition := by
  rw [Frame.receiver, hr.arguments (hr.lt hmem)]
  rfl

/-- The machine is busy with the loop. -/
def Working (l : Repetition) (R : Prop) (ts : List Turn) (r : Nat) (m : Machine) : Prop :=
  l.Busy R m.world.heap.shell ts r m.job m.pending

/-- When what waits for the loop is told the outcome, the activation has ended. -/
theorem ended_of_step (ho : m.Ordinary ran) (hf : m.frames = l.frame :: Pending.frames l.outer)
    (hf' : m.step.frames = Pending.frames l.outer) : l.Ended m.step.world.heap.shell :=
  fun _ => (ho.ended_of_step hf hf').2

theorem Busy.of_stage {w w' : World} (hstage : w'.stage = w.stage) {job : Job} {k : List Pending}
    (hb : l.Busy R w.heap.shell ts r job k) : l.Busy R w'.heap.shell ts r job k := by
  have hshell : w'.heap.shell = w.heap.shell := congrArg Stage.heap hstage
  rwa [hshell]

/-- An instruction of the activation. -/
theorem Own.step {ip : Nat} {stack : List Value} (ho : l.Own R w.heap.shell ts r ip stack)
    (hr : l.Runs base limit ⟨w, .execute ⟨l.code, l.frame, ip, stack, n⟩, l.outer⟩ ran) :
    ∃ r' < r, l.Working R ts r'
      (Machine.step ⟨w, .execute ⟨l.code, l.frame, ip, stack, n⟩, l.outer⟩) := by
  have hlays := hr.lays
  have hmem : l.frame ∈ Machine.frames ⟨w, .execute ⟨l.code, l.frame, ip, stack, n⟩, l.outer⟩ :=
    List.mem_cons_self
  cases ho with
  | starts =>
    rw [Machine.step_pushSelf hlays.starts, show (w.heap.frame l.frame).receiver = _ from
      hr.receiver hmem]
    exact ⟨3, by decide, .executes n (.sends .condition trivial)⟩
  | tests b hR =>
    cases hinlining : l.inlining with
    | true =>
      rw [Machine.step_jump (hlays.tests hinlining)]
      split
      · rename_i hb
        subst hb
        have hdecided : asked + (5 : UInt8).toNat = l.decided := by
          rw [decided, if_pos hinlining]
          rfl
        rw [hdecided]
        exact ⟨5, by decide, .executes n .drops⟩
      · rename_i hb
        obtain rfl : b = !l.on := Bool.eq_not_iff.2 hb
        exact ⟨2, by decide, .executes n (.leaves hinlining)⟩
    | false =>
      obtain ⟨hreads, c, hc, hf⟩ := hlays.closes hinlining
      obtain ⟨w', hstep, hheap⟩ := Machine.step_pushBlock (w := w) (f := l.frame) (n := n)
        (r := [.bool b]) (k := l.outer) hreads hc
      have he : l.Exit w'.heap.shell w.heap.closures.size := by
        refine ⟨c, hf, ?_⟩
        rw [hheap]
        exact w.heap.closure_newClosure_self _
      rw [hstep]
      exact ⟨9, by decide, .executes n (.sends (.exit b _) ⟨hinlining, hR, he⟩)⟩
  | leaves hinlining =>
    rw [Machine.step_pushNil (hlays.leaves hinlining)]
    exact ⟨1, by decide, .executes n (.returns hinlining)⟩
  | returns hinlining =>
    have hended := ended_of_step (l := l) hr.ordinary rfl
    obtain ⟨w', hstep⟩ := Machine.step_returnLocal (w := w) (f := l.frame) (n := n) (v := .nil)
      (r := []) (k := l.outer) (hlays.returns hinlining)
    rw [hstep] at hended ⊢
    exact ⟨0, by decide, .answers (hended rfl)⟩
  | drops =>
    rw [Machine.step_drop hlays.drops]
    exact ⟨4, by decide, .executes n .fetches⟩
  | fetches =>
    have hbody : (w.heap.frame l.frame).arguments[(1 : UInt8).toNat]? = some (.block l.body) := by
      rw [show (w.heap.frame l.frame).arguments = _ from hr.arguments (hr.lt hmem)]
      rfl
    rw [Machine.step_pushArgument hlays.fetches hbody]
    exact ⟨3, by decide, .executes n (.sends .body trivial)⟩
  | discards v =>
    rw [Machine.step_drop hlays.discards]
    exact ⟨4, by decide, .executes n .turns⟩
  | turns =>
    rw [Machine.step_pushSelf hlays.turns, show (w.heap.frame l.frame).receiver = _ from
      hr.receiver hmem]
    exact ⟨3, by decide, .executes n (.sends .restart trivial)⟩
  | sends q hq =>
    obtain ⟨s, hs⟩ := hr.ordinary.settled.stock
    rw [← List.append_nil (l.errand q).arguments.reverse] at hs ⊢
    obtain ⟨w', job, hstep, hjob, hstage⟩ := Machine.step_send hs (hlays.sends q _ _ hq)
      (l.errand_length q)
    rw [hstep]
    rcases hjob.performed (errand_performs hr.intact l q) with rfl | ⟨p, rfl, hp, hb⟩ |
      ⟨op, -, hjob⟩
    · exact ⟨_, by omega, .of_stage hstage (.looks n q hq)⟩
    · exact ⟨_, by omega, .of_stage hstage (.calls n q hq hp hb)⟩
    · obtain ⟨r', hr', hbusy⟩ := Busy.of_job n hq
      rw [errand_apply] at hjob
      exact ⟨r', by omega, .of_stage hstage (hjob ▸ hbusy)⟩

/-- The activation waits, and nothing else is in progress on top of it. -/
theorem frames_of_waits {job : Job} {p : Pending} {ip : Nat} (hp : l.Waits p ip)
    (hjob : job.frames = []) :
    Machine.frames ⟨w, job, p :: l.outer⟩ = l.frame :: Pending.frames l.outer := by
  obtain ⟨n, hp⟩ := hp
  rw [Machine.frames, hjob, Pending.frames_cons_of_some hp]
  rfl

theorem room_iff {job : Job} {p : Pending} {ip : Nat} (hp : l.Waits p ip) (hjob : job.frames = [])
    (hs : Machine.Stands ⟨w, job, p :: l.outer⟩ base limit) :
    l.Room base limit ↔ w.thread.depth < w.settings.maxDepth := by
  have hdepth : w.thread.depth = base + (Pending.frames l.outer).length + 1 := by
    rw [hs.depth, frames_of_waits hp hjob, List.length_cons, Nat.add_assoc]
  rw [Room, hdepth, hs.limit]

/-- The block that leaves the loop is evaluated if there is room. -/
theorem step_exits {e : BlockRef} {p : Pending} {ip : Nat} (hp : l.Waits p ip)
    (hR : l.Room base limit) (he : l.Exit w.heap.shell e)
    (hs : Machine.Stands ⟨w, .evaluate e [], p :: l.outer⟩ base limit) :
    ∃ w' c g, Machine.step ⟨w, .evaluate e [], p :: l.outer⟩ =
      ⟨w', .execute ⟨c, g, 0, [], 0⟩, p :: l.outer⟩ ∧ c.Follows Workload.loopExit ∧
        w'.heap.shell.enclosing? g 1 = some l.frame := by
  obtain ⟨c, hc, he⟩ := he
  have he : w.heap.closure e = ⟨c, some l.frame⟩ := he
  have hlt := (room_iff hp rfl hs).1 hR
  rcases Machine.step_evaluate w e [] (p :: l.outer) with ⟨w', hstep, -, hstage⟩ | ⟨f, -, hroom⟩
  · rw [he] at hstep hstage
    refine ⟨w', c, _, hstep, hc, ?_⟩
    have hframe := w.heap.frame_newFrame_self (w.thread.activations + 1) [.block e]
      c.program.locals.size (some l.frame)
    have hshell : w'.heap.shell = (w.heap.newFrame (w.thread.activations + 1) [.block e]
        c.program.locals.size (some l.frame)).2.shell := congrArg Stage.heap hstage
    have houter : ((w.heap.newFrame (w.thread.activations + 1) [.block e]
        c.program.locals.size (some l.frame)).2.shell.frame w.heap.frames.size).outer =
          w.heap.around (some l.frame) := congrArg Frame.outer hframe
    rw [hshell, Heap.enclosing?, houter]
    rfl
  · refine absurd hlt (Nat.not_lt_of_le (hroom ?_))
    rw [he, Closure.parameterCount, hc.argumentCount]
    rfl

/-- It returns for the activation of the loop, which is another one than its own. -/
theorem step_parts {c : Code} {g : FrameRef} {p : Pending} {ip : Nat}
    (ho : Machine.Ordinary ⟨w, .execute ⟨c, g, 1, [.nil], n⟩, p :: l.outer⟩ ran)
    (hp : l.Waits p ip) (hc : c.Follows Workload.loopExit)
    (hg : w.heap.shell.enclosing? g 1 = some l.frame) : ∃ w',
    Machine.step ⟨w, .execute ⟨c, g, 1, [.nil], n⟩, p :: l.outer⟩ =
      ⟨w', .unwind (.nonLocal (w'.heap.frame l.frame).activation .nil), p :: l.outer⟩ := by
  have hcarries := ho.carrying.carries
  obtain ⟨n', hp⟩ := hp
  have hfs : Machine.frames ⟨w, .execute ⟨c, g, 1, [.nil], n⟩, p :: l.outer⟩ =
      g :: l.frame :: Pending.frames l.outer :=
    congrArg (g :: ·) (Pending.frames_cons_of_some hp)
  rw [hfs] at hcarries
  have hne : g ≠ l.frame := fun heq =>
    (List.nodup_cons.1 hcarries.distinct).1 (heq ▸ List.mem_cons_self)
  have hmem : l.frame ∈ g :: l.frame :: Pending.frames l.outer :=
    List.mem_cons_of_mem _ List.mem_cons_self
  have hapart : (w.heap.frame l.frame).activation ≠ (w.heap.frame g).activation := fun heq =>
    hne (hcarries.apart _ hmem _ List.mem_cons_self heq).symm
  have hreads : c.Reads 1 .returnNonLocal [1] := hc.reads rfl
  have hlevel : w.heap.enclosing? g (c.program.tape.byteAt (1 + 1)).toNat = some l.frame := by
    rw [hreads.first]
    exact hg
  obtain ⟨w', hstep, hstage⟩ := Machine.step_returnNonLocal (a := ⟨c, g, 1, [.nil], n⟩)
    hreads.opcode rfl hlevel ((hcarries.onStack _).1 hmem).2 hapart (p :: l.outer)
  have hframe : w'.heap.frame l.frame = w.heap.frame l.frame :=
    (congrArg (fun s : Stage => s.heap.frame l.frame) hstage).trans
      (w.heap.frame_leave_of_ne hne _)
  refine ⟨w', ?_⟩
  rw [hstep, hframe]

/-- The activation goes on by itself until the next turn. -/
theorem Busy.step (hb : l.Working R ts (r + 1) m) (hR : R → l.Room base limit)
    (hr : l.Runs base limit m ran) : ∃ r' ≤ r, l.Working R ts r' m.step := by
  suffices h : ∃ r' < r + 1, l.Working R ts r' m.step by
    obtain ⟨r', hlt, hb⟩ := h
    exact ⟨r', Nat.le_of_lt_succ hlt, hb⟩
  generalize hrank : r + 1 = rank at hb ⊢
  obtain ⟨w, job, k⟩ := m
  have hb : l.Busy R w.heap.shell ts rank job k := hb
  cases hb with
  | executes n ho => exact ho.step hr
  | looks n q hq =>
    obtain ⟨p, hsend, hp, hbuiltin⟩ := World.send_of_performs (errand_performs hr.intact l q)
    refine ⟨_, Nat.lt_succ_self _, ?_⟩
    show l.Busy R w.heap.shell _ _ (Machine.send _ _ w) _
    rw [hsend]
    exact .calls n q hq hp hbuiltin
  | calls n q hq hp hbuiltin =>
    have hlength := l.errand_length q
    rw [← hp] at hlength
    rw [World.step_performs hlength, hbuiltin, errand_apply]
    obtain ⟨r', hr', hbusy⟩ := Busy.of_job n hq
    exact ⟨r', Nat.lt_succ_of_le hr', hbusy⟩
  | asks n | runs n | replays n | answers => cases hrank
  | goesOn n => exact ⟨5, by decide, .executes n .drops⟩
  | exits n hR' he =>
    obtain ⟨w', c, g, hstep, hc, hg⟩ := step_exits ⟨n, rfl⟩ (hR hR') he hr.stands
    rw [hstep]
    exact ⟨3, by decide, .enters n 0 hc hg⟩
  | enters n n' hc hg =>
    rw [Machine.step_pushNil (hc.reads rfl)]
    exact ⟨2, by decide, .parts n n' hc hg⟩
  | parts n n' hc hg =>
    obtain ⟨w', hstep⟩ := step_parts hr.ordinary ⟨n, rfl⟩ hc hg
    rw [hstep]
    exact ⟨1, by decide, .unwinds n⟩
  | unwinds n =>
    have hended := ended_of_step (l := l) hr.ordinary (frames_of_waits ⟨n, rfl⟩ rfl)
    obtain ⟨w', hstep, -⟩ := Machine.step_ending
      (q := .sender ⟨l.code, l.frame, l.decided, [], n⟩)
      (u := .nonLocal (w.heap.frame l.frame).activation .nil) rfl (.inl rfl) w l.outer
    rw [Unwind.ending_self] at hstep
    rw [show Heap.frame w.heap.shell l.frame = w.heap.frame l.frame from rfl, hstep] at hended ⊢
    exact ⟨0, by decide, .answers (hended rfl)⟩

end Repetition

end Parley
