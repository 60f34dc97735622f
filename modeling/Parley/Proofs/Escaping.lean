import Parley.Proofs.Unwinding

/-!
# Blocks that escape

A block that returns from a method which is not in progress any more has escaped. If it was
evaluated for a message of an activation, directly or in a loop of the library, then that activation
reports it, and its message has the answer that the handler gives.

* `Machine.Ordinary.sent`: an activation that waits is as it was when it sent its message;
* `Machine.Ordinary.told`: what was reported for a message is not reported for it again;
* `Machine.Ordinary.escapes_once`: the block is reported once, nothing but its own activation is
  aborted, and the sender goes on with the answer.
-/

namespace Parley

variable {w : World} {ran : FrameRef → Code} {k : List Pending}

namespace Machine

variable {m m' m₁ m₂ : Machine} {s : Activation}

/-! ### While something is pending -/

/-- One machine after another, all with the same things pending at the bottom. -/
def Meanwhile (k : List Pending) : Machine → Machine → Prop :=
  Relation.ReflTransGen fun m m' => m.Next m' ∧ k <:+ m'.pending

theorem Meanwhile.refl (k : List Pending) (m : Machine) : Meanwhile k m m :=
  Relation.ReflTransGen.refl

theorem Meanwhile.later (h : Meanwhile k m m') : m.Later m' := by
  induction h with
  | refl => exact .refl
  | tail _ hn ih => exact ih.tail hn.1

theorem Meanwhile.suffix (h : Meanwhile k m m') (hk : k <:+ m.pending) : k <:+ m'.pending := by
  cases h with
  | refl => exact hk
  | tail _ hn => exact hn.2

theorem Consults.suffix (hc : m.Consults k) : k <:+ m.pending := by
  cases hc with
  | told _ _ _ _ => exact List.suffix_rfl
  | answered _ _ _ | unwound _ _ _ => exact List.suffix_cons _ _

/-- An activation that waits at a place in the stack waited there before, unless it starts to. -/
theorem Moves.sender (hm : Moves m m') (h : .sender s :: k <:+ m'.pending) :
    .sender s :: k <:+ m.pending ∨ ∃ t, m.job = .execute t ∧ m.pending = k ∧ t.Asks s := by
  cases hm with
  | does _ | enters _ _ | rests _ => exact .inl h
  | asks hasks _ _ _ =>
    rcases List.suffix_cons_iff.1 h with heq | h
    · cases heq
      exact .inr ⟨_, rfl, rfl, hasks⟩
    · exact .inl h
  | reports a b v receiver k' _ =>
    rcases List.suffix_cons_iff.1 h with heq | h
    · cases heq
    · exact .inl (h.trans (List.suffix_cons _ _))
  | works _ _ _ _ hshifts =>
    cases hshifts with
    | none => exact .inl h
    | push _ hnone _ =>
      rcases List.suffix_cons_iff.1 h with heq | h
      · cases heq
        cases hnone
      · exact .inl h
    | pop _ _ => exact .inl (h.trans (List.suffix_cons _ _))
  | _ => exact .inl (h.trans (List.suffix_cons _ _))

theorem Next.sender (hs : m.Settled ran) (hn : m.Next m') (h : .sender s :: k <:+ m'.pending) :
    .sender s :: k <:+ m.pending ∨ ∃ t, m.job = .execute t ∧ m.pending = k ∧ t.Asks s := by
  cases hn with
  | step => exact hs.moves.sender h
  | prepare _ => exact .inl h
  | request _ _ | turn _ _ _ _ _ _ _ _ => cases List.eq_nil_of_suffix_nil h
  | consult hc _ =>
    rcases List.suffix_cons_iff.1 h with heq | h
    · cases heq
    · exact .inl (h.trans hc.suffix)
  | reply hc _ => exact .inl (h.trans hc.suffix)

/-- An activation that waits is as it was when it sent its message or read its global, and all the
    while it has been waiting at that place. -/
theorem Ordinary.sent (h : m.Ordinary ran) (hk : .sender s :: k <:+ m.pending) :
    ∃ (m₀ m₁ : Machine) (ran₀ : FrameRef → Code) (t : Activation), m₀.Ordinary ran₀ ∧
      m₀.job = .execute t ∧ m₀.pending = k ∧ t.Asks s ∧ m₀.Next m₁ ∧
        Meanwhile (.sender s :: k) m₁ m := by
  induction h with
  | bare _ _ _ _ | boot _ _ _ _ => cases List.eq_nil_of_suffix_nil hk
  | @next m m' ran h hn ih =>
    rcases hn.sender h.settled hk with hk' | ⟨t, ht, hpending, hasks⟩
    · obtain ⟨m₀, m₁, ran₀, t, h₀, ht, hpending, hasks, hn₀, hmeanwhile⟩ := ih hk'
      exact ⟨m₀, m₁, ran₀, t, h₀, ht, hpending, hasks, hn₀, hmeanwhile.tail ⟨hn, hk⟩⟩
    · exact ⟨m, m', ran, t, h, ht, hpending, hasks, hn, .refl _ _⟩

/-! ### What is reported for a message -/

/-- Whether a machine reports an escaped block for what waits on top of the stack given. -/
def Reports (k : List Pending) (m : Machine) : Prop :=
  m.pending = k ∧ ∃ receiver b v, m.job = .report receiver (.escaped b v)

theorem Job.ne_report_of_outer {job : Job} (h : job.isOuter) (receiver : Value) (b : BlockRef)
    (v : Value) : job ≠ .report receiver (.escaped b v) := by
  rintro rfl
  cases h

/-- A report starts only when an escaped block comes to the sender. -/
theorem Moves.reports_new (hm : Moves m m') (hk : .reporter s :: k <:+ m.pending)
    (h : Reports (.reporter s :: k) m') : m' = m := by
  obtain ⟨hpending, receiver, b, v, hjob⟩ := h
  cases hm with
  | does hd =>
    cases hd with
    | goesOn _ _ _ | ends _ _ => cases hjob
    | @raises u _ _ _ hj _ =>
      rcases u.ending_job _ with ⟨v, hu⟩ | hu <;> cases hu.symm.trans (hj.symm.trans hjob)
  | asks _ houter _ _ => exact absurd hjob (Job.ne_report_of_outer houter _ _ _)
  | reports a _ _ _ k' _ =>
    -- The stack would have the sender on top, and not the reporter.
    obtain ⟨-, rfl⟩ := List.cons.inj hpending
    cases hk.eq_of_length rfl
  | @abandons _ _ _ _ u _ _ _ hj _ =>
    rcases u.ending_job _ with ⟨v, hu⟩ | hu <;> cases hu.symm.trans (hj.symm.trans hjob)
  | works _ houter _ _ _ => exact absurd hjob (Job.ne_report_of_outer houter _ _ _)
  | rests _ => rfl
  | _ => cases hjob

theorem Next.reports_new (hs : m.Settled ran) (hn : m.Next m')
    (hk : .reporter s :: k <:+ m.pending) (h : Reports (.reporter s :: k) m') :
    m'.job = m.job ∧ m'.pending = m.pending := by
  have hasks : ∀ {w : World} {job : Job} {k' : List Pending}, w.Asks job →
      ¬ Reports (.reporter s :: k) ⟨w, job, k'⟩ := by
    rintro w job k' hj ⟨-, receiver, b, v, rfl⟩
    exact hj
  cases hn with
  | step =>
    rw [hs.moves.reports_new hk h]
    exact ⟨rfl, rfl⟩
  | prepare _ => exact ⟨rfl, rfl⟩
  | request _ hj | consult _ hj => exact absurd h (hasks hj)
  | turn _ _ _ _ _ _ _ _ | reply _ _ => obtain ⟨-, _, _, _, ⟨⟩⟩ := h

/-- While an activation waits for the answer to a report, nothing is reported for it again. -/
theorem Ordinary.told (h : m.Ordinary ran) (hk : .reporter s :: k <:+ m.pending)
    (hnot : ¬ Reports (.reporter s :: k) m) (hm : Meanwhile (.reporter s :: k) m m') :
    ¬ Reports (.reporter s :: k) m' := by
  induction hm with
  | refl => exact hnot
  | tail hm hn ih =>
    have hm : Meanwhile _ m _ := hm
    obtain ⟨ran', h'⟩ := h.later hm.later
    refine fun hr => ih ?_
    obtain ⟨hjob, hpending⟩ := hn.1.reports_new h'.settled (hm.suffix hk) hr
    exact ⟨hpending ▸ hr.1, hjob ▸ hr.2⟩

/-! ### Escaped blocks -/

theorem frames_of_loops {loops : List Pending} (h : ∀ p ∈ loops, p.isLoop) :
    Pending.frames loops = [] := by
  refine List.filterMap_eq_nil_iff.2 fun p hp => ?_
  have hloop := h p hp
  cases p <;> first | rfl | cases hloop

section Executing

variable {a : Activation} {v : Value} {rest : List Value} {b : BlockRef} {loops : List Pending}

/-- One step later the escaped block has left its own activation. -/
theorem step_escape (hop : a.code.program.tape.opcode? a.ip = some .returnNonLocal)
    (hstack : a.stack = v :: rest) {g : FrameRef}
    (hg : w.heap.enclosing? a.frame (a.code.program.tape.byteAt (a.ip + 1)).toNat = some g)
    (hm : (w.heap.frame g).marker ≠ .onStack) (hb : (w.heap.frame a.frame).receiver = .block b)
    (k : List Pending) : ∃ w', step ⟨w, .execute a, k⟩ = ⟨w', .unwind (.escaped b v), k⟩ ∧
      w'.stage = w.stage.leave a.frame .aborted := by
  have hreturn : ∃ w₁, step ⟨w, .execute a, k⟩ = after k (a.abandon (.escaped b v) w₁) ∧
      w₁.stage = w.stage := by
    rw [step_execute hop, instruction, Activation.withTop, hstack]
    simp only [Activation.returnNonLocal, hg, if_neg hm, hb]
    exact ⟨_, rfl, w.note_stage _⟩
  obtain ⟨w₁, hr, hstage⟩ := hreturn
  obtain ⟨w', hr', hstage'⟩ := a.abandon_eq w₁ (.escaped b v)
  refine ⟨w', by rw [hr, hr']; rfl, ?_⟩
  rw [hstage', hstage]
  rfl

theorem step_report (b : BlockRef) (v : Value) (w : World) (s : Activation) (k : List Pending) :
    ∃ w', step ⟨w, .unwind (.escaped b v), .sender s :: k⟩ =
      ⟨w', .report (w.heap.frame (w.heap.home s.frame)).receiver (.escaped b v),
        .reporter s :: k⟩ ∧ w'.stage = w.stage :=
  ⟨_, rfl, rfl⟩

/-- So many steps later the sender of the message reports it. -/
theorem escape_reported (hloops : ∀ p ∈ loops, p.isLoop) (b : BlockRef) (v : Value) (w : World)
    (s : Activation) (k : List Pending) :
    (∀ i ≤ loops.length,
      (step^[i] ⟨w, .unwind (.escaped b v), loops ++ .sender s :: k⟩).job =
        .unwind (.escaped b v)) ∧
    ∃ w', step^[loops.length + 1] ⟨w, .unwind (.escaped b v), loops ++ .sender s :: k⟩ =
      ⟨w', .report (w.heap.frame (w.heap.home s.frame)).receiver (.escaped b v),
        .reporter s :: k⟩ ∧ w'.stage = w.stage := by
  have hlets : ∀ p ∈ loops, p.Lets w.heap (.escaped b v) := fun p hp => .loop _ (hloops p hp)
  refine ⟨fun i hi => ?_, ?_⟩
  · obtain ⟨w', hr, -⟩ := unwinds hlets (.sender s :: k) hi
    rw [hr]
  · obtain ⟨w', hr, hstage⟩ := unwinds hlets (.sender s :: k) le_rfl
    rw [List.drop_length, List.nil_append] at hr
    rw [List.take_length, frames_of_loops hloops] at hstage
    have hstage : w'.stage = w.stage := hstage
    have hreceiver : (w'.heap.frame (w'.heap.home s.frame)).receiver =
        (w.heap.frame (w.heap.home s.frame)).receiver := by
      rw [← Heap.shell_home, ← Heap.shell_frame, World.shell_of_stage hstage, Heap.shell_frame,
        Heap.shell_home]
    obtain ⟨w'', hr', hstage'⟩ := step_report b v w' s k
    refine ⟨w'', ?_, hstage'.trans hstage⟩
    rw [Function.iterate_succ_apply', hr, hr', hreceiver]

end Executing

/-- What it comes to that a machine executes a return in `a` by which the block `b` escapes, while
    loops of the library wait, then `s` for its message, then `k`. -/
structure EscapesOnce (m : Machine) (a : Activation) (v : Value) (b : BlockRef)
    (loops : List Pending) (s : Activation) (k : List Pending) : Prop where
  block : (m.world.heap.frame a.frame).receiver = .block b ∧
    (m.world.heap.closure b).code = a.code
  /-- The sender is as it was when it sent its message, and has waited for it ever since. -/
  sent : ∃ (m₀ m₁ : Machine) (ran₀ : FrameRef → Code) (t : Activation), m₀.Ordinary ran₀ ∧
    m₀.job = .execute t ∧ m₀.pending = k ∧ t.Asks s ∧ m₀.Next m₁ ∧
      Meanwhile (.sender s :: k) m₁ m
  /-- On the way nothing is executed or reported. -/
  unwinds : ∀ i ≤ loops.length, (step^[i + 1] m).job = .unwind (.escaped b v)
  /-- The block is reported to the receiver of the method of the sender. -/
  reports : (step^[loops.length + 2] m).job =
    .report (m.world.heap.frame (m.world.heap.home s.frame)).receiver (.escaped b v)
  pending : (step^[loops.length + 2] m).pending = .reporter s :: k
  aborted : ((step^[loops.length + 2] m).world.heap.frame a.frame).marker = .aborted
  others : ∀ f ≠ a.frame, (step^[loops.length + 2] m).world.heap.frame f = m.world.heap.frame f
  /-- Once the handler has been told, nothing is reported for the message again. -/
  once : ∀ m₁ m₂, Meanwhile (.reporter s :: k) (step^[loops.length + 2] m) m₁ →
    ¬ Reports (.reporter s :: k) m₁ → Meanwhile (.reporter s :: k) m₁ m₂ →
      ¬ Reports (.reporter s :: k) m₂
  /-- What the handler answers is the answer to the message, and whoever was in progress before is
      in progress still. -/
  answers : ∀ m₁ u, Meanwhile (.reporter s :: k) (step^[loops.length + 2] m) m₁ →
    m₁.job = .answer u → m₁.pending = .reporter s :: k →
      m₁.step = ⟨m₁.world, .execute (s.push u), k⟩ ∧
      ∀ f ∈ s.frame :: Pending.frames k, (m₁.world.heap.frame f).marker = .onStack

/-- An escaped block is reported exactly once by the activation that sent the message it was
    evaluated for, whatever is between, and aborts nothing but itself. -/
theorem Ordinary.escapes_once (h : m.Ordinary ran) {a s : Activation} {v : Value}
    {rest : List Value} {loops k : List Pending} (ha : m.job = .execute a)
    (hop : a.code.program.tape.opcode? a.ip = some .returnNonLocal) (hstack : a.stack = v :: rest)
    (hm : (m.world.heap.frame (m.world.heap.home a.frame)).marker ≠ .onStack)
    (hk : m.pending = loops ++ .sender s :: k) (hloops : ∀ p ∈ loops, p.isLoop) :
    ∃ b, m.EscapesOnce a v b loops s k := by
  obtain ⟨hg, -, -, b, hb, hcode⟩ := h.settled.ready.finds a _ ha hop
  have hseated := h.settled.housed.executes a ha
  have hsent := h.sent (hk ▸ List.suffix_append loops (.sender s :: k))
  have hcarries := h.carrying.carries
  obtain ⟨ran', h'⟩ := h.iterate (loops.length + 2)
  obtain ⟨w, job, k'⟩ := m
  obtain rfl : job = .execute a := ha
  obtain rfl : k' = loops ++ .sender s :: k := hk
  obtain ⟨w₁, hr₁, hstage₁⟩ := step_escape hop hstack hg hm hb (loops ++ .sender s :: k)
  obtain ⟨hunwinds, w₂, hr₂, hstage₂⟩ := escape_reported hloops b v w₁ s k
  have hreceiver : (w₁.heap.frame (w₁.heap.home s.frame)).receiver =
      (w.heap.frame (w.heap.home s.frame)).receiver :=
    (World.like_of_leave hstage₁).home_receiver s.frame
  rw [hreceiver] at hr₂
  have hr : step^[loops.length + 2] ⟨w, .execute a, loops ++ .sender s :: k⟩ =
      ⟨w₂, .report (w.heap.frame (w.heap.home s.frame)).receiver (.escaped b v),
        .reporter s :: k⟩ := by
    rw [Function.iterate_succ_apply, hr₁, hr₂]
  have hstage : w₂.stage = w.stage.leave a.frame .aborted := hstage₂.trans hstage₁
  have hframe : ∀ f, w₂.heap.frame f = (w.heap.leave a.frame .aborted).frame f := fun f =>
    congrArg (fun t : Stage => t.heap.frame f) hstage
  rw [hr] at h'
  refine ⟨b, ⟨hb, hcode.trans hseated.code⟩, hsent, fun i hi => ?_, ?_, ?_, ?_, ?_, ?_, ?_⟩
  · rw [Function.iterate_succ_apply, hr₁, hunwinds i hi]
  · rw [hr]
  · rw [hr]
  · rw [hr]
    have hmem : a.frame ∈ Machine.frames ⟨w, .execute a, loops ++ .sender s :: k⟩ :=
      List.mem_cons_self
    obtain ⟨hlt, hm⟩ := (hcarries.onStack a.frame).1 hmem
    exact (congrArg Frame.marker (hframe a.frame)).trans (w.heap.marker_leave_self hlt hm _)
  · rw [hr]
    intro f hf
    exact (hframe f).trans (w.heap.frame_leave_of_ne hf.symm _)
  · rw [hr]
    intro m₁ m₂ hm₁ hnot hm₂
    obtain ⟨ran₁, h₁⟩ := h'.later hm₁.later
    exact h₁.told (hm₁.suffix List.suffix_rfl) hnot hm₂
  · rw [hr]
    intro m₁ u hm₁ hjob hpending
    obtain ⟨ran₁, h₁⟩ := h'.later hm₁.later
    obtain ⟨w', job, k'⟩ := m₁
    obtain rfl : job = .answer u := hjob
    obtain rfl : k' = .reporter s :: k := hpending
    exact ⟨rfl, fun f hf => ((h₁.carrying.carries.onStack f).1 hf).2⟩

/-! ### A block that escapes in a loop -/

/-- A method that answers a block which returns from it. -/
def returner : MethodTree where
  selector := "returner"
  parameters := []
  locals := []
  body := [.leave (.block ["i"] [] [.leave (.variable "i")])]

/-- A method that has a loop evaluate the block it is given. -/
def repeater : MethodTree where
  selector := "repeat:"
  parameters := ["block"]
  locals := []
  body := [.send (.constant (.int 1)) "to:do:" [.constant (.int 3), .variable "block"]]

/-- A host, which answers nil to whatever is reported, runs the first method. -/
def making : Machine :=
  running ((World.bare .standard (.scripted []) .kept false).installPrimitive Core.integer "to:do:"
    .toDo none) Core.object returner false [.nil]

/-- Then it runs the second one with the block that was answered. -/
def repeating : Machine :=
  running (step^[5] making).world Core.object repeater false [.nil, .block 0]

/-- Whether a machine is to return from the block in frame two, whose method has ended, with a loop
    between it and the sender in frame one. -/
def escapesThroughLoop : Machine → Bool
  | ⟨w, .execute a, [loop, .sender s]⟩ => decide (loop.isLoop ∧ a.frame = 2 ∧ s.frame = 1 ∧
      a.stack = [.int 1] ∧ a.code.program.tape.opcode? a.ip = some .returnNonLocal ∧
      (w.heap.frame (w.heap.home a.frame)).marker ≠ .onStack)
  | _ => false

set_option maxRecDepth 10000 in
/-- The block, in frame two, is reported by the second method, in frame one, which sent the message
    that the loop was begun for. -/
theorem Ordinary.escapes_once_repeating : ∃ ran a s loop b, (step^[9] repeating).Ordinary ran ∧
    loop.isLoop ∧ a.frame = 2 ∧ s.frame = 1 ∧
      (step^[9] repeating).EscapesOnce a (.int 1) b [loop] s [] := by
  have hanswer : (step^[5] making).outcome = .value (.block 0) := by
    cbv
  have hclasses : Core.object < (step^[5] making).world.classes.next := by
    cbv
  have hlook : (step^[9] repeating).escapesThroughLoop := by
    cbv
  have hidle : (step^[5] making).outcome ≠ .unfinished := by
    rw [hanswer]
    simp
  obtain ⟨ran, h⟩ := (Ordinary.bare .standard (.scripted []) .kept false).installPrimitive
    Core.integer "to:do:" .toDo none
  obtain ⟨ran, h⟩ := h.compiled (by rintro ⟨⟩) (show Core.object < _ by decide) returner false
    (World.covers_singleton (show Value.nil.Within _ from trivial))
  obtain ⟨ran, h⟩ := h.iterate 5
  have hv : (step^[5] making).world.Covers [.nil, .block 0] := by
    rintro v (_ | ⟨_, _ | ⟨_, ⟨⟩⟩⟩) <;> trivial
  obtain ⟨ran, h⟩ := h.compiled hidle hclasses repeater false hv
  obtain ⟨ran, h⟩ := h.iterate 9
  have h : Machine.Ordinary (step^[9] repeating) ran := h
  generalize step^[9] repeating = m at h hlook ⊢
  unfold escapesThroughLoop at hlook
  split at hlook
  · rename_i w a loop s
    obtain ⟨hloop, ha, hs, hstack, hop, hm⟩ := of_decide_eq_true hlook
    obtain ⟨b, hb⟩ := h.escapes_once rfl hop hstack hm
      (show [loop, .sender s] = [loop] ++ _ from rfl)
      fun p hp => by rwa [List.mem_singleton.1 hp]
    exact ⟨ran, a, s, loop, b, h, hloop, ha, hs, hb⟩
  · cases hlook

end Machine

end Parley
