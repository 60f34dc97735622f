import Parley.Proofs.Brackets
import Parley.Proofs.Progress

/-!
# What lasts while an activation is in progress

An activation in progress relies on more than its place and its stack: on what is in its frame, on
the classes, and on there being room for one more activation where there was room before. None of
that is changed by what it waits for:

* `Machine.Next.arguments`: the arguments of a frame are what they were, if no instruction of its
  code or of a block in it assigns one (`Code.Sparing`);
* `Machine.Settled.step_classes`: only hosts change classes;
* `Machine.Next.stands`: the activations in progress stand on the same ones as before, below the
  same bound (`Machine.Stands`).
-/

namespace Parley

/-! ### Codes that assign no arguments -/

namespace Code

/-- Whether none of the instructions of a code assigns an argument. -/
def spares (c : Code) : Bool :=
  c.program.tape.starts.all fun ip => c.program.tape.opcode? ip != some (.pop .argument)

/-- A code that assigns no argument, and no block in it does. -/
def Sparing (c : Code) : Prop :=
  ∀ n b, c.Within n b → b.spares

/-- Whether a code assigns no argument, and neither do its blocks, in which there are none. -/
def sparing (c : Code) : Bool :=
  c.spares && c.blocks.all fun b => b.spares && b.blocks.isEmpty

theorem sparing_of_sparing {c : Code} (h : c.sparing) : c.Sparing := by
  simp only [sparing, Bool.and_eq_true, List.all_eq_true, List.isEmpty_iff] at h
  intro n b hb
  cases hb with
  | self => exact h.1
  | inside hb' hb =>
    obtain ⟨hspares, hnone⟩ := h.2 _ hb'
    cases hb with
    | self => exact hspares
    | inside hmem _ =>
      rw [hnone] at hmem
      cases hmem

end Code

/-! ### Arguments -/

section Arguments

variable {ran : FrameRef → Code} {a : Activation} {s s' : Stage} {f : FrameRef}

theorem Heap.arguments_setLocal (h : Heap) (g : FrameRef) (slot : Nat) (v : Value) (f : FrameRef) :
    ((h.setLocal g slot v).frame f).arguments = (h.frame f).arguments := by
  rw [setLocal, frame_modify]
  split <;> rfl

theorem Heap.arguments_leave (h : Heap) (g : FrameRef) (exit : Marker) (f : FrameRef) :
    ((h.leave g exit).frame f).arguments = (h.frame f).arguments := by
  rw [frame_leave]
  split <;> rfl

/-- An activation that assigns an argument of a frame is one of the code in the frame, or of a block
    in it. -/
theorem Activation.Updates.arguments (hu : a.Updates s s') (hs : s.heap.Seated ran)
    (ha : a.Seated s.heap ran) (hip : a.AtStart) (hf : (ran f).Sparing) :
    (s'.heap.frame f).arguments = (s.heap.frame f).arguments := by
  cases hu with
  | nothing | close => rfl
  | setLocal g slot v => exact s.heap.arguments_setLocal g slot v f
  | @setArgument g slot level v hop hg hslot =>
    have hne : g ≠ f := by
      rintro rfl
      have hwithin := hs.within ha.frame hg
      rw [ha.code] at hwithin
      have hspares := List.all_eq_true.1 (hf _ _ hwithin)
      rcases hip with hd | hstart
      · rw [hd] at hop
        cases hop
      · exact absurd hop (bne_iff_ne.1 (hspares _ hstart))
    show (Heap.frame { s.heap with frames := _ } f).arguments = _
    rw [Heap.frame_modify, if_neg fun h => hne h.1]

namespace Machine

variable {m m' : Machine}

theorem arguments_of_stage {w w' : World} (h : w'.stage = w.stage) (f : FrameRef) :
    (w'.heap.frame f).arguments = (w.heap.frame f).arguments :=
  congrArg (fun s : Stage => (s.heap.frame f).arguments) h

theorem arguments_of_leave {w w' : World} {g : FrameRef} {exit : Marker}
    (h : w'.stage = w.stage.leave g exit) (f : FrameRef) :
    (w'.heap.frame f).arguments = (w.heap.frame f).arguments :=
  (congrArg (fun s : Stage => (s.heap.frame f).arguments) h).trans
    (w.stage.heap.arguments_leave g exit f)

theorem Settled.step_arguments (h : m.Settled ran) (hf : f < m.world.heap.frames.size)
    (hspares : (ran f).Sparing) :
    (m.step.world.heap.frame f).arguments = (m.world.heap.frame f).arguments := by
  have hm := h.moves
  have hhoused := h.housed
  have hstart := h.atStart
  generalize m.step = m' at hm
  cases hm with
  | @does w a k r hd =>
    have ha := hhoused.executes a rfl
    cases hd with
    | goesOn _ _ hu =>
      exact hu.arguments (Heap.seated_shell.2 hhoused.heap) ⟨ha.frame, ha.code⟩ (hstart a rfl)
        hspares
    | ends _ hstage | raises _ _ hstage => exact arguments_of_leave hstage f
  | @enters w w' job code arguments context k _ hstage =>
    have hnew := w.heap.frame_newFrame_of_lt (w.thread.activations + 1) arguments
      code.program.locals.size context hf
    exact (congrArg (fun s : Stage => (s.heap.frame f).arguments) hstage).trans
      (congrArg Frame.arguments hnew)
  | abandons _ _ _ hstage => exact arguments_of_leave hstage f
  | asks _ _ _ hstage | restarts _ _ hstage | reports _ _ _ _ _ hstage | passes _ _ _ hstage
  | works _ _ _ hstage _ => exact arguments_of_stage hstage f
  | resumes _ _ _ _ | stops _ _ _ | rests _ => rfl

/-- Nobody assigns the arguments of a frame but its code and the blocks in it. -/
theorem Next.arguments (hn : m.Next m') (h : m.Settled ran) (hf : f < m.world.heap.frames.size)
    (hspares : (ran f).Sparing) :
    (m'.world.heap.frame f).arguments = (m.world.heap.frame f).arguments := by
  cases hn with
  | step => exact h.step_arguments hf hspares
  | prepare hp =>
    obtain ⟨classes, codes, hstage⟩ := hp.stage
    exact congrArg (fun s : Stage => (s.heap.frame f).arguments) hstage
  | turn _ _ hheap _ _ _ _ _ => rw [hheap]
  | request _ _ | consult _ _ | reply _ _ => rfl

end Machine

end Arguments

/-! ### Room -/

namespace World

variable {w w' : World}

@[simp] theorem note_thread (w : World) (e : Event) : (w.note e).thread = w.thread := by
  unfold note
  split <;> rfl

theorem compile_thread (w : World) (c : ClassRef) (m : MethodTree) (inlining : Bool) :
    (w.compile c m inlining).2.thread = w.thread := by
  unfold compile
  extract_lets l w₁ w₂
  have h₂ : w₂.thread = w.thread := by
    dsimp only [w₂]
    split <;> rfl
  split <;> exact h₂

/-- What hosts prepare concerns neither the settings nor what belongs to the machine. -/
theorem Prepares.settings (h : w.Prepares w') : w'.settings = w.settings := by
  cases h with
  | addField c name => exact congrArg Ledger.settings (w.addField_ledger c name)
  | compile m inlining hc => exact congrArg Ledger.settings (w.compile_ledger _ m inlining)
  | _ => rfl

theorem Prepares.thread (h : w.Prepares w') : w'.thread = w.thread := by
  cases h with
  | compile m inlining hc => exact w.compile_thread _ m inlining
  | addField c name =>
    exact World.note_thread _ _
  | _ => rfl

end World

namespace Machine

variable {m m' : Machine} {s : Stock} {base limit : Nat}

theorem Consults.asked {k : List Pending} (hc : m.Consults k) : m.Asked k := by
  cases hc with
  | told receiver c _ _ => exact .told _ receiver c k
  | answered v _ _ => exact .answered _ v k (.inl rfl)
  | unwound u _ _ => exact .unwound _ u k (.inl rfl)

/-- A machine that has something to do proceeds. -/
theorem Next.proceeds (hn : m.Next m') :
    m.Proceeds m' ∨ m.outcome ≠ .unfinished ∧ m'.frames = [] := by
  cases hn with
  | step => exact .inl (.step m)
  | prepare hp => exact .inl (.change hp.change hp.settings hp.thread)
  | @request job hi hj =>
    have hframes : Machine.frames ⟨m.world, job, []⟩ = [] := by
      rw [Machine.frames, frames_of_asks hj]
      rfl
    exact .inr ⟨hi, hframes⟩
  | turn hi _ _ _ _ _ _ _ => exact .inr ⟨hi, rfl⟩
  | consult hc hj => exact .inl (.consult hc.asked (.request hj.requests) (.inl rfl))
  | reply hc hv => exact .inl (.reply hc.asked hv)

/-- The activations in progress stand on so many other ones, and there may be so many in all. -/
structure Stands (m : Machine) (base limit : Nat) : Prop where
  depth : m.world.thread.depth = base + m.frames.length
  limit : m.world.settings.maxDepth = limit

theorem Proceeds.stands (hp : m.Proceeds m') (hs : m.Sound s) (h : m.Stands base limit) :
    m'.Stands base limit := by
  have hturns := hp.turns hs
  have hdepth : m.world.ledger.depth = base + m.frames.length := h.depth
  have hlimit : m.world.ledger.settings.maxDepth = limit := h.limit
  suffices hkept : m'.world.ledger.depth = base + m'.frames.length ∧
      m'.world.ledger.settings.maxDepth = limit from ⟨hkept.1, hkept.2⟩
  generalize m.world.ledger = l at *
  generalize m'.world.ledger = l' at *
  generalize m.frames = fs at *
  generalize m'.frames = fs' at *
  cases hturns with
  | stays => exact ⟨hdepth, hlimit⟩
  | starts => exact ⟨congrArg Nat.succ hdepth, hlimit⟩
  | ends f => exact ⟨congrArg Nat.pred hdepth, hlimit⟩

theorem Next.stands (hn : m.Next m') (hm : m.outcome = .unfinished) (hs : m.Sound s)
    (h : m.Stands base limit) : m'.Stands base limit :=
  (hn.proceeds.resolve_right fun hidle => hidle.1 hm).stands hs h

/-- Every activation in progress has been counted. -/
theorem Ordinary.frames_le {ran : FrameRef → Code} (h : m.Ordinary ran) :
    m.frames.length ≤ m.world.thread.depth := by
  induction h with
  | bare | boot => exact Nat.zero_le _
  | next h hn ih =>
    rcases hn.proceeds with hp | ⟨-, hframes⟩
    · obtain ⟨s, hs⟩ := h.settled.stock
      rw [(hp.stands hs ⟨(Nat.sub_add_cancel ih).symm, rfl⟩).depth]
      exact Nat.le_add_left _ _
    · rw [hframes]
      exact Nat.zero_le _

theorem Ordinary.stands {ran : FrameRef → Code} (h : m.Ordinary ran) :
    ∃ base limit, m.Stands base limit :=
  ⟨_, _, (Nat.sub_add_cancel h.frames_le).symm, rfl⟩

/-- Classes are changed by hosts only. -/
theorem Settled.step_classes {ran : FrameRef → Code} (h : m.Settled ran) :
    m.step.world.classes = m.world.classes := by
  obtain ⟨heap, activations, hstage⟩ := h.moves.stage
  exact congrArg Stage.classes hstage

/-- Closures stay what they are. -/
theorem Settled.step_closure {ran : FrameRef → Code} (h : m.Settled ran) {b : BlockRef}
    (hb : b < m.world.heap.closures.size) :
    m.step.world.heap.closure b = m.world.heap.closure b := by
  have ht := h.moves.turnover
  have hsame : ∀ {s : Stage} {fs fs' : List FrameRef}, Turnover m.world.stage fs s fs' →
      s.heap.closure b = m.world.heap.closure b := by
    intro s fs fs' ht
    cases ht with
    | stays _ hlike _ _ => exact hlike.closure b hb
    | starts | ends => rfl
  exact hsame ht

/-- What the steps of a machine leave as it is. -/
theorem Ordinary.iterate_keeps {ran : FrameRef → Code} (h : m.Ordinary ran)
    (hs : m.Stands base limit) (n : Nat) : (Machine.step^[n] m).Stands base limit ∧
      (Machine.step^[n] m).world.classes = m.world.classes ∧
      ∀ b, m.world.heap.closure b ≠ default →
        (Machine.step^[n] m).world.heap.closure b = m.world.heap.closure b := by
  induction n with
  | zero => exact ⟨hs, rfl, fun _ _ => rfl⟩
  | succ n ih =>
    obtain ⟨hstands, hclasses, hclosure⟩ := ih
    obtain ⟨ran', h'⟩ := h.iterate n
    obtain ⟨s, hsound⟩ := h'.settled.stock
    rw [Function.iterate_succ_apply']
    refine ⟨(Proceeds.step _).stands hsound hstands, h'.settled.step_classes.trans hclasses,
      fun b hb => ?_⟩
    have hb' := hclosure b hb ▸ hb
    rw [h'.settled.step_closure (Heap.lt_of_closure_ne hb'), hclosure b hb]

end Machine

end Parley
