import Mathlib
import Parley.Host
import Parley.Proofs.Progress

/-!
# Returns that unwind

A block returns from the method that it is written in, and the activation of that method may be any
number of activations out. The return unwinds them one by one, with the loops of the library that
wait between them, and is the value of the one that it is for.

* `Machine.unwinds`: whatever lets an unwind through is left as it is, or marked as unwound;
* `Machine.Ordinary.returns_home`: under the standard handler nothing else is on the way, so that a
  return to a method in progress always arrives, and no host is told that one found no target.
-/

namespace Parley

variable {w : World} {s s' : Stage} {fs : List FrameRef} {f g : FrameRef} {u : Unwind} {v : Value}

/-! ### Leaving several frames -/

/-- The stage when activations have ended one after another in the same way. -/
def Stage.leaveAll (s : Stage) (fs : List FrameRef) (exit : Marker) : Stage :=
  fs.foldl (fun s f => s.leave f exit) s

namespace Stage

theorem leaveAll_append (s : Stage) (fs gs : List FrameRef) (exit : Marker) :
    s.leaveAll (fs ++ gs) exit = (s.leaveAll fs exit).leaveAll gs exit :=
  List.foldl_append

theorem leaveAll_size (s : Stage) (fs : List FrameRef) (exit : Marker) :
    (s.leaveAll fs exit).heap.frames.size = s.heap.frames.size := by
  induction fs generalizing s with
  | nil => rfl
  | cons g fs ih => exact (ih _).trans (s.heap.like_leave g exit).size

theorem leaveAll_activation (s : Stage) (fs : List FrameRef) (exit : Marker) (f : FrameRef) :
    ((s.leaveAll fs exit).heap.frame f).activation = (s.heap.frame f).activation := by
  induction fs generalizing s with
  | nil => rfl
  | cons g fs ih => exact (ih _).trans ((s.heap.like_leave g exit).frame f).activation

theorem frame_leaveAll_of_notMem (exit : Marker) (hf : f ∉ fs) :
    (s.leaveAll fs exit).heap.frame f = s.heap.frame f := by
  induction fs generalizing s with
  | nil => rfl
  | cons g fs ih =>
    rw [List.mem_cons, not_or] at hf
    exact (ih hf.2).trans (s.heap.frame_leave_of_ne (fun h => hf.1 h.symm) exit)

theorem marker_leaveAll (hd : fs.Nodup)
    (hs : ∀ f ∈ fs, f < s.heap.frames.size ∧ (s.heap.frame f).marker = .onStack) (exit : Marker)
    (hf : f ∈ fs) : ((s.leaveAll fs exit).heap.frame f).marker = exit := by
  induction fs generalizing s with
  | nil => cases hf
  | cons g fs ih =>
    obtain ⟨hg, hd⟩ := List.nodup_cons.1 hd
    rcases List.mem_cons.1 hf with rfl | hf
    · obtain ⟨hlt, hm⟩ := hs f List.mem_cons_self
      exact (congrArg Frame.marker (frame_leaveAll_of_notMem exit hg)).trans
        (s.heap.marker_leave_self hlt hm exit)
    · refine ih hd (fun f' hf' => ?_) hf
      rw [show (s.leave g exit).heap.frames.size = _ from (s.heap.like_leave g exit).size,
        show (s.leave g exit).heap.frame f' = _ from
          s.heap.frame_leave_of_ne (ne_of_mem_of_not_mem hf' hg).symm exit]
      exact hs f' (List.mem_cons_of_mem _ hf')

/-- No other activation in progress is in the frame of one, or has its number. -/
theorem Carries.only {gs : List FrameRef} (h : s.Carries (fs ++ g :: gs)) : ∀ f ∈ fs ++ gs,
    f ≠ g ∧ (s.heap.frame f).activation ≠ (s.heap.frame g).activation := by
  intro f hf
  have hne : f ≠ g := by
    have hd := (List.perm_middle.nodup_iff).1 h.distinct
    exact ne_of_mem_of_not_mem hf (List.nodup_cons.1 hd).1
  refine ⟨hne, fun heq => hne (h.apart f ?_ g ?_ heq)⟩
  · exact List.mem_append.2 ((List.mem_append.1 hf).imp_right (List.mem_cons_of_mem _))
  · exact List.mem_append_right _ List.mem_cons_self

/-- What is left on a stage when an activation has come to a value by unwinding others. -/
theorem Carries.frame_homecoming {gs : List FrameRef} (h : s.Carries (fs ++ g :: gs))
    (hs' : s' = (s.leaveAll fs .unwound).leave g .returnedNormally) :
    (s'.heap.frame g).marker = .returnedNormally ∧
      (∀ f ∈ fs, (s'.heap.frame f).marker = .unwound) ∧
      ∀ f, f ≠ g → f ∉ fs → s'.heap.frame f = s.heap.frame f := by
  obtain ⟨hd, -, -⟩ := List.nodup_append.1 h.distinct
  have honly := h.only
  have hg : g ∉ fs := fun hg => (honly g (List.mem_append_left _ hg)).1 rfl
  have hframe : ∀ f ≠ g, s'.heap.frame f = (s.leaveAll fs .unwound).heap.frame f := by
    intro f hf
    rw [hs']
    exact Heap.frame_leave_of_ne _ hf.symm _
  refine ⟨?_, fun f hf => ?_, fun f hf hnot => ?_⟩
  · obtain ⟨hlt, hm⟩ := (h.onStack g).1 (List.mem_append_right _ List.mem_cons_self)
    rw [hs']
    refine Heap.marker_leave_self _ ?_ ?_ _
    · rwa [leaveAll_size]
    · rwa [frame_leaveAll_of_notMem _ hg]
  · rw [hframe f (honly f (List.mem_append_left _ hf)).1]
    exact marker_leaveAll hd (fun f hf => (h.onStack f).1 (List.mem_append_left _ hf)) _ hf
  · rw [hframe f hf, frame_leaveAll_of_notMem _ hnot]

end Stage

/-! ### What lets an unwind through -/

/-- A loop of the library lets every unwind through, and so does an activation that a return is not
    for. -/
inductive Pending.Lets (h : Heap) : Unwind → Pending → Prop
  | loop {p : Pending} (u : Unwind) : p.isLoop → Lets h u p
  | activation {p : Pending} {b : Activation} {target : Nat} (v : Value) : p.activation? = some b →
      target ≠ (h.frame b.frame).activation → Lets h (.nonLocal target v) p

theorem Unwind.ending_of_ne {target activation : Nat} (h : target ≠ activation) (v : Value) :
    (Unwind.nonLocal target v).ending activation = (.unwound, .unwind (.nonLocal target v)) := by
  rw [ending, if_neg h]

theorem Unwind.ending_self (target : Nat) (v : Value) :
    (Unwind.nonLocal target v).ending target = (.returnedNormally, .answer v) := by
  rw [ending, if_pos rfl]

namespace Activation

variable (a : Activation) (w : World)

theorem abandon_eq (u : Unwind) : ∃ w',
    a.abandon u w = ((u.ending (w.heap.frame a.frame).activation).2, w') ∧
      w'.stage = w.stage.leave a.frame (u.ending (w.heap.frame a.frame).activation).1 :=
  ⟨_, Prod.ext (a.abandon_fst u w) rfl, a.abandon_stage u w⟩

end Activation

namespace Machine

variable {p : Pending} {b : Activation} {k inner : List Pending}

/-- An activation that waits does not settle a return, but for one that is for it. -/
theorem unwindInto_activation (hp : p.activation? = some b) (target : Nat) (v : Value) (w : World)
    (k : List Pending) : unwindInto p (.nonLocal target v) w k =
      after k (b.abandon (.nonLocal target v) w) := by
  cases p with
  | sender a | reporter a =>
    cases hp
    rfl
  | _ => cases hp

theorem step_lets (hp : p.Lets w.heap u) (k : List Pending) : ∃ w',
    step ⟨w, .unwind u, p :: k⟩ = ⟨w', .unwind u, k⟩ ∧
      w'.stage = w.stage.leaveAll (Pending.frames [p]) .unwound := by
  cases hp with
  | loop _ hp =>
    cases p with
    | counting _ _ _ _ | cycling _ _ _ => exact ⟨w, rfl, rfl⟩
    | _ => cases hp
  | @activation _ b target v hb hne =>
    obtain ⟨w', hr, hstage⟩ := b.abandon_eq w (.nonLocal target v)
    rw [Unwind.ending_of_ne hne] at hr hstage
    refine ⟨w', ?_, ?_⟩
    · rw [step, unwindInto_activation hb, hr]
      rfl
    · rw [Pending.frames_cons_of_some hb]
      exact hstage

/-- So many steps later an unwind has come through what lets it. -/
theorem unwinds (hinner : ∀ p ∈ inner, p.Lets w.heap u) (k : List Pending) {i : Nat}
    (hi : i ≤ inner.length) : ∃ w',
    step^[i] ⟨w, .unwind u, inner ++ k⟩ = ⟨w', .unwind u, inner.drop i ++ k⟩ ∧
      w'.stage = w.stage.leaveAll (Pending.frames (inner.take i)) .unwound := by
  induction i with
  | zero => exact ⟨w, rfl, rfl⟩
  | succ i ih =>
    obtain ⟨w', hr, hstage⟩ := ih (Nat.le_of_succ_le hi)
    have hdrop : inner.drop i = inner[i] :: inner.drop (i + 1) := List.drop_eq_getElem_cons hi
    have htake : inner.take (i + 1) = inner.take i ++ [inner[i]] :=
      List.take_succ_eq_append_getElem hi
    have hlets : inner[i].Lets w'.heap u := by
      cases hinner inner[i] (List.getElem_mem hi) with
      | loop _ hp => exact .loop u hp
      | activation v hb hne =>
        refine .activation v hb ?_
        rwa [show (w'.heap.frame _).activation = _ from
          (congrArg (fun s : Stage => (s.heap.frame _).activation) hstage).trans
            (Stage.leaveAll_activation _ _ _ _)]
    obtain ⟨w'', hr', hstage'⟩ := step_lets hlets (inner.drop (i + 1) ++ k)
    refine ⟨w'', ?_, ?_⟩
    · rw [Function.iterate_succ_apply', hr, hdrop]
      exact hr'
    · rw [hstage', hstage, htake, Pending.frames_append, Stage.leaveAll_append]

/-! ### Returns to a method in progress -/

variable {a : Activation} {k outer : List Pending} {rest : List Value}

/-- One step later the return has left the activation of the block. -/
theorem step_returnNonLocal (hop : a.code.program.tape.opcode? a.ip = some .returnNonLocal)
    (hstack : a.stack = v :: rest)
    (hg : w.heap.enclosing? a.frame (a.code.program.tape.byteAt (a.ip + 1)).toNat = some g)
    (hm : (w.heap.frame g).marker = .onStack)
    (hne : (w.heap.frame g).activation ≠ (w.heap.frame a.frame).activation) (k : List Pending) :
    ∃ w', step ⟨w, .execute a, k⟩ = ⟨w', .unwind (.nonLocal (w.heap.frame g).activation v), k⟩ ∧
      w'.stage = w.stage.leave a.frame .unwound := by
  obtain ⟨w', hr, hstage⟩ := a.abandon_eq
    (w.count fun s => { s with nonLocalReturns := s.nonLocalReturns + 1 })
    (.nonLocal (w.heap.frame g).activation v)
  rw [show ((w.count _).heap.frame a.frame).activation = (w.heap.frame a.frame).activation from rfl,
    Unwind.ending_of_ne hne] at hr hstage
  refine ⟨w', ?_, hstage⟩
  rw [step_execute hop, instruction, Activation.withTop, hstack]
  simp only [Activation.returnNonLocal, hg, if_pos hm, hr]
  rfl

/-- The return is the value of the activation that it is for. -/
theorem arrives {target : Nat} (hinner : ∀ p ∈ inner, p.Lets w.heap (.nonLocal target v))
    (hp : p.activation? = some b) (htarget : (w.heap.frame b.frame).activation = target)
    (outer : List Pending) : ∃ w',
    step^[inner.length + 1] ⟨w, .unwind (.nonLocal target v), inner ++ p :: outer⟩ =
      ⟨w', .answer v, outer⟩ ∧
    w'.stage = (w.stage.leaveAll (Pending.frames inner) .unwound).leave b.frame
      .returnedNormally := by
  obtain ⟨w₁, hr, hstage⟩ := unwinds hinner (p :: outer) le_rfl
  rw [List.drop_length, List.take_length, List.nil_append] at *
  have hactivation : (w₁.heap.frame b.frame).activation = target :=
    ((congrArg (fun s : Stage => (s.heap.frame b.frame).activation) hstage).trans
      (Stage.leaveAll_activation _ _ _ _)).trans htarget
  obtain ⟨w₂, hr', hstage'⟩ := b.abandon_eq w₁ (.nonLocal target v)
  rw [hactivation, Unwind.ending_self] at hr' hstage'
  refine ⟨w₂, ?_, ?_⟩
  · rw [Function.iterate_succ_apply', hr, step, unwindInto_activation hp, hr']
    rfl
  · rw [hstage', hstage]

/-- What a return comes to by which a machine leaves a block that it executes in `a`: the method of
    the block is that of `b`, which waits, with `inner` before and `outer` after it. -/
structure Homecoming (m : Machine) (a : Activation) (v : Value) (inner : List Pending)
    (b : Activation) (outer : List Pending) : Prop where
  waits : ∃ p, p.activation? = some b ∧ m.pending = inner ++ p :: outer
  home : b.frame = m.world.heap.home a.frame
  /-- No other activation in progress is in the frame of the method, or has its number. -/
  only : ∀ f ∈ a.frame :: Pending.frames (inner ++ outer), f ≠ b.frame ∧
    (m.world.heap.frame f).activation ≠ (m.world.heap.frame b.frame).activation
  /-- On the way nothing is executed. -/
  unwinds : ∀ i ≤ inner.length, (step^[i + 1] m).job =
    .unwind (.nonLocal (m.world.heap.frame b.frame).activation v)
  /-- The activation of the method comes to the value. -/
  answers : (step^[inner.length + 2] m).job = .answer v
  pending : (step^[inner.length + 2] m).pending = outer
  returned : ((step^[inner.length + 2] m).world.heap.frame b.frame).marker = .returnedNormally
  unwound : ∀ f ∈ a.frame :: Pending.frames inner,
    ((step^[inner.length + 2] m).world.heap.frame f).marker = .unwound
  others : ∀ f, f ≠ b.frame → f ∉ a.frame :: Pending.frames inner →
    (step^[inner.length + 2] m).world.heap.frame f = m.world.heap.frame f
  /-- Whatever happens later, none of those that have ended is executed again. -/
  done : ∀ m', (step^[inner.length + 2] m).Later m' → ∀ c, m'.job = .execute c →
    c.frame ≠ b.frame ∧ c.frame ∉ a.frame :: Pending.frames inner

theorem mem_frames (h : f ∈ Pending.frames k) :
    ∃ inner p b outer, k = inner ++ p :: outer ∧ p.activation? = some b ∧ b.frame = f := by
  obtain ⟨p, hp, hf⟩ := List.mem_filterMap.1 h
  obtain ⟨b, hb, rfl⟩ := Option.map_eq_some_iff.1 hf
  obtain ⟨inner, outer, rfl⟩ := List.append_of_mem hp
  exact ⟨inner, p, b, outer, rfl, hb, rfl⟩

variable {m : Machine} {ran : FrameRef → Code}

/-- Under the standard handler, a return to an activation goes through everything before. -/
theorem Carrying.lets (h : m.Carrying) (hs : m.world.handler.isStandard)
    (hk : m.pending = inner ++ p :: outer) (hp : p.activation? = some b) (v : Value) :
    ∀ q ∈ inner, q.Lets m.world.heap (.nonLocal (m.world.heap.frame b.frame).activation v) := by
  intro q hq
  rcases h.waits hs q (hk ▸ List.mem_append_left _ hq) with hl | hc
  · exact .loop _ hl
  obtain ⟨c, hc⟩ := Option.isSome_iff_exists.1 hc
  have hcarries := h.carries
  rw [Machine.frames, hk, Pending.frames_append, Pending.frames_cons_of_some hp,
    ← List.append_assoc] at hcarries
  have hmem : c.frame ∈ Pending.frames inner :=
    List.mem_filterMap.2 ⟨q, hq, by rw [hc, Option.map_some]⟩
  exact .activation v hc (hcarries.only c.frame (by simp [hmem])).2.symm

section Executing

variable (h : m.Ordinary ran) (ha : m.job = .execute a)
  (hop : a.code.program.tape.opcode? a.ip = some .returnNonLocal)
  (hg : m.world.heap.enclosing? a.frame (a.code.program.tape.byteAt (a.ip + 1)).toNat = some g)
  (hm : (m.world.heap.frame g).marker = .onStack)

include h ha hop hg hm

/-- The method of a block waits, if its frame is marked so. -/
theorem Ordinary.home_waits : g = m.world.heap.home a.frame ∧
    ∃ inner p b outer, m.pending = inner ++ p :: outer ∧ p.activation? = some b ∧ b.frame = g := by
  obtain ⟨hhome, hne, -⟩ := h.settled.ready.finds a _ ha hop
  obtain rfl : m.world.heap.home a.frame = g := Option.some.inj (hhome.symm.trans hg)
  have hmem := h.carrying.home_mem h.settled ha hm
  rw [Machine.frames, ha] at hmem
  exact ⟨rfl, mem_frames ((List.mem_cons.1 hmem).resolve_left hne)⟩

/-- The activation of the block is unwound, then all that waits before that of the method, which
    comes to the value. -/
theorem Ordinary.returns (hs : m.world.handler.isStandard) (hstack : a.stack = v :: rest)
    (hk : m.pending = inner ++ p :: outer) (hp : p.activation? = some b) (hb : b.frame = g) :
    (∀ i ≤ inner.length, (step^[i + 1] m).job =
      .unwind (.nonLocal (m.world.heap.frame g).activation v)) ∧
    ∃ w', step^[inner.length + 2] m = ⟨w', .answer v, outer⟩ ∧
      w'.stage = (m.world.stage.leaveAll (a.frame :: Pending.frames inner) .unwound).leave g
        .returnedNormally := by
  subst hb
  have hcarries := h.carrying.carries
  obtain ⟨w, job, k⟩ := m
  obtain rfl : job = .execute a := ha
  obtain rfl : k = inner ++ p :: outer := hk
  have hne : (w.heap.frame b.frame).activation ≠ (w.heap.frame a.frame).activation := by
    rw [show Machine.frames ⟨w, .execute a, inner ++ p :: outer⟩ =
      a.frame :: Pending.frames (inner ++ p :: outer) from rfl, Pending.frames_append,
      Pending.frames_cons_of_some hp, ← List.cons_append] at hcarries
    exact (hcarries.only a.frame (by simp)).2.symm
  obtain ⟨w₁, hr₁, hstage₁⟩ := step_returnNonLocal hop hstack hg hm hne (inner ++ p :: outer)
  have hactivation : (w₁.heap.frame b.frame).activation = (w.heap.frame b.frame).activation :=
    (congrArg (fun s : Stage => (s.heap.frame b.frame).activation) hstage₁).trans
      ((w.heap.like_leave a.frame _).frame b.frame).activation
  -- The machine is an ordinary one still, so that nothing else is on the way.
  have h₁ := h.next (.step _)
  rw [hr₁] at h₁
  have hlets := h₁.carrying.lets ((congrArg Stage.standard hstage₁).trans hs) rfl hp v
  rw [show (w₁.heap.frame b.frame).activation = _ from hactivation] at hlets
  refine ⟨fun i hi => ?_, ?_⟩
  · obtain ⟨w', hr', -⟩ := unwinds hlets (p :: outer) hi
    rw [Function.iterate_succ_apply, hr₁, hr']
  · obtain ⟨w₂, hr₂, hstage₂⟩ := arrives hlets hp hactivation outer
    refine ⟨w₂, by rw [Function.iterate_succ_apply, hr₁, hr₂], ?_⟩
    rw [hstage₂, hstage₁]
    rfl

theorem Ordinary.homecoming (hs : m.world.handler.isStandard) (hstack : a.stack = v :: rest) :
    ∃ inner b outer, b.frame = g ∧ m.Homecoming a v inner b outer := by
  obtain ⟨hhome, inner, p, b, outer, hk, hp, hb⟩ := h.home_waits ha hop hg hm
  obtain ⟨hunwinds, w', hr, hstage⟩ := h.returns ha hop hg hm hs hstack hk hp hb
  subst hb
  have hcarries : m.world.stage.Carries
      (a.frame :: Pending.frames inner ++ b.frame :: Pending.frames outer) := by
    have hcarries := h.carrying.carries
    rw [Machine.frames, ha, hk, Pending.frames_append, Pending.frames_cons_of_some hp] at hcarries
    exact hcarries
  obtain ⟨hreturned, hunwound, hothers⟩ := hcarries.frame_homecoming hstage
  refine ⟨inner, b, outer, rfl, ⟨p, hp, hk⟩, hhome, ?_, hunwinds, ?_, ?_, ?_, ?_, ?_, ?_⟩
  · rw [Pending.frames_append, ← List.cons_append]
    exact hcarries.only
  · rw [hr]
  · rw [hr]
  · rw [hr]
    exact hreturned
  · rw [hr]
    exact hunwound
  · rw [hr]
    exact hothers
  -- What has ended by then has ended for ever.
  · obtain ⟨ran', h'⟩ := h.iterate (inner.length + 2)
    rw [hr] at h' ⊢
    have hsize : w'.heap.frames.size = m.world.heap.frames.size :=
      (congrArg (fun s : Stage => s.heap.frames.size) hstage).trans
        (((Stage.leaveAll _ _ _).heap.like_leave _ _).size.trans (Stage.leaveAll_size _ _ _))
    have hended : ∀ f ∈ a.frame :: Pending.frames inner ++ b.frame :: Pending.frames outer,
        (w'.heap.frame f).marker ≠ .onStack → ∀ m', Later ⟨w', .answer v, outer⟩ m' →
          ∀ c, m'.job = .execute c → c.frame ≠ f := fun f hf hm m' hl =>
      h'.ended hl (hsize ▸ ((hcarries.onStack f).1 hf).1) hm
    intro m' hl c hc
    refine ⟨hended b.frame (by simp) (fun he => Marker.noConfusion (hreturned.symm.trans he)) m' hl
      c hc,
      fun hmem => ?_⟩
    exact hended c.frame (List.mem_append_left _ hmem)
      (fun he => Marker.noConfusion ((hunwound _ hmem).symm.trans he)) m' hl c hc rfl

end Executing

/-- A host is never told that a return found no target. -/
theorem Ordinary.result_ne_noTarget (h : m.Ordinary ran) (hs : m.world.handler.isStandard)
    (hi : m.outcome ≠ .unfinished) {job : Job} (hj : m.world.Asks job) (target : Nat) :
    (m.world.result job).1 ≠ .error (.noTarget target) := by
  intro hr
  rcases result_error hr with ⟨n, w', u, hn, hu⟩ | hf
  · obtain ⟨ran', h'⟩ := (h.next (.request hi hj)).iterate n
    rw [hn] at h'
    cases u with
    | nonLocal target v =>
      obtain ⟨f, hf, -⟩ := h'.carrying.targets target v rfl
      cases hf
    | failed f =>
      obtain rfl : .noTarget target = f := hu
      have hs' : w'.handler.isStandard := by
        have hn' := (h.next (.request hi hj)).isStandard_iterate n
        rw [hn] at hn'
        exact hn'.trans hs
      exact absurd (h'.carrying.faults hs' _ rfl) nofun
    | _ => cases hu
  · cases hf

/-- Returns find their way. -/
structure ReturnsHome (m : Machine) : Prop where
  /-- A block returns from a method of which the frame is marked as on the stack. -/
  arrives : ∀ a v rest g, m.job = .execute a →
    a.code.program.tape.opcode? a.ip = some .returnNonLocal → a.stack = v :: rest →
    m.world.heap.enclosing? a.frame (a.code.program.tape.byteAt (a.ip + 1)).toNat = some g →
    (m.world.heap.frame g).marker = .onStack →
      ∃ inner b outer, b.frame = g ∧ m.Homecoming a v inner b outer
  /-- No host that sends a message or runs a method is told that a return found no target. -/
  sends : m.outcome ≠ .unfinished → ∀ selector arguments, m.world.Covers arguments →
    ∀ target, (m.world.send selector arguments).1 ≠ .error (.noTarget target)
  runs : m.outcome ≠ .unfinished → ∀ c ∈ m.world.codes, ∀ arguments, m.world.Covers arguments →
    ∀ target, (m.world.runMethod c arguments).1 ≠ .error (.noTarget target)

/-- Under the standard handler every return to a method in progress arrives there, whatever is
    between, and unwinds nothing else. -/
theorem Ordinary.returns_home (h : m.Ordinary ran) (hs : m.world.handler = .standard) :
    m.ReturnsHome := by
  have hs : m.world.handler.isStandard := by rw [hs]; rfl
  refine ⟨fun a v rest g ha hop hstack hg hm => h.homecoming ha hop hg hm hs hstack,
    fun hi selector arguments hc target => ?_, fun hi c hc arguments hv target => ?_⟩
  · cases arguments with
    | nil => nofun
    | cons v vs =>
      have hj : m.world.Asks (.send selector (v :: vs)) := hc
      exact h.result_ne_noTarget hs hi hj target
  · have hj : m.world.Asks (.invoke (.method c) arguments) := ⟨hc, hv⟩
    exact h.result_ne_noTarget hs hi hj target

/-! ### A return through a loop -/

/-- A method that returns from a loop in the first pass. -/
def firstOf : MethodTree where
  selector := "firstOf"
  parameters := []
  locals := []
  body := [.send (.constant (.int 1)) "to:do:"
    [.constant (.int 3), .block ["i"] [] [.leave (.variable "i")]]]

/-- A host runs the method, with the loop as a message to the primitive. -/
def looping : Machine :=
  running ((World.bare .standard .standard .kept false).installPrimitive Core.integer "to:do:" .toDo
    none) Core.object firstOf false [.nil]

/-- Whether a machine is to return from the block in frame one to the method in frame zero, with a
    loop between them. -/
def returnsThroughLoop : Machine → Bool
  | ⟨w, .execute a, [loop, .sender b]⟩ => decide (w.handler.isStandard ∧ loop.isLoop ∧
      a.frame = 1 ∧ b.frame = 0 ∧ a.stack = [.int 1] ∧
      a.code.program.tape.opcode? a.ip = some .returnNonLocal ∧
      w.heap.enclosing? a.frame (a.code.program.tape.byteAt (a.ip + 1)).toNat = some 0 ∧
      (w.heap.frame 0).marker = .onStack)
  | _ => false

set_option maxRecDepth 10000 in
/-- The return is from the block in frame one to the method in frame zero, and goes through the loop
    that waits between them. -/
theorem Ordinary.returns_home_firstOf : ∃ ran a loop b, (step^[9] looping).Ordinary ran ∧
    loop.isLoop ∧ a.frame = 1 ∧ b.frame = 0 ∧
      (step^[9] looping).Homecoming a (.int 1) [loop] b [] := by
  have hlook : (step^[9] looping).returnsThroughLoop := by
    cbv
  obtain ⟨ran, h⟩ := (Ordinary.bare .standard .standard .kept false).installPrimitive Core.integer
    "to:do:" .toDo none
  obtain ⟨ran, h⟩ := h.compiled (by rintro ⟨⟩) (show Core.object < _ by decide) firstOf false
    (World.covers_singleton (show Value.nil.Within _ from trivial))
  obtain ⟨ran, h⟩ := h.iterate 9
  have h : Machine.Ordinary (step^[9] looping) ran := h
  generalize step^[9] looping = m at h hlook ⊢
  unfold returnsThroughLoop at hlook
  split at hlook
  · rename_i w a loop b₀
    obtain ⟨hs, hloop, ha, -, hstack, hop, hg, hm⟩ := of_decide_eq_true hlook
    have hs : w.handler = .standard := by
      cases hh : w.handler with
      | standard => rfl
      | scripted replies =>
        rw [hh] at hs
        cases hs
    obtain ⟨inner, b, outer, hb, hhome⟩ := (h.returns_home hs).arrives a _ _ 0 rfl hop hstack hg hm
    obtain ⟨p, hp, hk⟩ := hhome.waits
    -- The activation of the method is below the loop.
    rcases inner with _ | ⟨q, _ | ⟨q', inner⟩⟩ <;> simp at hk
    · obtain ⟨rfl, -⟩ := hk
      cases loop <;> simp [Pending.isLoop, Pending.activation?] at hloop hp
    · obtain ⟨rfl, -, rfl⟩ := hk
      exact ⟨ran, a, loop, b, h, hloop, ha, hb, hhome⟩
  · cases hlook

end Machine

end Parley
