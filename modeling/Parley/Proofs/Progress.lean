import Parley.Proofs.Settled

/-!
# Activations in progress

The activations in progress are the one that executes and those that wait, each in a frame of its
own; their frames, and no others, are marked as on the stack (`Stage.Carries`). A move starts one
activation, ends the innermost one, or leaves them as they are (`Turnover`). Once an activation has
ended its marker stays, and its frame is never executed in again (`Machine.Ordinary.ended`).

A return that unwinds is always on its way to an activation in progress
(`Machine.Carrying.targets`). Under the standard handler nothing waits but activations and loops of
the library, so that nothing stops it, and no machine fails for want of a target.
-/

namespace Parley

variable {s s' : Stage} {fs fs' : List FrameRef} {f g : FrameRef}

/-! ### Frames in progress -/

/-- The frame of an activation that executes. -/
def Job.frames : Job → List FrameRef
  | .execute a => [a.frame]
  | _ => []

/-- The frames of the activations that wait, the nearest one first. -/
def Pending.frames (k : List Pending) : List FrameRef :=
  k.filterMap fun p => p.activation?.map Activation.frame

/-- The frames of the activations in progress, the innermost one first. -/
def Machine.frames (m : Machine) : List FrameRef :=
  m.job.frames ++ Pending.frames m.pending

theorem Job.frames_of_ne_execute {job : Job} (h : ∀ a, job ≠ .execute a) : job.frames = [] := by
  cases job with
  | execute a => exact absurd rfl (h a)
  | _ => rfl

namespace Pending

variable {p : Pending} {k k' : List Pending}

theorem frames_cons_of_some {a : Activation} (h : p.activation? = some a) :
    frames (p :: k) = a.frame :: frames k :=
  List.filterMap_cons_some (by rw [h]; rfl)

theorem frames_cons_of_none (h : p.activation? = none) : frames (p :: k) = frames k :=
  List.filterMap_cons_none (by rw [h]; rfl)

theorem frames_append : frames (k ++ k') = frames k ++ frames k' :=
  List.filterMap_append

theorem Shifts.frames {standard : Bool} (h : Shifts standard k k') :
    Pending.frames k' = Pending.frames k := by
  cases h with
  | none => rfl
  | push _ hp _ => exact frames_cons_of_none hp
  | pop _ hp => exact (frames_cons_of_none hp).symm

end Pending

/-! ### Stages -/

namespace Heap

variable (h : Heap)

theorem frame_leave (f : FrameRef) (exit : Marker) (g : FrameRef) :
    (h.leave f exit).frame g = if f = g ∧ g < h.frames.size then
      { h.frame g with
        marker := if (h.frame g).marker = .onStack then exit else (h.frame g).marker }
      else h.frame g :=
  h.frame_modify f _ g

theorem frame_leave_of_ne (hne : f ≠ g) (exit : Marker) : (h.leave f exit).frame g = h.frame g := by
  rw [frame_leave, if_neg fun hg => hne hg.1]

theorem marker_leave_self (hf : f < h.frames.size) (hm : (h.frame f).marker = .onStack)
    (exit : Marker) : ((h.leave f exit).frame f).marker = exit := by
  rw [frame_leave, if_pos ⟨rfl, hf⟩]
  exact if_pos hm

end Heap

theorem Heap.Like.home_receiver {h h' : Heap} (hl : h.Like h') (f : FrameRef) :
    (h'.frame (h'.home f)).receiver = (h.frame (h.home f)).receiver := by
  rw [(hl.frame _).receiver, Heap.home, Heap.home, (hl.frame f).outer]

theorem World.like_of_leave {w w' : World} {exit : Marker}
    (hstage : w'.stage = w.stage.leave f exit) : w.heap.Like w'.heap := by
  have hl : w.stage.heap.Like w'.stage.heap := hstage ▸ w.stage.heap.like_leave f exit
  exact ⟨hl.size, hl.frame, hl.closure⟩

/-- The frames given are those of the activations in progress on a stage. -/
structure Stage.Carries (s : Stage) (fs : List FrameRef) : Prop where
  distinct : fs.Nodup
  onStack : ∀ f, f ∈ fs ↔ f < s.heap.frames.size ∧ (s.heap.frame f).marker = .onStack
  /-- No two have the same number. -/
  apart : ∀ f ∈ fs, ∀ g ∈ fs,
    (s.heap.frame f).activation = (s.heap.frame g).activation → f = g
  counted : ∀ f ∈ fs, (s.heap.frame f).activation ≤ s.activations

namespace Stage.Carries

theorem stays (h : s.Carries fs) (hlike : s.heap.Like s'.heap)
    (hmarker : ∀ f, (s'.heap.frame f).marker = (s.heap.frame f).marker)
    (hcount : s'.activations = s.activations) : s'.Carries fs := by
  refine ⟨h.distinct, fun f => ?_, fun f hf g hg heq => ?_, fun f hf => ?_⟩
  · rw [hlike.size, hmarker]
    exact h.onStack f
  · rw [(hlike.frame f).activation, (hlike.frame g).activation] at heq
    exact h.apart f hf g hg heq
  · rw [(hlike.frame f).activation, hcount]
    exact h.counted f hf

theorem starts (h : s.Carries fs) (code : Code) (arguments : List Value)
    (context : Option FrameRef) :
    (s.enter code arguments context).Carries (s.heap.frames.size :: fs) := by
  have hlt : ∀ f ∈ fs, f < s.heap.frames.size := fun f hf => ((h.onStack f).1 hf).1
  have hsize : (s.enter code arguments context).heap.frames.size = s.heap.frames.size + 1 :=
    s.heap.newFrame_size _ _ _ _
  have hold : ∀ f < s.heap.frames.size,
      (s.enter code arguments context).heap.frame f = s.heap.frame f := fun f hf =>
    s.heap.frame_newFrame_of_lt _ _ _ _ hf
  have hnew := s.heap.frame_newFrame_self (s.activations + 1) arguments
    code.program.locals.size context
  have hnumber := congrArg Frame.activation hnew
  -- The number of the new activation is larger than all of the others.
  have hne : ∀ f ∈ fs, (s.heap.frame f).activation ≠ s.activations + 1 := fun f hf heq =>
    absurd (h.counted f hf) (by omega)
  refine ⟨List.nodup_cons.2 ⟨fun hf => (hlt _ hf).ne rfl, h.distinct⟩, fun f => ?_,
    fun f hf g hg heq => ?_, fun f hf => ?_⟩
  · rw [List.mem_cons, hsize]
    rcases Nat.lt_trichotomy f s.heap.frames.size with hf | rfl | hf
    · rw [hold f hf, h.onStack f]
      constructor
      · rintro (rfl | ⟨-, hm⟩)
        · exact absurd hf (lt_irrefl _)
        · exact ⟨hf.trans (Nat.lt_succ_self _), hm⟩
      · exact fun hm => .inr ⟨hf, hm.2⟩
    · exact iff_of_true (.inl rfl) ⟨Nat.lt_succ_self _, congrArg Frame.marker hnew⟩
    · refine iff_of_false ?_ fun hm => Nat.not_lt_of_le hf hm.1
      rintro (rfl | hmem)
      · exact Nat.lt_irrefl _ hf
      · exact Nat.lt_asymm hf (hlt f hmem)
  · rcases List.mem_cons.1 hf with rfl | hf <;> rcases List.mem_cons.1 hg with rfl | hg
    · rfl
    · rw [hold g (hlt g hg)] at heq
      exact absurd (heq.symm.trans hnumber) (hne g hg)
    · rw [hold f (hlt f hf)] at heq
      exact absurd (heq.trans hnumber) (hne f hf)
    · rw [hold f (hlt f hf), hold g (hlt g hg)] at heq
      exact h.apart f hf g hg heq
  · rcases List.mem_cons.1 hf with rfl | hf
    · exact hnumber.le
    · rw [hold f (hlt f hf)]
      exact (h.counted f hf).trans (Nat.le_succ _)

theorem ends (h : s.Carries (f :: fs)) {exit : Marker} (hexit : exit ≠ .onStack) :
    (s.leave f exit).Carries fs := by
  obtain ⟨hf, hdistinct⟩ := List.nodup_cons.1 h.distinct
  have hlike : s.heap.Like (s.leave f exit).heap := s.heap.like_leave f exit
  refine ⟨hdistinct, fun g => ?_, fun g hg g' hg' heq => ?_, fun g hg => ?_⟩
  · rw [hlike.size]
    by_cases hg : f = g
    · subst hg
      obtain ⟨hlt, hm⟩ := (h.onStack f).1 List.mem_cons_self
      exact iff_of_false hf fun hg => hexit ((s.heap.marker_leave_self hlt hm _).symm.trans hg.2)
    · rw [show (s.leave f exit).heap.frame g = _ from s.heap.frame_leave_of_ne hg _,
        ← h.onStack g, List.mem_cons]
      exact ⟨.inr, fun hmem => hmem.resolve_left fun he => hg he.symm⟩
  · rw [(hlike.frame g).activation, (hlike.frame g').activation] at heq
    exact h.apart g (List.mem_cons_of_mem _ hg) g' (List.mem_cons_of_mem _ hg') heq
  · rw [(hlike.frame g).activation]
    exact h.counted g (List.mem_cons_of_mem _ hg)

end Stage.Carries

/-- What a move does to the activations in progress: they stay, a new one starts, or the innermost
    one ends. -/
inductive Turnover (s : Stage) : List FrameRef → Stage → List FrameRef → Prop
  | stays {s' : Stage} (fs : List FrameRef) : s.heap.Like s'.heap →
      (∀ f, (s'.heap.frame f).marker = (s.heap.frame f).marker) →
        s'.activations = s.activations → Turnover s fs s' fs
  | starts (fs : List FrameRef) (code : Code) (arguments : List Value)
      (context : Option FrameRef) :
      Turnover s fs (s.enter code arguments context) (s.heap.frames.size :: fs)
  | ends (f : FrameRef) (fs : List FrameRef) {exit : Marker} :
      exit ≠ .onStack → Turnover s (f :: fs) (s.leave f exit) fs

namespace Turnover

theorem refl (s : Stage) (fs : List FrameRef) : Turnover s fs s fs :=
  .stays fs ⟨rfl, fun _ => .refl _, fun _ _ => rfl⟩ (fun _ => rfl) rfl

theorem of_eq (fs : List FrameRef) (h : s' = s) : Turnover s fs s' fs :=
  h ▸ .refl s' fs

theorem carries (ht : Turnover s fs s' fs') (h : s.Carries fs) : s'.Carries fs' := by
  cases ht with
  | stays _ hlike hmarker hcount => exact h.stays hlike hmarker hcount
  | starts _ code arguments context => exact h.starts code arguments context
  | ends f _ hexit => exact h.ends hexit

/-- Markers of activations that have ended stay. -/
theorem marker (ht : Turnover s fs s' fs') (hf : f < s.heap.frames.size)
    (hm : (s.heap.frame f).marker ≠ .onStack) :
    f < s'.heap.frames.size ∧ (s'.heap.frame f).marker = (s.heap.frame f).marker := by
  cases ht with
  | stays _ hlike hmarker _ => exact ⟨hlike.size.symm ▸ hf, hmarker f⟩
  | starts _ code arguments context =>
    refine ⟨?_, congrArg Frame.marker (s.heap.frame_newFrame_of_lt _ _ _ _ hf)⟩
    rw [show (s.enter code arguments context).heap.frames.size = _ from
      s.heap.newFrame_size _ _ _ _]
    exact hf.trans (Nat.lt_succ_self _)
  | ends g _ hexit =>
    refine ⟨(s.heap.like_leave g _).size.symm ▸ hf, ?_⟩
    rw [show (s.leave g _).heap.frame f = _ from s.heap.frame_leave g _ f]
    split <;> rfl

end Turnover

/-! ### Moves -/

theorem Unwind.ending_frames (u : Unwind) (activation : Nat) :
    (u.ending activation).2.frames = [] :=
  Job.frames_of_ne_execute (u.ending_ne_execute activation)

namespace Machine

variable {m m' : Machine} {ran : FrameRef → Code}

/-- A move does not touch the activations in progress, but for the innermost one. -/
theorem Moves.turnover (hm : Moves m m') :
    Turnover m.world.stage m.frames m'.world.stage m'.frames := by
  cases hm with
  | @does w a k r hd =>
    cases hd with
    | @goesOn b w' _ hframe hu =>
      have hfs : Machine.frames ⟨w', .execute b, k⟩ = Machine.frames ⟨w, .execute a, k⟩ := by
        rw [Machine.frames, Job.frames, hframe]
        rfl
      have hactivations : w'.stage.activations = w.stage.activations := by
        obtain ⟨heap, hstage⟩ := updates_stage hu
        rw [hstage]
      exact hfs ▸ .stays _ (Heap.like_updates hu) (Heap.marker_updates hu) hactivations
    | @ends v w' hstage => exact hstage ▸ .ends a.frame _ nofun
    | @raises u job w' _ hjob hstage =>
      have hfs : Machine.frames ⟨w', job, k⟩ = Pending.frames k := by
        rw [Machine.frames, hjob, u.ending_frames, List.nil_append]
      exact hfs ▸ hstage ▸ .ends a.frame _ (u.ending_marker _)
  | @asks w w' a b job k hasks houter _ hstage =>
    have hfs : Machine.frames ⟨w', job, .sender b :: k⟩ = Machine.frames ⟨w, .execute a, k⟩ := by
      rw [Machine.frames, Job.frames_of_ne_execute (Job.ne_execute_of_outer houter)]
      show Pending.frames (.sender b :: k) = a.frame :: Pending.frames k
      rw [Pending.frames_cons_of_some rfl, hasks.frame]
    exact hfs ▸ .of_eq _ hstage
  | @enters w w' job code arguments context k he hstage =>
    have hjob : job.frames = [] := by
      cases he <;> rfl
    have hfs : Machine.frames ⟨w, job, k⟩ = Pending.frames k := by
      rw [Machine.frames, hjob, List.nil_append]
    exact hfs ▸ hstage ▸ .starts _ code arguments context
  | @resumes w p a v k hp =>
    have hfs : Machine.frames ⟨w, .answer v, p :: k⟩ = a.frame :: Pending.frames k :=
      Pending.frames_cons_of_some hp
    exact hfs ▸ .refl _ _
  | @restarts w w' a k hstage => exact .of_eq _ hstage
  | @reports w w' a b v receiver k hstage => exact .of_eq _ hstage
  | @abandons w w' p a u job k hp hjob hstage =>
    have hfs : Machine.frames ⟨w, .unwind u, p :: k⟩ = a.frame :: Pending.frames k :=
      Pending.frames_cons_of_some hp
    have hfs' : Machine.frames ⟨w', job, k⟩ = Pending.frames k := by
      rw [Machine.frames, hjob, u.ending_frames, List.nil_append]
    exact hfs ▸ hfs' ▸ hstage ▸ .ends a.frame _ (u.ending_marker _)
  | @passes w w' p u k hp hstage =>
    have hfs : Machine.frames ⟨w', .unwind u, k⟩ = Machine.frames ⟨w, .unwind u, p :: k⟩ :=
      (Pending.frames_cons_of_none hp).symm
    exact hfs ▸ .of_eq _ hstage
  | stops w u k => exact .refl _ _
  | @works w w' job job' k k' hne houter _ hstage hshifts =>
    have hfs : Machine.frames ⟨w', job', k'⟩ = Machine.frames ⟨w, job, k⟩ := by
      rw [Machine.frames, Machine.frames, Job.frames_of_ne_execute hne,
        Job.frames_of_ne_execute (Job.ne_execute_of_outer houter)]
      exact hshifts.frames
    exact hfs ▸ .of_eq _ hstage
  | rests _ => exact .refl _ _

/-! ### What comes next -/

theorem pending_of_idle (h : m.outcome ≠ .unfinished) : m.pending = [] := by
  obtain ⟨w, job, k⟩ := m
  cases k with
  | nil => rfl
  | cons p k =>
    refine absurd ?_ h
    cases job <;> rfl

theorem frames_of_idle (h : m.outcome ≠ .unfinished) : m.frames = [] := by
  rw [Machine.frames, pending_of_idle h]
  rw [Job.frames_of_ne_execute]
  · rfl
  · rintro a ha
    refine h ?_
    unfold outcome
    rw [ha]

theorem Consults.frames {k : List Pending} (hc : m.Consults k) : m.frames = Pending.frames k := by
  cases hc <;> rfl

theorem frames_of_asks {w : World} {job : Job} (hj : w.Asks job) : job.frames = [] := by
  cases job with
  | execute a => exact hj.elim
  | _ => rfl

/-- When another machine goes on, nothing is in progress. -/
theorem Next.turnover (h : m.Settled ran) (hn : m.Next m') :
    Turnover m.world.stage m.frames m'.world.stage m'.frames ∨
      m.frames = [] ∧ m'.frames = [] ∧ m'.world.heap = m.world.heap := by
  cases hn with
  | step => exact .inl h.moves.turnover
  | prepare hp =>
    obtain ⟨classes, codes, hstage⟩ := hp.stage
    refine .inl ?_
    rw [hstage]
    exact .stays _ ⟨rfl, fun _ => .refl _, fun _ _ => rfl⟩ (fun _ => rfl) rfl
  | @request job hi hj =>
    have hfs : Machine.frames ⟨m.world, job, []⟩ = m.frames := by
      rw [frames_of_idle hi, Machine.frames, frames_of_asks hj]
      rfl
    exact .inl (hfs ▸ .refl _ _)
  | turn hi _ hheap _ _ _ _ _ => exact .inr ⟨frames_of_idle hi, rfl, hheap⟩
  | @consult k job hc hj =>
    have hfs : Machine.frames ⟨m.world, job, .sent :: k⟩ = m.frames := by
      rw [hc.frames, Machine.frames, frames_of_asks hj]
      rfl
    exact .inl (hfs ▸ .refl _ _)
  | reply hc _ =>
    rw [hc.frames]
    exact .inl (.refl _ _)

theorem Next.marker (h : m.Settled ran) (hn : m.Next m') (hf : f < m.world.heap.frames.size)
    (hm : (m.world.heap.frame f).marker ≠ .onStack) : f < m'.world.heap.frames.size ∧
      (m'.world.heap.frame f).marker = (m.world.heap.frame f).marker := by
  rcases hn.turnover h with ht | ⟨-, -, hheap⟩
  · exact ht.marker hf hm
  · rw [hheap]
    exact ⟨hf, rfl⟩

end Machine

theorem Job.ne_nonLocal_of_outer {job : Job} (h : job.isOuter) (target : Nat) (v : Value) :
    job ≠ .unwind (.nonLocal target v) := by
  rintro rfl
  cases h

namespace Machine

variable {m m' : Machine} {ran : FrameRef → Code}

/-- What an ordinary machine keeps about its activations in progress. -/
structure Carrying (m : Machine) : Prop where
  carries : m.world.stage.Carries m.frames
  /-- A return is on its way to one of them. -/
  targets : ∀ target v, m.job = .unwind (.nonLocal target v) →
    ∃ f ∈ m.frames, (m.world.heap.frame f).activation = target
  /-- Under the standard handler nothing stops an unwind. -/
  waits : m.world.handler.isStandard → ∀ p ∈ m.pending, p.isLoop ∨ p.activation?.isSome
  faults : m.world.handler.isStandard → ∀ f, m.job = .fail f → f.isUnwinding = false

/-- A return that an activation does not settle is on its way to another one. -/
theorem target_of_ending {s s' : Stage} {fs : List FrameRef} {u : Unwind} {target : Nat} {v : Value}
    (hs' : s' = s.leave f (u.ending (s.heap.frame f).activation).1)
    (hu : (u.ending (s.heap.frame f).activation).2 = .unwind (.nonLocal target v))
    (h : ∃ g ∈ f :: fs, (s.heap.frame g).activation = target) :
    ∃ g ∈ fs, (s'.heap.frame g).activation = target := by
  obtain ⟨rfl, hne⟩ := Unwind.ending_nonLocal hu
  obtain ⟨g, hg, rfl⟩ := h
  rcases List.mem_cons.1 hg with rfl | hg
  · exact absurd rfl hne
  · refine ⟨g, hg, ?_⟩
    rw [hs']
    exact ((s.heap.like_leave f _).frame g).activation

/-- The method that a return is for is in progress if it is marked so. -/
theorem Carrying.home_mem (hc : m.Carrying) (h : m.Settled ran) {a : Activation}
    (ha : m.job = .execute a)
    (hm : (m.world.heap.frame (m.world.heap.home a.frame)).marker = .onStack) :
    m.world.heap.home a.frame ∈ m.frames := by
  refine (hc.carries.onStack _).2 ⟨?_, hm⟩
  have hhome := List.mem_of_getElem? (m.world.heap.home_eq a.frame)
  exact h.housed.heap.around_lt (h.housed.executes a ha).frame hhome

theorem Carrying.targets_moves (hc : m.Carrying) (h : m.Settled ran) (hm : Moves m m') :
    ∀ target v, m'.job = .unwind (.nonLocal target v) →
      ∃ f ∈ m'.frames, (m'.world.heap.frame f).activation = target := by
  intro target v hjob
  cases hm with
  | @does w a k r hd =>
    cases hd with
    | goesOn _ _ _ | ends _ _ => cases hjob
    | @raises u job w' hr hj hstage =>
      obtain rfl : job = .unwind (.nonLocal target v) := hjob
      obtain ⟨rfl, -⟩ := Unwind.ending_nonLocal hj.symm
      cases hr with
      | nonLocal _ _ hm =>
        exact target_of_ending (s := w.stage) hstage hj.symm ⟨_, hc.home_mem h rfl hm, rfl⟩
  | asks _ houter _ _ => exact absurd hjob (Job.ne_nonLocal_of_outer houter target v)
  | @abandons w w' p a u job k hp hj hstage =>
    obtain rfl : job = .unwind (.nonLocal target v) := hjob
    obtain ⟨rfl, -⟩ := Unwind.ending_nonLocal hj.symm
    obtain ⟨f, hf, hactivation⟩ := hc.targets target v rfl
    rw [show Machine.frames ⟨w, .unwind _, p :: k⟩ = _ from Pending.frames_cons_of_some hp] at hf
    exact target_of_ending (s := w.stage) hstage hj.symm ⟨f, hf, hactivation⟩
  | @passes w w' p u k hp hstage =>
    obtain ⟨f, hf, hactivation⟩ := hc.targets target v hjob
    rw [show Machine.frames ⟨w, .unwind u, p :: k⟩ = _ from Pending.frames_cons_of_none hp] at hf
    exact ⟨f, hf, (congrArg (fun s => (s.heap.frame f).activation) hstage).trans hactivation⟩
  | works _ houter _ _ _ => exact absurd hjob (Job.ne_nonLocal_of_outer houter target v)
  | rests _ => exact hc.targets target v hjob
  | _ => cases hjob

theorem Carrying.waits_moves (hc : m.Carrying) (hm : Moves m m')
    (hs : m.world.handler.isStandard) :
    ∀ p ∈ m'.pending, p.isLoop ∨ p.activation?.isSome := by
  have hold := hc.waits hs
  cases hm with
  | does _ | enters _ _ | rests _ => exact hold
  | asks _ _ _ _ =>
    rintro p hp
    rcases List.mem_cons.1 hp with rfl | hp
    · exact .inr rfl
    · exact hold p hp
  | reports _ _ _ _ _ _ =>
    rintro p hp
    rcases List.mem_cons.1 hp with rfl | hp
    · exact .inr rfl
    · exact hold p (List.mem_cons_of_mem _ hp)
  | works _ _ _ _ hshifts =>
    cases hshifts with
    | none => exact hold
    | push _ _ hloop =>
      rintro p hp
      rcases List.mem_cons.1 hp with rfl | hp
      · exact .inl (hloop hs)
      · exact hold p hp
    | pop _ _ => exact fun p hp => hold p (List.mem_cons_of_mem _ hp)
  | _ => exact fun p hp => hold p (List.mem_cons_of_mem _ hp)

theorem Carrying.faults_moves (hc : m.Carrying) (hm : Moves m m')
    (hs : m.world.handler.isStandard) : ∀ f, m'.job = .fail f → f.isUnwinding = false := by
  intro f hjob
  cases hm with
  | does hd =>
    cases hd with
    | goesOn _ _ _ | ends _ _ => cases hjob
    | raises hr hj _ =>
      obtain rfl := Unwind.ending_failed (hj.symm.trans hjob)
      cases hr with
      | failed _ hf => exact hf
  | asks _ ho _ _ => exact (Job.of_outer_fail (hjob ▸ ho)).2.2
  | abandons _ _ hj _ =>
    obtain rfl := Unwind.ending_failed (hj.symm.trans hjob)
    exact hc.faults hs f rfl
  | passes _ _ _ _ => exact hc.faults hs f hjob
  | stops _ _ _ => rcases hc.waits hs _ List.mem_cons_self with hl | ha <;> contradiction
  | works _ ho _ _ _ => exact (Job.of_outer_fail (hjob ▸ ho)).2.2
  | rests _ => exact hc.faults hs f hjob
  | _ => cases hjob

/-- A step does not change whether conditions are told to their receivers. -/
theorem Moves.isStandard (hm : Moves m m') :
    m'.world.handler.isStandard = m.world.handler.isStandard := by
  obtain ⟨heap, activations, hstage⟩ := hm.stage
  exact congrArg Stage.standard hstage

theorem Consults.isStandard {k : List Pending} (hc : m.Consults k) :
    m.world.handler.isStandard = false := by
  cases hc <;> assumption

theorem Carrying.step (hc : m.Carrying) (h : m.Settled ran) : m.step.Carrying where
  carries := h.moves.turnover.carries hc.carries
  targets := hc.targets_moves h h.moves
  waits hs := hc.waits_moves h.moves (h.moves.isStandard ▸ hs)
  faults hs := hc.faults_moves h.moves (h.moves.isStandard ▸ hs)

theorem Carrying.next (hc : m.Carrying) (h : m.Settled ran) (hn : m.Next m') : m'.Carrying := by
  have hcarries : m'.world.stage.Carries m'.frames := by
    rcases hn.turnover h with ht | ⟨hfs, hfs', hheap⟩
    · exact ht.carries hc.carries
    -- Where nothing is in progress, the numbers of activations do not matter.
    · have hcarries := hc.carries
      rw [hfs] at hcarries
      rw [hfs']
      refine ⟨.nil, fun f => ?_, nofun, nofun⟩
      rw [show m'.world.stage.heap = m.world.stage.heap from congrArg Heap.shell hheap]
      exact hcarries.onStack f
  cases hn with
  | step => exact hc.step h
  | prepare hp =>
    obtain ⟨classes, codes, hstage⟩ := hp.stage
    refine ⟨hcarries, fun target v hjob => ?_, fun hs => ?_, fun hs => ?_⟩
    · obtain ⟨f, hf, hactivation⟩ := hc.targets target v hjob
      exact ⟨f, hf, (congrArg (fun s => (s.heap.frame f).activation) hstage).trans hactivation⟩
    · exact hc.waits ((congrArg Stage.standard hstage).symm.trans hs)
    · exact hc.faults ((congrArg Stage.standard hstage).symm.trans hs)
  | request _ hj =>
    refine ⟨hcarries, ?_, nofun, fun _ => ?_⟩
    · rintro target v rfl
      exact hj.elim
    · rintro f rfl
      exact hj.elim
  | turn _ _ _ _ _ _ _ _ => exact ⟨hcarries, nofun, nofun, nofun⟩
  | consult hk hj =>
    refine ⟨hcarries, ?_, fun hs => ?_, fun _ => ?_⟩
    · rintro target v rfl
      exact hj.elim
    · exact absurd (hk.isStandard.symm.trans hs) Bool.false_ne_true
    · rintro f rfl
      exact hj.elim
  | reply hk _ =>
    exact ⟨hcarries, nofun, fun hs => absurd (hk.isStandard.symm.trans hs) Bool.false_ne_true,
      nofun⟩

theorem carrying_of_fresh {w : World} (hf : w.Fresh) : Carrying ⟨w, .answer .nil, []⟩ where
  carries := by
    refine ⟨.nil, fun f => ?_, nofun, nofun⟩
    rw [hf.heap]
    exact iff_of_false List.not_mem_nil fun hlt => Nat.not_lt_zero _ hlt.1
  targets := nofun
  waits := nofun
  faults := nofun

theorem Ordinary.carrying (h : m.Ordinary ran) : m.Carrying := by
  induction h with
  | bare settings handler sink watched =>
    exact carrying_of_fresh (World.bare_fresh settings handler sink watched)
  | boot settings handler sink watched =>
    exact carrying_of_fresh (World.boot_fresh settings handler sink watched)
  | next h hn ih => exact ih.next h.settled hn

theorem Ordinary.isStandard_iterate (h : m.Ordinary ran) (n : Nat) :
    (step^[n] m).world.handler.isStandard = m.world.handler.isStandard := by
  induction n with
  | zero => rfl
  | succ n ih =>
    obtain ⟨ran', h'⟩ := h.iterate n
    rw [Function.iterate_succ_apply', h'.settled.moves.isStandard, ih]

/-! ### Ended activations -/

theorem Ordinary.marker_later (h : m.Ordinary ran) (hl : m.Later m')
    (hf : f < m.world.heap.frames.size) (hm : (m.world.heap.frame f).marker ≠ .onStack) :
    f < m'.world.heap.frames.size ∧
      (m'.world.heap.frame f).marker = (m.world.heap.frame f).marker := by
  induction hl with
  | refl => exact ⟨hf, rfl⟩
  | tail hl hn ih =>
    obtain ⟨ran', h'⟩ := h.later hl
    obtain ⟨hf', hm'⟩ := ih
    obtain ⟨hf'', hm''⟩ := hn.marker h'.settled hf' (hm' ▸ hm)
    exact ⟨hf'', hm''.trans hm'⟩

/-- In the frame of an activation that has ended nothing is ever executed again. -/
theorem Ordinary.ended (h : m.Ordinary ran) (hl : m.Later m')
    (hf : f < m.world.heap.frames.size) (hm : (m.world.heap.frame f).marker ≠ .onStack) :
    ∀ a, m'.job = .execute a → a.frame ≠ f := by
  rintro a ha rfl
  obtain ⟨ran', h'⟩ := h.later hl
  have hmem : a.frame ∈ m'.frames := by
    rw [Machine.frames, ha]
    exact List.mem_cons_self
  refine hm ((h.marker_later hl hf hm).2.symm.trans ?_)
  exact ((h'.carrying.carries.onStack _).1 hmem).2

end Machine

end Parley
