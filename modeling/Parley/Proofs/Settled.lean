import Parley.Proofs.Ordinary
import Parley.Proofs.Seats

/-!
# What ordinary machines keep

An ordinary machine comes with a record of the codes that were executed in its frames. Its heap fits
the record, and each of its activations is in a frame for its code (`Machine.Housed`). Besides it
keeps to a stock, calls compiled methods only, and never fails by a lexical fault: it is *settled*
(`Machine.Settled`, `Machine.Ordinary.settled`).

A settled machine that is about to execute an instruction finds what the instruction addresses
(`Machine.Settled.ready`), so that all of its steps are moves (`Machine.Settled.moves`).
-/

namespace Parley

variable {s : Stock} {w w' : World} {ran : FrameRef → Code}

/-! ### Activations in frames for them -/

theorem World.shell_of_stage (h : w'.stage = w.stage) : w'.heap.shell = w.heap.shell :=
  congrArg Stage.heap h

theorem Heap.Seated.of_shell {h h' : Heap} (hs : h.Seated ran) (hh : h'.shell = h.shell) :
    h'.Seated ran := by
  rw [← Heap.seated_shell, hh, Heap.seated_shell]
  exact hs

theorem Heap.size_of_shell {h h' : Heap} (hh : h'.shell = h.shell) :
    h'.frames.size = h.frames.size := by
  have hframes : h'.shell.frames.size = h.shell.frames.size := by rw [hh]
  exact hframes

theorem Unwind.ending_ne_execute (u : Unwind) (activation : Nat) (a : Activation) :
    (u.ending activation).2 ≠ .execute a := by
  rcases u.ending_job activation with ⟨v, h⟩ | h <;> rw [h] <;> nofun

theorem Job.ne_execute_of_outer {job : Job} (h : job.isOuter) (a : Activation) :
    job ≠ .execute a :=
  Job.ne_execute (Job.outward h) a

namespace Machine

variable {m m' : Machine}

/-- A heap that fits a record, and activations each in a frame for its code. -/
structure Housed (m : Machine) (ran : FrameRef → Code) : Prop where
  heap : m.world.heap.Seated ran
  executes : ∀ a, m.job = .execute a → a.Seated m.world.heap ran
  waits : ∀ p ∈ m.pending, ∀ a, p.activation? = some a → a.Seated m.world.heap ran

theorem record_eq (h : ∀ a, m.job = .execute a → ran a.frame = a.code) : m.record ran = ran := by
  unfold record
  split
  · rename_i a ha
    rw [← h a ha, Function.update_eq_self]
  · rfl

/-- Where no frame is made, it is enough that each activation was there before. -/
theorem Housed.same {h : Heap} (hs : m.world.heap.Seated ran)
    (hsize : m.world.heap.frames.size = h.frames.size)
    (hex : ∀ a, m.job = .execute a →
      ∃ b : Activation, b.Seated h ran ∧ a.frame = b.frame ∧ a.code = b.code)
    (hw : ∀ p ∈ m.pending, ∀ a, p.activation? = some a →
      ∃ b : Activation, b.Seated h ran ∧ a.frame = b.frame ∧ a.code = b.code) :
    m.Housed (m.record ran) := by
  have hseated : ∀ {a : Activation},
      (∃ b : Activation, b.Seated h ran ∧ a.frame = b.frame ∧ a.code = b.code) →
        a.Seated m.world.heap ran := by
    rintro a ⟨b, hb, hframe, hcode⟩
    exact ⟨by rw [hframe, hsize]; exact hb.frame, by rw [hframe, hcode]; exact hb.code⟩
  rw [record_eq fun a ha => (hseated (hex a ha)).code]
  exact ⟨hs, fun a ha => hseated (hex a ha), fun p hp a ha => hseated (hw p hp a ha)⟩

/-- A new frame is for the code that is to be executed in it. -/
theorem Housed.enters {w w' : World} {job : Job} {code : Code} {arguments : List Value}
    {context : Option FrameRef} {k : List Pending} (h : Housed ⟨w, job, k⟩ ran)
    (he : w.Enters job code arguments context)
    (hcalls : ∀ c arguments, job = .invoke (.method c) arguments → c.Lexical [])
    (hstage : w'.stage = w.stage.enter code arguments context) :
    Housed ⟨w', .execute (.start code w.heap.frames.size), k⟩
      (Function.update ran w.heap.frames.size code) := by
  have hold : ∀ g < w.heap.frames.size, Function.update ran w.heap.frames.size code g = ran g :=
    fun g hg => Function.update_of_ne hg.ne _ _
  have hself : Function.update ran w.heap.frames.size code w.heap.frames.size = code :=
    Function.update_self _ _ _
  have hs := h.heap.enters he hcalls (w.thread.activations + 1) hold hself
  have hshell : w'.heap.shell = (w.heap.newFrame (w.thread.activations + 1) arguments
      code.program.locals.size context).2.shell := congrArg Stage.heap hstage
  have hsize := (Heap.size_of_shell hshell).trans (w.heap.newFrame_size _ _ _ _)
  refine ⟨hs.of_shell hshell, ?_, fun p hp a ha => ?_⟩
  · rintro _ ⟨⟩
    exact ⟨hsize.symm ▸ Nat.lt_succ_self _, hself⟩
  · have hwaits := h.waits p hp a ha
    exact ⟨hsize.symm ▸ hwaits.frame.trans (Nat.lt_succ_self _),
      (hold a.frame hwaits.frame).trans hwaits.code⟩

/-- Where the stage stays, the frames do. -/
theorem Housed.stays (h : m.Housed ran) (hstage : m'.world.stage = m.world.stage)
    (hex : ∀ a, m'.job = .execute a →
      ∃ b : Activation, b.Seated m.world.heap ran ∧ a.frame = b.frame ∧ a.code = b.code)
    (hw : ∀ p ∈ m'.pending, ∀ a, p.activation? = some a →
      ∃ b : Activation, b.Seated m.world.heap ran ∧ a.frame = b.frame ∧ a.code = b.code) :
    m'.Housed (m'.record ran) :=
  have hshell := World.shell_of_stage hstage
  .same (h.heap.of_shell hshell) (Heap.size_of_shell hshell) hex hw

/-- An activation that ends leaves its frame where it is. -/
theorem Housed.leaves (h : m.Housed ran) {f : FrameRef} {exit : Marker}
    (hstage : m'.world.stage = m.world.stage.leave f exit) (hjob : ∀ a, m'.job ≠ .execute a)
    (hw : ∀ p ∈ m'.pending, ∀ a, p.activation? = some a →
      ∃ b : Activation, b.Seated m.world.heap ran ∧ a.frame = b.frame ∧ a.code = b.code) :
    m'.Housed (m'.record ran) := by
  have hshell : m'.world.heap.shell = (m.world.heap.leave f exit).shell :=
    congrArg Stage.heap hstage
  exact .same ((h.heap.leave _ _).of_shell hshell)
    ((Heap.size_of_shell hshell).trans (m.world.heap.like_leave _ _).size)
    (fun a ha => absurd ha (hjob a)) hw

theorem Moves.housed (hm : Moves m m') (h : m.Housed ran)
    (hstart : ∀ a, m.job = .execute a → a.AtStart)
    (hcalls : ∀ c arguments, m.job = .invoke (.method c) arguments → c.Lexical []) :
    m'.Housed (m'.record ran) := by
  -- What waited in the rest of the stack waits there still.
  have hrest : ∀ {k : List Pending}, (∀ p ∈ k, p ∈ m.pending) → ∀ p ∈ k, ∀ a,
      p.activation? = some a →
      ∃ b : Activation, b.Seated m.world.heap ran ∧ a.frame = b.frame ∧ a.code = b.code :=
    fun hk p hp a ha => ⟨a, h.waits p (hk p hp) a ha, rfl, rfl⟩
  cases hm with
  | @does w a k r hd =>
    have ha := h.executes a rfl
    cases hd with
    | @goesOn b w' hcode hframe hu =>
      have hs := (Heap.seated_shell.2 h.heap).updates (s := w.stage)
        ⟨ha.frame, ha.code⟩ (hstart a rfl) hu
      refine .same (h := w.heap) (Heap.seated_shell.1 hs) (Heap.like_updates hu).size ?_
        (hrest fun _ => id)
      rintro _ ⟨⟩
      exact ⟨a, ha, hframe, hcode⟩
    | @ends v w' hstage => exact h.leaves hstage nofun (hrest fun _ => id)
    | @raises u job w' hr hjob hstage =>
      exact h.leaves hstage (fun b hb => u.ending_ne_execute _ b (hjob.symm.trans hb))
        (hrest fun _ => id)
  | @asks w w' a b job k hasks houter hlisted hstage =>
    refine h.stays hstage (fun c hc => absurd hc (Job.ne_execute_of_outer houter c))
      fun p hp c hc => ?_
    rcases List.mem_cons.1 hp with rfl | hp
    · cases hc
      exact ⟨a, h.executes a rfl, hasks.frame, hasks.code⟩
    · exact hrest (fun _ => id) p hp c hc
  | enters he hstage => exact h.enters he hcalls hstage
  | @resumes w p a v k hp =>
    refine h.stays rfl ?_ (hrest fun _ => List.mem_cons_of_mem _)
    rintro _ ⟨⟩
    exact ⟨a, h.waits p List.mem_cons_self a hp, rfl, rfl⟩
  | @restarts w w' a k hstage =>
    refine h.stays hstage ?_ (hrest fun _ => List.mem_cons_of_mem _)
    rintro _ ⟨⟩
    exact ⟨a, h.waits _ List.mem_cons_self a rfl, rfl, rfl⟩
  | @reports w w' a b v receiver k hstage =>
    refine h.stays hstage nofun fun p hp c hc => ?_
    rcases List.mem_cons.1 hp with rfl | hp
    · cases hc
      exact ⟨a, h.waits _ List.mem_cons_self a rfl, rfl, rfl⟩
    · exact hrest (fun _ => List.mem_cons_of_mem _) p hp c hc
  | @abandons w w' p a u job k hp hjob hstage =>
    exact h.leaves hstage (fun b hb => u.ending_ne_execute _ b (hjob.symm.trans hb))
      (hrest fun _ => List.mem_cons_of_mem _)
  | @passes w w' p u k hp hstage =>
    exact h.stays hstage nofun (hrest fun _ => List.mem_cons_of_mem _)
  | stops w u k => exact h.stays rfl nofun (hrest fun _ => List.mem_cons_of_mem _)
  | @works w w' job job' k k' hne houter hlisted hstage hshifts =>
    refine h.stays hstage (fun c hc => absurd hc (Job.ne_execute_of_outer houter c))
      fun p hp a ha => ?_
    cases hshifts with
    | none => exact hrest (fun _ => id) p hp a ha
    | push _ hnone _ =>
      rcases List.mem_cons.1 hp with rfl | hp
      · rw [hnone] at ha
        cases ha
      · exact hrest (fun _ => id) p hp a ha
    | pop _ _ => exact hrest (fun _ => List.mem_cons_of_mem _) p hp a ha
  | rests _ => exact h.stays rfl (fun a ha => ⟨a, h.executes a ha, rfl, rfl⟩) (hrest fun _ => id)

/-! ### Settled machines -/

/-- What an ordinary machine keeps. -/
structure Settled (m : Machine) (ran : FrameRef → Code) : Prop where
  stock : ∃ s, m.Sound s
  compiled : m.world.stage.Compiled
  housed : m.Housed ran
  /-- Each activation is in a state of a run of its code. -/
  underway : ∀ code, Underway code m
  calls : ∀ c arguments, m.job = .invoke (.method c) arguments → c.Lexical []
  faults : ∀ f, m.job = .fail f → f.isLexical = false

namespace Settled

variable (h : m.Settled ran)

include h

/-- The activation that executes is at an instruction. -/
theorem atStart (a : Activation) (ha : m.job = .execute a) : a.AtStart := by
  have hseated := h.housed.executes a ha
  have hfits := (h.housed.heap.frames a.frame hseated.frame).fits
  rw [hseated.code] at hfits
  rcases hfits.check with hd | ⟨⟨depths, bound⟩, hcheck⟩
  · exact .inl hd
  · have hrun := (h.underway a.code).executes a ha rfl
    exact .inr (hrun.placed (Tape.checked_of_check hcheck)).1.starts

/-- It finds what its instruction addresses. -/
theorem ready : m.Ready ran where
  finds a _ ha hop :=
    h.housed.heap.finds_of_activation (h.housed.executes a ha) (h.atStart a ha) hop
  reads a ha hop :=
    h.housed.heap.reads_of_activation (h.housed.executes a ha) (h.atStart a ha) hop rfl

theorem moves : Moves m m.step :=
  let ⟨_, hs⟩ := h.stock
  step_moves hs h.ready

end Settled

/-! ### What moves leave as it is -/

theorem updates_stage {a : Activation} {s s' : Stage} (hu : a.Updates s s') :
    ∃ heap, s' = { s with heap } := by
  cases hu <;> exact ⟨_, rfl⟩

/-- A step makes no class, installs nothing and changes no handler for one of the other kind. -/
theorem Moves.stage (hm : Moves m m') :
    ∃ heap activations, m'.world.stage = { m.world.stage with heap, activations } := by
  cases hm with
  | does hd =>
    cases hd with
    | goesOn _ _ hu =>
      obtain ⟨heap, hstage⟩ := updates_stage hu
      exact ⟨heap, _, hstage⟩
    | ends _ hstage | raises _ _ hstage => exact ⟨_, _, hstage⟩
  | asks _ _ _ hstage | enters _ hstage | restarts _ _ hstage | reports _ _ _ _ _ hstage
  | abandons _ _ _ hstage | passes _ _ _ hstage | works _ _ _ hstage _ => exact ⟨_, _, hstage⟩
  | resumes _ _ _ _ | stops _ _ _ | rests _ => exact ⟨_, _, rfl⟩

theorem Moves.compiled (hm : Moves m m') (h : m.world.stage.Compiled) :
    m'.world.stage.Compiled := by
  obtain ⟨heap, activations, hstage⟩ := hm.stage
  rw [hstage]
  exact ⟨h.codes, h.methods⟩

/-- What is called was installed. -/
theorem Moves.calls (hm : Moves m m') (h : m.world.stage.Compiled)
    (hcalls : ∀ c arguments, m.job = .invoke (.method c) arguments → c.Lexical []) :
    ∀ c arguments, m'.job = .invoke (.method c) arguments → c.Lexical [] := by
  have hlisted : ∀ {job : Job}, job.Listed m.world.classes →
      ∀ c arguments, job = .invoke (.method c) arguments → c.Lexical [] := by
    intro job hl c arguments hj
    obtain ⟨k, selector, hk⟩ := hl c arguments hj
    exact h.methods k selector c hk
  have hending : ∀ {u : Unwind} {n : Nat} {job : Job}, job = (u.ending n).2 →
      ∀ c arguments, job = .invoke (.method c) arguments → c.Lexical [] := by
    rintro u n _ rfl c arguments hj
    rcases u.ending_job n with ⟨v, h⟩ | h <;> cases h.symm.trans hj
  cases hm with
  | does hd =>
    cases hd with
    | goesOn _ _ _ | ends _ _ => nofun
    | raises _ hjob _ => exact hending hjob
  | asks _ _ hl _ => exact hlisted hl
  | abandons _ _ hjob _ => exact hending hjob
  | works _ _ hl _ _ => exact hlisted hl
  | rests _ => exact hcalls
  | _ => nofun

/-- No fault is lexical that comes of what an instruction finds. -/
theorem Moves.faults (hm : Moves m m') (h : ∀ f, m.job = .fail f → f.isLexical = false) :
    ∀ f, m'.job = .fail f → f.isLexical = false := by
  intro f hjob
  cases hm with
  | does hd =>
    cases hd with
    | goesOn _ _ _ | ends _ _ => cases hjob
    | raises hr hj _ =>
      obtain rfl := Unwind.ending_failed (hj.symm.trans hjob)
      cases hr with
      | failed hf _ => exact hf
  | asks _ ho _ _ => exact (Job.of_outer_fail (hjob ▸ ho)).2.1
  | abandons _ _ hj _ =>
    obtain rfl := Unwind.ending_failed (hj.symm.trans hjob)
    exact h f rfl
  | passes _ _ _ _ => exact h f hjob
  | stops w u k =>
    cases u with
    | failed g => exact h f hjob
    | _ =>
      cases hjob
      rfl
  | works _ ho _ _ _ => exact (Job.of_outer_fail (hjob ▸ ho)).2.1
  | rests _ => exact h f hjob
  | _ => cases hjob

theorem Settled.step (h : m.Settled ran) : m.step.Settled (m.step.record ran) where
  stock := let ⟨s, hs⟩ := h.stock; ⟨s, step_sound hs⟩
  compiled := h.moves.compiled h.compiled
  housed := h.moves.housed h.housed h.atStart h.calls
  underway code := step_underway (h.underway code)
  calls := h.moves.calls h.compiled h.calls
  faults := h.moves.faults h.faults

/-! ### What hosts leave as it is -/

theorem Consults.mem {k : List Pending} (hc : m.Consults k) : ∀ p ∈ k, p ∈ m.pending := by
  cases hc with
  | told _ _ _ _ => exact fun _ => id
  | answered _ _ _ | unwound _ _ _ => exact fun _ => List.mem_cons_of_mem _

/-- A job that a host asks for starts something new. -/
theorem Settled.asks (h : m.Settled ran) {job : Job} (hj : m.world.Asks job) {k : List Pending}
    (hs : ∀ s, m.Sound s → ∀ p ∈ k, p.Sound s)
    (hk : ∀ p ∈ k, ∀ a, p.activation? = some a → p ∈ m.pending) :
    Settled ⟨m.world, job, k⟩ (record ⟨m.world, job, k⟩ ran) := by
  obtain ⟨s, hsound⟩ := h.stock
  have hne : ∀ a, job ≠ .execute a := by
    rintro a rfl
    exact hj
  refine ⟨⟨s, hsound.world, requests_sound hsound.world hj.requests, hs s hsound⟩, h.compiled,
    .same h.housed.heap rfl (fun a ha => absurd ha (hne a)) fun p hp a ha =>
      ⟨a, h.housed.waits p (hk p hp a ha) a ha, rfl, rfl⟩,
    fun code => .of_ne_execute (fun a ha => ?_) hne, ?_, ?_⟩
  · refine (h.underway code).waits a ?_
    exact ha.imp (fun ha => hk _ ha a rfl) fun ha => hk _ ha a rfl
  · rintro c arguments rfl
    exact h.compiled.codes c hj.1
  · rintro f rfl
    exact hj.elim

/-- What a host prepares leaves frames and closures as they are. -/
theorem Settled.prepare (h : m.Settled ran) (hp : m.world.Prepares w) :
    Settled { m with world := w } (record { m with world := w } ran) := by
  obtain ⟨s, hsound⟩ := h.stock
  obtain ⟨s', hle, hw⟩ := hp.change.sound hsound.world
  obtain ⟨classes, codes, hstage⟩ := hp.stage
  have hshell : w.heap.shell = m.world.heap.shell := congrArg Stage.heap hstage
  exact ⟨⟨s', hsound.mono hle hw⟩, hp.compiled h.compiled,
    .same (h.housed.heap.of_shell hshell) (Heap.size_of_shell hshell)
      (fun a ha => ⟨a, h.housed.executes a ha, rfl, rfl⟩)
      fun p hp a ha => ⟨a, h.housed.waits p hp a ha, rfl, rfl⟩,
    fun code => ⟨(h.underway code).executes, (h.underway code).waits⟩, h.calls, h.faults⟩

theorem Settled.next (h : m.Settled ran) (hn : m.Next m') : m'.Settled (m'.record ran) := by
  cases hn with
  | step => exact h.step
  | prepare hp => exact h.prepare hp
  | request _ hj => exact h.asks hj nofun nofun
  | @turn w _ hclasses hheap hglobals hsites hheld hcodes hnumbers =>
    obtain ⟨s, hsound⟩ := h.stock
    refine ⟨⟨s, hsound.world.congr hclasses hheap hglobals hsites hheld hcodes hnumbers, trivial,
      nofun⟩, ⟨fun c hc => ?_, fun k selector c hc => ?_⟩, .same (hheap ▸ h.housed.heap) rfl nofun
        nofun,
      fun code => .of_ne_execute nofun nofun, nofun, nofun⟩
    · have hc : c ∈ w.codes := hc
      rw [hcodes] at hc
      exact h.compiled.codes c hc
    · have hc : w.classes.own? k selector = some (.method c) := hc
      rw [hclasses] at hc
      exact h.compiled.methods k selector c hc
  | consult hc hj =>
    refine h.asks hj (fun s hs p hp => ?_) fun p hp a ha => ?_
    · rcases List.mem_cons.1 hp with rfl | hp
      · trivial
      · exact hs.pending p (hc.mem p hp)
    · rcases List.mem_cons.1 hp with rfl | hp
      · cases ha
      · exact hc.mem p hp
  | reply hc hv =>
    obtain ⟨s, hsound⟩ := h.stock
    refine ⟨⟨s, hsound.world, hsound.world.within hv, fun p hp => hsound.pending p (hc.mem p hp)⟩,
      h.compiled, .same h.housed.heap rfl nofun fun p hp a ha =>
        ⟨a, h.housed.waits p (hc.mem p hp) a ha, rfl, rfl⟩,
      fun code => .of_ne_execute (fun a ha => (h.underway code).waits a ?_) nofun, nofun, nofun⟩
    exact ha.imp (hc.mem _) (hc.mem _)

/-- Nothing was executed yet in a fresh world, so that any record fits. -/
theorem settled_of_fresh (hs : ∃ s, Machine.Sound ⟨w, .answer .nil, []⟩ s) (hf : w.Fresh) :
    Settled ⟨w, .answer .nil, []⟩ fun _ => default := by
  have hempty : Heap.empty.Seated fun _ => default := ⟨nofun, nofun⟩
  exact ⟨hs, hf.compiled, ⟨hempty.of_shell hf.heap, nofun, nofun⟩,
    fun code => .of_ne_execute nofun nofun, nofun, nofun⟩

theorem Ordinary.settled (h : m.Ordinary ran) : m.Settled ran := by
  induction h with
  | bare settings handler sink watched =>
    exact settled_of_fresh (Reachable.bare settings handler sink watched).sound
      (World.bare_fresh settings handler sink watched)
  | boot settings handler sink watched =>
    exact settled_of_fresh (Reachable.boot settings handler sink watched).sound
      (World.boot_fresh settings handler sink watched)
  | next _ hn ih => exact ih.next hn

/-! ### Runs -/

theorem Later.next {m₁ : Machine} (h : m.Later m') (hn : m'.Next m₁) : m.Later m₁ :=
  Relation.ReflTransGen.tail h hn

theorem Later.trans {m₁ : Machine} (h : m.Later m') (h' : m'.Later m₁) : m.Later m₁ :=
  Relation.ReflTransGen.trans h h'

theorem Ordinary.iterate (h : m.Ordinary ran) (n : Nat) :
    ∃ ran', (step^[n] m).Ordinary ran' := by
  induction n with
  | zero => exact ⟨ran, h⟩
  | succ n ih =>
    obtain ⟨ran', h'⟩ := ih
    rw [Function.iterate_succ_apply']
    exact ⟨_, h'.next (.step _)⟩

/-- A run is so many steps. -/
theorem run_eq_iterate (n : Nat) (m : Machine) : ∃ k ≤ n, run n m = step^[k] m := by
  induction n generalizing m with
  | zero => exact ⟨0, le_rfl, rfl⟩
  | succ n ih =>
    rw [run]
    split
    · exact ⟨0, Nat.zero_le _, rfl⟩
    · obtain ⟨k, hk, hr⟩ := ih m.step
      exact ⟨k + 1, Nat.succ_le_succ hk, hr⟩

/-- A fault that a host is told comes of an unwind that nobody stopped, or there is no end of the
    run. -/
theorem result_error {job : Job} {f : Fault} (hr : (w.result job).1 = .error f) :
    (∃ n w' u, step^[n] ⟨w, job, []⟩ = ⟨w', .unwind u, []⟩ ∧ f = u.fault w') ∨
      f = .told "the run does not end" := by
  obtain ⟨n, -, hn⟩ := run_eq_iterate allowance ⟨w, job, []⟩
  rw [World.result, World.perform, hn] at hr
  generalize hm : step^[n] ⟨w, job, []⟩ = m at hr
  obtain ⟨w', job', k⟩ := m
  unfold outcome at hr
  cases k with
  | nil =>
    cases job' with
    | answer v => cases hr
    | unwind u => exact .inl ⟨n, w', u, hm, (Except.error.inj hr).symm⟩
    | _ => exact .inr (Except.error.inj hr).symm
  | cons p k =>
    cases job' with
    | _ => exact .inr (Except.error.inj hr).symm

end Machine

end Parley
