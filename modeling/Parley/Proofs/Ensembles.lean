import Mathlib.Logic.Function.Basic
import Mathlib.Logic.Relation
import Parley.Proofs.Ledger

/-!
# Ensembles

Several machines may share a world: the classes, the globals, the heap, what instructions are
specialized to. Each of them counts its own activations, and one of them has its turn. Their hosts
may do to the world whatever a host can do (`World.Change`), and a machine that is idle may be given
a job, or it is another one's turn.

A machine that reports a condition asks its host. The host may then have the machine do other jobs,
one after the other and each with conditions of its own, before it replies with a value or an unwind
(`Machine.Asked`). So nothing is ever given up: a run goes on until it has come to an outcome
(`Machine.Proceeds`).

The ensembles that come about from one new machine are the *live* ones (`Ensemble.Live`). All of
them keep to a stock.
-/

namespace Parley

variable {s : Stock} {w w' : World} {m m' : Machine} {k : List Pending}

/-! ### What hosts ask for -/

namespace World

/-- A job that a host gives to a machine, and the world in which it does. The host may ask a chain
    that it holds for the job. -/
inductive Bids (w : World) : Job × World → Prop
  | request {job : Job} : w.Requests job → Bids w (job, w)
  | dispatch {c : Chain} {arguments : List Value} : .chain c ∈ w.held → w.Covers arguments →
      Bids w ((Machine.dispatch c arguments w).job, (Machine.dispatch c arguments w).world)

/-- How a host may reply without a value. The faults that it makes up are its own. -/
def Replies (w : World) : Unwind → Prop
  | .nonLocal _ v | .escaped _ v => v.Within w.classes.next
  | .restart => True
  | .failed f => ∃ text, f = .told text

theorem Bids.sound (h : w.Sound s) {r : Job × World} (hr : w.Bids r) :
    r.2.Sound s ∧ r.1.Sound s := by
  cases hr with
  | request hj => exact ⟨h, Machine.requests_sound h hj⟩
  | dispatch hc ha =>
    have hd := Machine.dispatch_sound h hc (h.covers ha)
    exact ⟨hd.world, hd.job⟩

/-- A host asks for nothing that is executed already, and not for a fault. -/
theorem Bids.job {r : Job × World} (hr : w.Bids r) :
    (∀ a, r.1 ≠ .execute a) ∧ r.1.isMechanical = false := by
  cases hr with
  | @request job hj =>
    cases job with
    | send _ _ | invoke _ _ | evaluate _ _ => exact ⟨nofun, rfl⟩
    | _ => exact hj.elim
  | @dispatch c arguments _ _ =>
    have hplain := (c.dispatch_rests arguments w).job
    exact ⟨Job.ne_execute (Job.outward (Job.outer hplain)), Job.isMechanical_of_plain hplain⟩

theorem Bids.ledger {r : Job × World} (hr : w.Bids r) :
    r.2.ledger = { w.ledger with held := r.2.held } := by
  cases hr with
  | request _ => rfl
  | @dispatch c arguments _ _ =>
    have hledger := ledger_of_premises (c.dispatch_rests arguments w).premises
    rw [← hledger]
    rfl

theorem Replies.sound (h : w.Sound s) {u : Unwind} (hu : w.Replies u) : u.Sound s := by
  cases u with
  | nonLocal activation v => exact h.within hu
  | escaped block v => exact h.within hu
  | _ => trivial

end World

namespace Machine

/-- A machine whose host is asked about a condition: the host is told of it, or of what came of a
    job that it has asked for since. Its reply is for `k`. -/
inductive Asked : Machine → List Pending → Prop
  | told (w : World) (receiver : Value) (c : Condition) (k : List Pending) :
      Asked ⟨w, .report receiver c, k⟩ k
  | answered (w : World) (v : Value) {p : Pending} (k : List Pending) :
      p = .sent ∨ p = .called → Asked ⟨w, .answer v, p :: k⟩ k
  | unwound (w : World) (u : Unwind) {p : Pending} (k : List Pending) :
      p = .sent ∨ p = .called → Asked ⟨w, .unwind u, p :: k⟩ k

/-- What becomes of a machine while it has its turn. -/
inductive Proceeds : Machine → Machine → Prop
  | step (m : Machine) : Proceeds m m.step
  /-- The host changes the world, but neither the settings nor what belongs to the machine. -/
  | change {m : Machine} {w : World} : m.world.Change w → w.settings = m.world.settings →
      w.thread = m.world.thread → Proceeds m { m with world := w }
  /-- When a run has ended, the host asks for another one. -/
  | request {m : Machine} {r : Job × World} : m.outcome ≠ .unfinished → m.world.Bids r →
      Proceeds m (after [] r)
  /-- A host that is asked about a condition asks for a job first. -/
  | consult {m : Machine} {k : List Pending} {r : Job × World} {p : Pending} : m.Asked k →
      m.world.Bids r → p = .sent ∨ p = .called → Proceeds m (after (p :: k) r)
  | reply {m : Machine} {k : List Pending} {v : Value} : m.Asked k →
      v.Within m.world.classes.next → Proceeds m ⟨m.world, .answer v, k⟩
  | refuse {m : Machine} {k : List Pending} {u : Unwind} : m.Asked k → m.world.Replies u →
      Proceeds m ⟨m.world, .unwind u, k⟩

theorem Asked.mem (h : m.Asked k) {p : Pending} (hp : p ∈ k) : p ∈ m.pending := by
  cases h with
  | told => exact hp
  | answered | unwound => exact List.mem_cons_of_mem _ hp

theorem Proceeds.sound (hp : m.Proceeds m') (h : m.Sound s) :
    ∃ s', s.Le s' ∧ m'.Sound s' := by
  cases hp with
  | step => exact ⟨s, .refl s, step_sound h⟩
  | change hc _ _ =>
    obtain ⟨s', hle, hw⟩ := hc.sound h.world
    exact ⟨s', hle, h.mono hle hw⟩
  | request _ hr =>
    obtain ⟨hw, hj⟩ := hr.sound h.world
    exact ⟨s, .refl s, hw, hj, nofun⟩
  | consult hk hr hp =>
    obtain ⟨hw, hj⟩ := hr.sound h.world
    refine ⟨s, .refl s, hw, hj, fun q hq => ?_⟩
    rcases List.mem_cons.1 hq with rfl | hq
    · rcases hp with rfl | rfl <;> trivial
    · exact h.pending q (hk.mem hq)
  | reply hk hv =>
    exact ⟨s, .refl s, h.world, h.world.within hv, fun q hq => h.pending q (hk.mem hq)⟩
  | refuse hk hu =>
    exact ⟨s, .refl s, h.world, hu.sound h.world, fun q hq => h.pending q (hk.mem hq)⟩

end Machine

/-! ### Machines on one world -/

/-- A world in which nothing was done, with the library or without. -/
inductive World.IsNew : World → Prop
  | bare (settings : Settings) (handler : Handler) (sink : Sink) (watched : Bool) :
      IsNew (.bare settings handler sink watched)
  | boot (settings : Settings) (handler : Handler) (sink : Sink) (watched : Bool) :
      IsNew (.boot settings handler sink watched)

namespace World

theorem compile_ledger (w : World) (c : ClassRef) (m : MethodTree) (inlining : Bool) :
    (w.compile c m inlining).2.ledger = w.ledger := by
  unfold compile
  extract_lets l w₁ w₂
  have h₂ : w₂.ledger = w.ledger := by
    dsimp only [w₂]
    split <;> rfl
  split <;> exact h₂

theorem addField_ledger (w : World) (c : ClassRef) (name : String) :
    (w.addField c name).2.ledger = w.ledger :=
  (ledger_of_premises (note_premises _ _)).trans rfl

/-- Hosts start and end no activations, and specialize nothing. -/
theorem Change.ledger (hc : w.Change w') : w'.ledger = { w.ledger with
    settings := w'.settings
    held := w'.held
    depth := w'.thread.depth
    activations := w'.thread.activations } := by
  have hsame : ∀ {w' : World}, w'.ledger = w.ledger → w'.ledger = { w.ledger with
      settings := w'.settings
      held := w'.held
      depth := w'.thread.depth
      activations := w'.thread.activations } := fun h => by
    rw [← h]
    rfl
  cases hc with
  | addField c name => exact hsame (w.addField_ledger c name)
  | compile m inlining _ => exact hsame (w.compile_ledger _ m inlining)
  | updateLayout o =>
    exact hsame (ledger_of_premises (w.setHeap_premises (Heap.updateLayout_shell _ _ _)))
  | setLocal f slot _ =>
    exact hsame (w.setHeap_ledger Array.size_modify (w.heap.mark_setLocal _ _ _))
  | setArgument f slot _ =>
    exact hsame (w.setHeap_ledger Array.size_modify (w.heap.mark_setArgument _ _ _))
  | turn _ hh _ hs _ _ _ => rw [World.ledger, World.ledger, hh, hs]
  | _ => rfl

theorem define_ledger (w : World) (c : ClassRef) (m : MethodTree) :
    (w.define c m).2.ledger = w.ledger := by
  have hc := w.compile_ledger c m w.settings.inlining
  rw [define]
  split
  · rename_i hr
    rwa [hr] at hc
  · rename_i hr
    rwa [hr] at hc

theorem defineAll_ledger (w : World) (c : ClassRef) (ms : List MethodTree) :
    (w.defineAll c ms).2.ledger = w.ledger := by
  induction ms generalizing w with
  | nil => rfl
  | cons m rest ih =>
    have hd := w.define_ledger c m
    rw [defineAll]
    split
    · rename_i hr
      rwa [hr] at hd
    · rename_i hr
      rw [hr] at hd
      exact (ih _).trans hd

/-- To install the library starts no activations and specializes nothing. -/
theorem installLibrary_ledger (w : World) : w.installLibrary.ledger = w.ledger := by
  unfold installLibrary
  extract_lets w₁
  have h₁ : w₁.ledger = w.ledger := by
    refine List.foldlRecOn (motive := fun w' : World => w'.ledger = w.ledger) Library.primitives _
      rfl fun w' h e _ => ?_
    exact List.foldlRecOn (motive := fun w' : World => w'.ledger = w.ledger) e.2 _ h
      fun w' h p _ => h
  have h₂ := (w₁.defineAll_ledger Core.block Library.loops).trans h₁
  generalize w₁.defineAll Core.block Library.loops = r at h₂ ⊢
  obtain ⟨_, w₂⟩ := r
  have h₃ : w₂.bindClasses.ledger = w.ledger :=
    List.foldlRecOn (motive := fun w' : World => w'.ledger = w.ledger) _ _ h₂ fun w' h e _ => h
  dsimp only
  generalize w₂.bindClasses = w₃ at h₃ ⊢
  exact (ledger_of_premises (note_premises _ _)).trans h₃

theorem IsNew.ledger (h : w.IsNew) : ∃ settings,
    w.ledger = ⟨settings, ∅, [], 0, 0, 0, Heap.empty.mark⟩ := by
  cases h with
  | bare settings handler sink watched => exact ⟨settings, rfl⟩
  | boot settings handler sink watched => exact ⟨settings, installLibrary_ledger _⟩

theorem IsNew.sites (h : w.IsNew) : w.sites = ∅ := by
  obtain ⟨settings, hledger⟩ := h.ledger
  exact congrArg Ledger.sites hledger

theorem IsNew.held (h : w.IsNew) : w.held = [] := by
  obtain ⟨settings, hledger⟩ := h.ledger
  exact congrArg Ledger.held hledger

end World

theorem World.IsNew.sound (h : w.IsNew) : ∃ s, w.Sound s := by
  cases h with
  | bare settings handler sink watched => exact World.bare_sound settings handler sink watched
  | boot settings handler sink watched =>
    obtain ⟨s, hs⟩ := World.bare_sound settings handler sink watched
    obtain ⟨s', -, hs'⟩ := (World.boot_changes settings handler sink watched).sound hs
    exact ⟨s', hs'⟩

/-- Machines on one world. -/
structure Ensemble where
  /-- The machine that has its turn. -/
  machine : Machine
  /-- Which one that is. -/
  turn : Nat
  /-- What belongs to the others. -/
  threads : Nat → Thread
  /-- Which machine started the activation of a frame. -/
  starter : FrameRef → Nat

namespace Ensemble

/-- What belongs to a machine. -/
def thread (e : Ensemble) : Nat → Thread :=
  Function.update e.threads e.turn e.machine.world.thread

/-- A machine on a world of its own that has done nothing. -/
def start (w : World) : Ensemble :=
  ⟨⟨w, .answer .nil, []⟩, 0, fun _ => .new, fun _ => 0⟩

/-- The machine that has its turn has become another one. What activations are new it started. -/
def advance (e : Ensemble) (m : Machine) : Ensemble :=
  { e with
    machine := m
    starter := fun f => if f < e.machine.world.heap.frames.size then e.starter f else e.turn }

/-- It is another machine's turn. -/
def pass (e : Ensemble) (i : Nat) (w : World) : Ensemble :=
  { e with machine := ⟨w, .answer .nil, []⟩, turn := i, threads := e.thread }

/-- What becomes of an ensemble. -/
inductive Next (e : Ensemble) : Ensemble → Prop
  | proceeds {m : Machine} : e.machine.Proceeds m → Next e (e.advance m)
  /-- The other machine has its own settings and its own handler. -/
  | yields {w : World} (i : Nat) : e.machine.outcome ≠ .unfinished →
      w.classes = e.machine.world.classes → w.heap = e.machine.world.heap →
      w.globals = e.machine.world.globals → w.sites = e.machine.world.sites →
      w.held = e.machine.world.held → w.codes = e.machine.world.codes →
      e.machine.world.supply.code ≤ w.supply.code → w.thread = e.thread i →
        Next e (e.pass i w)

/-- The ensembles that come about from one machine, with the library or without. Something may be
    said of all of their worlds. -/
inductive Live (p : World → Prop) : Ensemble → Prop
  | start {w : World} : w.IsNew → p w → Live p (start w)
  | next {e e' : Ensemble} : Live p e → e.Next e' → p e'.machine.world → Live p e'

/-- One ensemble after another. -/
def Later (p : World → Prop) : Ensemble → Ensemble → Prop :=
  Relation.ReflTransGen fun e e' => e.Next e' ∧ p e'.machine.world

variable {p : World → Prop} {e e' : Ensemble}

theorem thread_turn (e : Ensemble) : e.thread e.turn = e.machine.world.thread :=
  Function.update_self _ _ _

theorem advance_thread_turn (e : Ensemble) (m : Machine) :
    (e.advance m).thread e.turn = m.world.thread :=
  (e.advance m).thread_turn

theorem advance_thread_of_ne (e : Ensemble) {i : Nat} (hi : i ≠ e.turn) (m : Machine) :
    (e.advance m).thread i = e.thread i :=
  (Function.update_of_ne hi _ _).trans (Function.update_of_ne hi _ _).symm

theorem advance_starter_of_lt {f : FrameRef} (hf : f < e.machine.world.heap.frames.size)
    (m : Machine) : (e.advance m).starter f = e.starter f :=
  if_pos hf

theorem advance_starter_of_not_lt {f : FrameRef} (hf : ¬f < e.machine.world.heap.frames.size)
    (m : Machine) : (e.advance m).starter f = e.turn :=
  if_neg hf

theorem pass_thread {i : Nat} (h : w.thread = e.thread i) : (e.pass i w).thread = e.thread := by
  rw [thread, pass]
  exact h ▸ Function.update_eq_self i e.thread

theorem Live.later (h : Live p e) (hl : Later p e e') : Live p e' := by
  induction hl with
  | refl => exact h
  | tail _ hn ih => exact ih.next hn.1 hn.2

theorem Live.holds (h : Live p e) : p e.machine.world := by
  cases h with
  | start _ hp => exact hp
  | next _ _ hp => exact hp

/-- What is said of fewer worlds is said of less. -/
theorem Live.mono {q : World → Prop} (h : Live p e) (hq : ∀ w, p w → q w) : Live q e := by
  induction h with
  | start hw hp => exact .start hw (hq _ hp)
  | next _ hn hp ih => exact ih.next hn (hq _ hp)

theorem Next.sound (hn : e.Next e') (h : e.machine.Sound s) :
    ∃ s', s.Le s' ∧ e'.machine.Sound s' := by
  cases hn with
  | proceeds hp => exact hp.sound h
  | yields i hi hc hh hg hs hd ho hn _ =>
    exact ⟨s, .refl s, h.world.congr hc hh hg hs hd ho hn, trivial, nofun⟩

theorem start_sound (h : w.Sound s) : (start w).machine.Sound s :=
  ⟨h, trivial, nofun⟩

/-- Whatever an ensemble does, its machines keep to a stock. -/
theorem Live.sound (h : Live p e) : ∃ s, e.machine.Sound s := by
  induction h with
  | start hw _ =>
    obtain ⟨s, hs⟩ := hw.sound
    exact ⟨s, start_sound hs⟩
  | next _ hn _ ih =>
    obtain ⟨s, hs⟩ := ih
    obtain ⟨s', -, hs'⟩ := hn.sound hs
    exact ⟨s', hs'⟩

/-! ### Calls of a program -/

/-- The machine that has its turn takes a step. -/
def step (e : Ensemble) : Ensemble :=
  e.advance e.machine.step

/-- The host makes a method of a program, and asks for it. -/
def call (e : Ensemble) (q : Program Code) (arguments : List Value) : Ensemble :=
  let w := e.machine.world
  let code : Code := .mk w.supply.code "call" none false q
  let w₁ := { w.adopt code with supply := { w.supply with code := w.supply.code + 1 } }
  (e.advance { e.machine with world := w₁ }).advance ⟨w₁, .invoke (.method code) arguments, []⟩

theorem Live.step (h : Live p e) (hp : p e.step.machine.world) : Live p e.step :=
  h.next (.proceeds (.step _)) hp

theorem Live.call {q : Program Code} {arguments : List Value} (h : Live p e)
    (hi : e.machine.outcome ≠ .unfinished) (hq : ∀ l ∈ q.literals, e.machine.world.Admits l)
    (ha : e.machine.world.Covers arguments) (hp : p (e.call q arguments).machine.world) :
    Live p (e.call q arguments) := by
  let w := e.machine.world
  let code : Code := .mk w.supply.code "call" none false q
  let w₁ := { w.adopt code with supply := { w.supply with code := w.supply.code + 1 } }
  have hassemble : w.Change w₁ := .assemble "call" false nofun hq
  have h₁ : Live p (e.advance { e.machine with world := w₁ }) :=
    h.next (.proceeds (.change hassemble rfl rfl)) hp
  have hrequest : w₁.Requests (.invoke (.method code) arguments) :=
    ⟨⟨code, List.mem_cons_self, .self _⟩, ha⟩
  have hi₁ : Machine.outcome { e.machine with world := w₁ } ≠ .unfinished := hi
  exact h₁.next (.proceeds (.request hi₁ (.request hrequest))) hp

end Ensemble

end Parley
