import Mathlib.Logic.Function.Basic
import Mathlib.Logic.Relation
import Parley.Proofs.Compiled
import Parley.Proofs.Mirrors
import Parley.Proofs.Reachable
import Parley.Proofs.Stage

/-!
# Machines that run compiled methods

A host may define classes, add fields, compile methods, install what it has compiled, write globals,
make values and hold on to them; it may send messages, run its methods and evaluate blocks; between
two runs it may go on with another machine on the same world; and it may be asked about conditions
itself, and then ask the machine for further jobs before it answers (`Machine.Next`). The machines
that come about in that way from a new one, and with them a record of what was executed in each
frame, are the *ordinary* ones (`Machine.Ordinary`).

Every method in them was compiled, those that the library comes with as well (`Stage.Compiled`,
`World.boot_fresh`).
-/

namespace Parley

variable {w w' : World} {ran : FrameRef → Code}

/-! ### What hosts do -/

namespace World

/-- A method that was compiled, or any primitive. -/
def Serves (w : World) : Invokable → Prop
  | .method c => c ∈ w.codes
  | .primitive _ => True

/-- A job that a host may ask for. -/
def Asks (w : World) : Job → Prop
  | .send _ arguments => w.Covers arguments
  | .invoke i arguments => w.Serves i ∧ w.Covers arguments
  | .evaluate _ arguments => w.Covers arguments
  | _ => False

/-- What a host does to a world that installs nothing but what it has compiled. -/
inductive Prepares (w : World) : World → Prop
  | defineClass (name : String) {super : ClassRef} (fields : List String) :
      super < w.classes.next → Prepares w (w.defineClass name super fields).2
  | addField (c : ClassRef) (name : String) : Prepares w (w.addField c name).2
  | compile {c : ClassRef} (m : MethodTree) (inlining : Bool) :
      c < w.classes.next → Prepares w (w.compile c m inlining).2
  | install (c : ClassRef) {i : Invokable} : w.Serves i → Prepares w (w.install c i)
  | newPrimitive (selector : Selector) (builtin : Builtin) (shortcut : Option Shortcut) :
      Prepares w (w.newPrimitive selector builtin shortcut).2
  | newString (text : String) : Prepares w (w.newString text).2
  | newArray {vs : List Value} : w.Covers vs → Prepares w (w.newArray vs).2
  | newInstance {c : ClassRef} : c < w.classes.next → Prepares w (w.newInstance c).2
  | writeGlobal (name : String) {v : Value} :
      v.Within w.classes.next → Prepares w (w.writeGlobal name v)
  | updateLayout (o : ObjectRef) :
      Prepares w { w with heap := (w.heap.updateLayout w.classes o).2 }
  | hold {held : List Held} : (∀ x ∈ held, w.Lends x) → Prepares w { w with held }

theorem covers_singleton {v : Value} (h : v.Within w.classes.next) : w.Covers [v] := by
  intro u hu
  rw [List.mem_singleton.1 hu]
  exact h

theorem Serves.offers {i : Invokable} (h : w.Serves i) : w.Offers i := by
  cases i with
  | method c => exact ⟨c, h, .self _⟩
  | primitive p => trivial

theorem Asks.requests {job : Job} (h : w.Asks job) : w.Requests job := by
  cases job with
  | send selector arguments => exact h
  | invoke i arguments => exact ⟨h.1.offers, h.2⟩
  | evaluate b arguments => exact h
  | _ => exact h.elim

theorem Prepares.change (h : w.Prepares w') : w.Change w' := by
  cases h with
  | defineClass name fields hsuper => exact .defineClass name fields hsuper
  | addField c name => exact .addField c name
  | compile m inlining hc => exact .compile m inlining hc
  | install c hi => exact .install c hi.offers
  | newPrimitive selector builtin shortcut => exact .newPrimitive selector builtin shortcut
  | newString text => exact .newString text
  | newArray hvs => exact .newArray hvs
  | newInstance hc => exact .newInstance hc
  | writeGlobal name hv => exact .writeGlobal name hv
  | updateLayout o => exact .updateLayout o
  | hold hx => exact .hold hx

/-- Apart from classes and codes, a host leaves the stage as it is. -/
theorem Prepares.stage (h : w.Prepares w') :
    ∃ classes codes, w'.stage = { w.stage with classes, codes } := by
  cases h with
  | addField c name => exact ⟨_, w.codes, note_stage _ _⟩
  | compile m inlining hc =>
    unfold World.compile
    extract_lets l w₁ w₂
    have h₂ : w₂ = { w with supply := l.supply, events := w₂.events } := by
      dsimp only [w₂]
      split <;> rfl
    rw [h₂]
    split <;> exact ⟨_, _, rfl⟩
  | updateLayout o => exact ⟨_, _, w.setHeap_stage (Heap.updateLayout_shell _ _ _)⟩
  | _ => exact ⟨_, _, rfl⟩

end World

namespace Machine

/-- A host that is asked about a condition itself: it is told of it, or of what came of a job that
    it has asked for meanwhile. Its answer is for `k`. -/
inductive Consults : Machine → List Pending → Prop
  | told {w : World} (receiver : Value) (c : Condition) (k : List Pending) :
      w.handler.isStandard = false → Consults ⟨w, .report receiver c, k⟩ k
  | answered {w : World} (v : Value) (k : List Pending) :
      w.handler.isStandard = false → Consults ⟨w, .answer v, .sent :: k⟩ k
  | unwound {w : World} (u : Unwind) (k : List Pending) :
      w.handler.isStandard = false → Consults ⟨w, .unwind u, .sent :: k⟩ k

/-- What comes next of a machine. -/
inductive Next : Machine → Machine → Prop
  | step (m : Machine) : Next m m.step
  | prepare {m : Machine} {w : World} : m.world.Prepares w → Next m { m with world := w }
  /-- When a run has ended, the host may ask for another one. -/
  | request {m : Machine} {job : Job} : m.outcome ≠ .unfinished → m.world.Asks job →
      Next m ⟨m.world, job, []⟩
  /-- Or it is another machine's turn, with its own settings and its own handler. -/
  | turn {m : Machine} {w : World} : m.outcome ≠ .unfinished → w.classes = m.world.classes →
      w.heap = m.world.heap → w.globals = m.world.globals → w.sites = m.world.sites →
      w.held = m.world.held → w.codes = m.world.codes → m.world.supply.code ≤ w.supply.code →
        Next m ⟨w, .answer .nil, []⟩
  /-- A host that is asked about a condition asks for a job first. -/
  | consult {m : Machine} {k : List Pending} {job : Job} : m.Consults k → m.world.Asks job →
      Next m ⟨m.world, job, .sent :: k⟩
  | reply {m : Machine} {k : List Pending} {v : Value} : m.Consults k →
      v.Within m.world.classes.next → Next m ⟨m.world, .answer v, k⟩

/-- One machine after another. -/
def Later : Machine → Machine → Prop :=
  Relation.ReflTransGen Next

/-- The record of the codes executed in frames, with what a machine executes. -/
def record (m : Machine) (ran : FrameRef → Code) : FrameRef → Code :=
  match m.job with
  | .execute a => Function.update ran a.frame a.code
  | _ => ran

/-- The machines that come about from a new one, with the library or without, each with a record of
    the codes that were executed in its frames. -/
inductive Ordinary : Machine → (FrameRef → Code) → Prop
  | bare (settings : Settings) (handler : Handler) (sink : Sink) (watched : Bool) :
      Ordinary ⟨.bare settings handler sink watched, .answer .nil, []⟩ fun _ => default
  | boot (settings : Settings) (handler : Handler) (sink : Sink) (watched : Bool) :
      Ordinary ⟨.boot settings handler sink watched, .answer .nil, []⟩ fun _ => default
  | next {m m' : Machine} {ran : FrameRef → Code} :
      Ordinary m ran → m.Next m' → Ordinary m' (m'.record ran)

theorem Ordinary.later {m m' : Machine} (h : m.Ordinary ran) (hl : m.Later m') :
    ∃ ran', m'.Ordinary ran' := by
  induction hl with
  | refl => exact ⟨ran, h⟩
  | tail _ hn ih =>
    obtain ⟨ran', h'⟩ := ih
    exact ⟨_, h'.next hn⟩

/-- A machine that is to run a method, for a host that has compiled it. -/
def running (w : World) (c : ClassRef) (m : MethodTree) (inlining : Bool)
    (arguments : List Value) : Machine :=
  let (r, w) := w.compile c m inlining
  ⟨w, match r with
    | .ok code => .invoke (.method code) arguments
    | .error _ => .answer .nil, []⟩

end Machine

/-! ### Compiled methods -/

/-- A stage on which every method was compiled. -/
structure Stage.Compiled (s : Stage) : Prop where
  codes : ∀ c ∈ s.codes, c.Lexical []
  methods : ∀ k selector c, s.classes.own? k selector = some (.method c) → c.Lexical []

namespace World

theorem install_compiled (h : w.stage.Compiled) (c : ClassRef) {i : Invokable} (hi : w.Serves i) :
    (w.install c i).stage.Compiled := by
  refine ⟨h.codes, fun k selector code hcode => ?_⟩
  rw [show (w.install c i).stage.classes = w.classes.install c i from rfl, ClassTable.install,
    ClassTable.own?, ClassTable.get, ClassTable.get_modify] at hcode
  split at hcode
  · rw [Directory.get?_put] at hcode
    split at hcode
    · -- The lookup finds what was installed just now.
      obtain rfl : i = .method code := Option.some.inj hcode
      exact h.codes code hi
    · exact h.methods k selector code hcode
  · exact h.methods k selector code hcode

theorem compile_heap (w : World) (c : ClassRef) (m : MethodTree) (inlining : Bool) :
    (w.compile c m inlining).2.heap = w.heap := by
  unfold compile
  extract_lets l w₁ w₂
  have h₂ : w₂.heap = w.heap := by
    dsimp only [w₂]
    split <;> rfl
  split <;> exact h₂

theorem compile_own (w : World) (c : ClassRef) (m : MethodTree) (inlining : Bool) :
    (w.compile c m inlining).2.settings = w.settings ∧
      (w.compile c m inlining).2.thread = w.thread := by
  unfold compile
  extract_lets l w₁ w₂
  have h₂ : w₂.settings = w.settings ∧ w₂.thread = w.thread := by
    unfold w₂
    split <;> exact ⟨rfl, rfl⟩
  split <;> exact h₂

theorem compile_codes (w : World) (c : ClassRef) (m : MethodTree) (inlining : Bool) :
    (∀ d ∈ (w.compile c m inlining).2.codes, d ∈ w.codes ∨ (w.compile c m inlining).1 = .ok d) ∧
      ∀ d, (w.compile c m inlining).1 = .ok d → d ∈ (w.compile c m inlining).2.codes := by
  unfold compile
  extract_lets l w₁ w₂
  have h₂ : w₂.codes = w.codes := by
    dsimp only [w₂]
    split <;> rfl
  split
  · exact ⟨fun d hd => .inl (h₂ ▸ hd), nofun⟩
  · rename_i code _
    refine ⟨fun d hd => ?_, fun d hd => ?_⟩
    · rcases List.mem_cons.1 hd with rfl | hd
      · exact .inr rfl
      · exact .inl (h₂ ▸ hd)
    · cases hd
      exact List.mem_cons_self

/-- What the compiler makes is lexical. -/
theorem compile_lexical {c : ClassRef} {m : MethodTree} {inlining : Bool} {code : Code}
    (h : (w.compile c m inlining).1 = .ok code) : code.Lexical [] := by
  unfold compile at h
  extract_lets l w₁ w₂ at h
  split at h
  · cases h
  · rename_i code' hcode
    cases h
    exact ((lower_safe m c (w.classes.get c).fields inlining w.supply).of_ok hcode).1

theorem compile_compiled (h : w.stage.Compiled) (c : ClassRef) (m : MethodTree)
    (inlining : Bool) : (w.compile c m inlining).2.stage.Compiled := by
  have hmethods : ∀ k selector d, (w.compile c m inlining).2.classes.own? k selector =
      some (.method d) → d.Lexical [] := by
    rw [compile_classes]
    exact h.methods
  refine ⟨fun d hd => ?_, hmethods⟩
  rcases (w.compile_codes c m inlining).1 d hd with hd | hd
  · exact h.codes d hd
  · exact compile_lexical hd

theorem Prepares.compiled (hp : w.Prepares w') (h : w.stage.Compiled) : w'.stage.Compiled := by
  cases hp with
  | defineClass name fields hsuper =>
    exact ⟨h.codes, fun k selector c hc =>
      h.methods k selector c (ClassTable.define_keeps _ _ _ _ k selector _ hc)⟩
  | addField c name =>
    rw [World.addField, note_stage]
    exact ⟨h.codes, fun k selector c' hc =>
      h.methods k selector c' (ClassTable.addField_keeps _ _ _ k selector _ hc)⟩
  | compile m inlining hc => exact compile_compiled h _ m inlining
  | install c hi => exact install_compiled h c hi
  | updateLayout o =>
    rw [w.setHeap_stage (Heap.updateLayout_shell _ _ _)]
    exact h
  | _ => exact h

end World

namespace Machine

variable {m : Machine}

theorem Ordinary.prepare (h : m.Ordinary ran) (hp : m.world.Prepares w) :
    ∃ ran', Machine.Ordinary { m with world := w } ran' :=
  ⟨_, h.next (.prepare hp)⟩

theorem Ordinary.installPrimitive (h : m.Ordinary ran) (c : ClassRef) (selector : Selector)
    (builtin : Builtin) (shortcut : Option Shortcut) : ∃ ran', Machine.Ordinary
      { m with world := m.world.installPrimitive c selector builtin shortcut } ran' := by
  obtain ⟨ran', h'⟩ := h.prepare (.newPrimitive selector builtin shortcut)
  exact h'.prepare (.install c (show World.Serves _ (.primitive _) from trivial))

theorem Ordinary.compiled (h : m.Ordinary ran) (hi : m.outcome ≠ .unfinished) {c : ClassRef}
    (hc : c < m.world.classes.next) (tree : MethodTree) (inlining : Bool) {arguments : List Value}
    (hv : m.world.Covers arguments) :
    ∃ ran', (running m.world c tree inlining arguments).Ordinary ran' := by
  obtain ⟨ran', h'⟩ := h.prepare (.compile tree inlining hc)
  have hi' : outcome { m with world := (m.world.compile c tree inlining).2 } ≠ .unfinished := hi
  have hcodes := (m.world.compile_codes c tree inlining).2
  have hv' : World.Covers (m.world.compile c tree inlining).2 arguments := by
    rw [World.Covers, World.compile_classes]
    exact hv
  unfold running
  generalize m.world.compile c tree inlining = r at h' hi' hcodes hv' ⊢
  obtain ⟨e | code, w⟩ := r
  · exact ⟨_, h'.next (.turn hi' rfl rfl rfl rfl rfl rfl le_rfl)⟩
  · have hj : w.Asks (.invoke (.method code) arguments) := ⟨hcodes code rfl, hv'⟩
    exact ⟨_, h'.next (.request hi' hj)⟩

end Machine

/-! ### The library -/

namespace World

/-- A world of compiled methods in which nothing was executed yet. -/
structure Fresh (w : World) : Prop where
  compiled : w.stage.Compiled
  heap : w.stage.heap = .empty

theorem Fresh.install (h : w.Fresh) (c : ClassRef) {i : Invokable} (hi : w.Serves i) :
    (w.install c i).Fresh :=
  ⟨install_compiled h.compiled c hi, h.heap⟩

theorem Fresh.define (h : w.Fresh) (c : ClassRef) (m : MethodTree) : (w.define c m).2.Fresh := by
  have hcompile : (w.compile c m w.settings.inlining).2.Fresh := by
    refine ⟨compile_compiled h.compiled c m _, ?_⟩
    rw [stage, compile_heap]
    exact h.heap
  have hcodes := (w.compile_codes c m w.settings.inlining).2
  rw [World.define]
  split
  · rename_i hr
    rw [hr] at hcompile
    exact hcompile
  · rename_i code w' hr
    rw [hr] at hcompile hcodes
    exact hcompile.install c (hcodes code rfl)

theorem Fresh.defineAll (h : w.Fresh) (c : ClassRef) (ms : List MethodTree) :
    (w.defineAll c ms).2.Fresh := by
  induction ms generalizing w with
  | nil => exact h
  | cons m rest ih =>
    have hd := h.define c m
    rw [World.defineAll]
    split
    · rename_i hr
      rw [hr] at hd
      exact hd
    · rename_i hr
      rw [hr] at hd
      exact ih hd

theorem Fresh.bindAll (h : w.Fresh) (entries : List (String × ClassRef)) :
    (entries.foldl (fun w (name, c) => w.writeGlobal name (.classRef c)) w).Fresh := by
  induction entries generalizing w with
  | nil => exact h
  | cons e rest ih => exact ih ⟨h.compiled, h.heap⟩

theorem bare_fresh (settings : Settings) (handler : Handler) (sink : Sink) (watched : Bool) :
    (bare settings handler sink watched).Fresh := by
  refine ⟨⟨by rintro c ⟨⟩, fun k selector c hc => ?_⟩, rfl⟩
  have hc : ClassTable.initial.own? k selector = some (.method c) := hc
  rw [ClassTable.initial_own?] at hc
  cases hc

theorem boot_fresh (settings : Settings) (handler : Handler) (sink : Sink) (watched : Bool) :
    (boot settings handler sink watched).Fresh := by
  unfold boot installLibrary
  extract_lets w₁
  have h₁ : w₁.Fresh := by
    refine List.foldlRecOn (motive := fun w : World => w.Fresh) _ _ (bare_fresh _ _ _ _)
      fun w h e _ => ?_
    refine List.foldlRecOn (motive := fun w : World => w.Fresh) _ _ h fun w h p _ => ?_
    exact Fresh.install (w := (w.newPrimitive p.1 p.2.1 p.2.2).2) ⟨h.compiled, h.heap⟩ e.1
      (show Serves _ (.primitive _) from trivial)
  have h₂ := h₁.defineAll Core.block Library.loops
  generalize w₁.defineAll Core.block Library.loops = r at h₂ ⊢
  obtain ⟨_, w₂⟩ := r
  dsimp only at h₂ ⊢
  have h₃ : w₂.bindClasses.Fresh := h₂.bindAll _
  -- Instances, globals and events are not on the stage.
  refine ⟨?_, ?_⟩
  · rw [note_stage]
    exact h₃.compiled
  · rw [note_stage]
    exact h₃.heap

end World

end Parley
