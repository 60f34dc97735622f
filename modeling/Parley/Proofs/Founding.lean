import Parley.Proofs.Bindings
import Parley.Proofs.Defining
import Parley.Proofs.Hosting

/-!
# A new world hosts the workloads
-/

namespace Parley

open Workload

namespace World

/-- A world that is set up otherwise. -/
def refit (settings : Settings) (handler : Handler) (sink : Sink) (watched : Bool) (w : World) :
    World :=
  { w with settings, handler, sink, watched }

/-- A world with the primitives of the library, and nothing else installed. -/
def furnished : World :=
  Library.primitives.foldl (fun w (c, entries) =>
    entries.foldl (fun w (selector, builtin, shortcut) =>
      w.installPrimitive c selector builtin shortcut) w) (bare .standard .standard .kept false)

/-- The primitives are installed without regard to anything but the classes. -/
theorem furnished_refit (settings : Settings) (handler : Handler) (sink : Sink) (watched : Bool) :
    Library.primitives.foldl (fun w (c, entries) =>
      entries.foldl (fun w (selector, builtin, shortcut) =>
        w.installPrimitive c selector builtin shortcut) w) (bare settings handler sink watched) =
      furnished.refit settings handler sink watched := by
  have hbare : bare settings handler sink watched =
      (bare .standard .standard .kept false).refit settings handler sink watched := rfl
  rw [hbare, furnished]
  refine List.foldl_hom (refit settings handler sink watched) ?_
  rintro w ⟨c, entries⟩
  exact List.foldl_hom (refit settings handler sink watched) fun w p => rfl

theorem furnished_keeps : furnished.globals = #[] ∧ furnished.thread = .new :=
  List.foldlRecOn (motive := fun w : World => w.globals = #[] ∧ w.thread = .new)
    Library.primitives _ ⟨rfl, rfl⟩ fun _ h e _ =>
      List.foldlRecOn (motive := fun w : World => w.globals = #[] ∧ w.thread = .new) e.2 _ h
        fun _ h _ _ => h

/-- Whether a class has a primitive for a message, in a table. -/
def finds (t : ClassTable) (e : ClassRef × Selector × Builtin) : Bool :=
  match t.lookup e.1 e.2.1 with
  | some (.primitive p) => p.selector == e.2.1 && p.builtin == e.2.2
  | _ => false

theorem furnished_primitives : Workload.primitives.all (finds furnished.classes) := by
  decide +kernel

theorem furnished_classes : furnished.supply = ⟨1, 0, 0, 75⟩ ∧ furnished.classes.next = bench ∧
    furnished.classes.byName? "Bench" = none ∧
    furnished.classes.byName? "Object" = some Core.object ∧
    furnished.classes.metaclass? Core.array = some Core.arrayClass ∧
    (furnished.classes.get Core.block).fields = [] ∧
    (furnished.classes.get Core.object).fields = [] := by
  decide +kernel

theorem furnished_array : (Globals.writeAll #[] (furnished.classes.registry.entries.map
    fun (name, c) => (name, .classRef c))).read? "Array" = some (.classRef Core.array) := by
  decide +kernel

/-- The system object is made and bound, and an event is reported. -/
theorem newSystem_eq (w : World) (e : World → Event) : ∃ heap system events,
    (let (system, w) := w.newInstance Core.system
     let w := w.writeGlobal "system" system
     w.note (e w)) = { w with heap, events, globals := w.globals.write "system" system } := by
  dsimp only
  rw [note]
  split
  · exact ⟨_, _, _, rfl⟩
  · exact ⟨_, _, w.events, rfl⟩

/-- What the rest of the installation makes of a world with the primitives. -/
theorem boot_eq (settings : Settings) (sink : Sink) (watched : Bool) :
    ∃ classes supply codes events heap system, boot settings .standard sink watched =
        { furnished.refit settings .standard sink watched with
          classes, supply, codes, events, heap
          globals := (furnished.globals.writeAll (classes.registry.entries.map
            fun (name, c) => (name, .classRef c))).write "system" system } ∧
      furnished.classes.Adds classes Core.block (loopSketches settings.inlining) ∧
      (compilesAll bench settings.inlining (sketches settings.inlining) supply).isSome := by
  obtain ⟨hsupply, hnext, -, -, -, hfields, -⟩ := furnished_classes
  obtain ⟨supply, hloops, hsketches⟩ :=
    Option.bind_eq_some_iff.1 (Option.eq_some_of_isSome (Workload.compiles settings.inlining))
  rw [← hsupply] at hloops
  have hblock : Core.block < furnished.classes.next := by
    rw [hnext]
    decide
  have hdistinct : ((loopSketches settings.inlining).map fun e => e.1.selector).Nodup := by
    simp [loopSketches, Library.loop]
  have hlist : Library.loops = (loopSketches settings.inlining).map Prod.fst := rfl
  rw [boot, installLibrary, furnished_refit, hlist]
  generalize furnished = v at *
  obtain ⟨classes, codes, events, hdefine, hadds⟩ := defineAll_sketched
    (w := v.refit settings .standard sink watched) hblock hfields rfl hdistinct hloops
  rw [hdefine]
  dsimp only
  rw [bindClasses_eq]
  obtain ⟨heap, system, events, hsystem⟩ :=
    newSystem_eq { v.refit settings .standard sink watched with
    classes, supply, codes, events
    globals := v.globals.writeAll (classes.registry.entries.map fun (name, c) =>
      (name, .classRef c)) } fun w => ⟨.debug, Topic.dispatch, "core library installed",
    [("classes", w.classes.registry.entries.length.repr), ("epoch", w.classes.epoch.repr)]⟩
  exact ⟨classes, supply, codes, events, heap, system, hsystem, hadds,
    Option.isSome_of_mem hsketches⟩

/-- A world in which the workloads are installed and find what they need. -/
structure Hosts (w : World) (inlining : Bool) (limit : Nat) : Prop where
  sound : ∃ s, w.Sound s
  mirrored : w.classes.Mirrored
  classes : w.classes.Hosts inlining
  bench : w.classes.byName? "Bench" = some bench
  array : w.globals.read? "Array" = some (.classRef Core.array)
  handler : w.handler = .standard
  limit : w.settings.maxDepth = limit
  idle : w.thread.depth = 0

/-- The messages that find primitives find no methods of the loops or workloads, and these are
    different. -/
theorem apart (inlining : Bool) : (∀ e ∈ Workload.primitives, e.1 < Workload.bench ∧
      (∀ m ∈ loopSketches inlining, e.2.1 ≠ m.1.selector) ∧
        ∀ m ∈ sketches inlining, e.2.1 ≠ m.1.selector) ∧
    ∀ e ∈ loopSketches inlining, ∀ m ∈ sketches inlining, e.1.selector ≠ m.1.selector := by
  cases inlining <;> decide

/-- A table hosts the workloads if it was made by installing them. -/
theorem hosts_of_adds {t₁ t₂ t₃ : ClassTable} {inlining : Bool}
    (h₁ : furnished.classes.Adds t₁ Core.block (loopSketches inlining))
    (h₂ : ∀ c, c < Workload.bench → ∀ s, t₂.lookup c s = t₁.lookup c s)
    (hmeta : t₂.metaclass? Core.array = t₁.metaclass? Core.array)
    (h₃ : t₂.Adds t₃ Workload.bench (sketches inlining)) : t₃.Hosts inlining where
  primitive e he := by
    obtain ⟨hlt, hloops, hsketches⟩ := (apart inlining).1 e he
    have hfinds := List.all_eq_true.1 furnished_primitives e he
    rw [finds, ← h₁.lookup _ hloops, ← h₂ _ hlt, ← h₃.lookup _ hsketches] at hfinds
    split at hfinds
    · rename_i p hp
      rw [Bool.and_eq_true, beq_iff_eq, beq_iff_eq] at hfinds
      exact ⟨p, hp, hfinds⟩
    · cases hfinds
  arrayClass := by
    rw [ClassTable.metaclass?, h₃.metaclass, ← ClassTable.metaclass?, hmeta, ClassTable.metaclass?,
      h₁.metaclass]
    exact furnished_classes.2.2.2.2.1
  method e he := h₃.finds he
  loop e he := by
    obtain ⟨c, hc, hfollows⟩ := h₁.finds he
    refine ⟨c, ?_, hfollows⟩
    rw [h₃.lookup _ ((apart inlining).2 e he), h₂ _ (by decide), hc]

/-- A world that has no class `Bench`, and what becomes of it when that is defined with all its
    methods. -/
structure Founds (w w' : World) : Prop where
  object : w.classes.byName? "Object" = some Core.object
  unnamed : w.classes.byName? "Bench" = none
  next : w.classes.next = bench
  defines : (w.defineClass "Bench" Core.object []).2.defineAll bench methods = (.ok (), w')

theorem Founds.install_eq {w w' : World} (h : w.Founds w') :
    Workload.install w = (.ok bench, w') := by
  have hdefine : (w.defineClass "Bench" Core.object []).2.defineAll
      (w.defineClass "Bench" Core.object []).1 methods = (.ok (), w') := by
    show (w.defineClass "Bench" Core.object []).2.defineAll w.classes.next methods = _
    rw [h.next, h.defines]
  rw [Workload.install, h.unnamed]
  dsimp only
  rw [hdefine, ← h.next]
  rfl

/-- The workloads are installed in a world that has the library but no class of that name. -/
theorem founds {w : World} {s : Stock} {inlining : Bool} {supply : Supply} (hw : w.Sound s)
    (hmirrored : w.classes.Mirrored) (hhandler : w.handler = .standard) (hidle : w.thread.depth = 0)
    (harray : w.globals.read? "Array" = some (.classRef Core.array))
    (hinlining : w.settings.inlining = inlining)
    (hloops : furnished.classes.Adds w.classes Core.block (loopSketches inlining))
    (hsketches : compilesAll Workload.bench inlining (sketches inlining) w.supply = some supply) :
    ∃ w', w.Founds w' ∧ w'.Hosts inlining w.settings.maxDepth := by
  obtain ⟨-, hnext, hname, hobject, hmeta, -, hfields⟩ := furnished_classes
  rw [← hloops.next] at hnext
  rw [← hloops.fields] at hfields
  rw [ClassTable.byName?, ← hloops.registry, ← ClassTable.byName?] at hname hobject
  have hsuper : Core.object < w.classes.next := by
    rw [hnext]
    decide
  have hlibrary : Core.array < w.classes.next := by
    rw [hnext]
    decide
  have hgrown := ClassTable.define_grown hw.classes "Bench" [] (hw.next_eq ▸ hsuper)
    (hw.next_eq ▸ (by rw [hnext]; decide : Core.class < w.classes.next))
  -- The class is there, with no fields and no methods yet.
  have hchange : w.Change (w.defineClass "Bench" Core.object []).2 := .defineClass "Bench" [] hsuper
  obtain ⟨s₁, -, hw₁⟩ := hchange.sound hw
  have hmirrored₁ := hmirrored.of_keeps (ClassTable.define_keeps w.classes "Bench" Core.object [])
  have hbench : Workload.bench < (w.classes.define "Bench" Core.object []).next := by
    rw [ClassTable.next_define, hnext]
    decide
  have hnone : ((w.classes.define "Bench" Core.object []).get Workload.bench).fields = [] := by
    rw [← hnext, ClassTable.fields_define_next, hfields]
    rfl
  have hdistinct : ((sketches inlining).map fun e => e.1.selector).Nodup := by
    cases inlining <;> decide
  obtain ⟨classes, codes, events, hdefine, hadds⟩ := defineAll_sketched
    (w := (w.defineClass "Bench" Core.object []).2) hbench hnone hinlining hdistinct hsketches
  have hmethods : (sketches inlining).map Prod.fst = Workload.methods := by
    cases inlining <;> rfl
  obtain ⟨s₂, -, hw₂⟩ := (defineAll_changes (w := (w.defineClass "Bench" Core.object []).2)
    hbench Workload.methods).sound hw₁
  have hmirrored₂ := defineAll_mirrored (w := (w.defineClass "Bench" Core.object []).2)
    hmirrored₁ Workload.bench Workload.methods
  rw [hmethods] at hdefine
  rw [hdefine] at hw₂ hmirrored₂
  refine ⟨_, ⟨hobject, hname, hnext, hdefine⟩, ⟨s₂, hw₂⟩, hmirrored₂,
    hosts_of_adds hloops (fun c hc sel => ?_) ?_ hadds, ?_, ?_, hhandler, rfl, hidle⟩
  · exact hgrown.later.lookup rfl c (hw.next_eq ▸ hnext ▸ hc) sel
  · exact congrArg Class.metaclass (ClassTable.get_define_of_lt hlibrary "Bench" Core.object [])
  · rw [ClassTable.byName?, hadds.registry, ← hnext]
    exact ClassTable.byName?_define "Bench" Core.object []
  · show (w.globals.write "Bench" _).read? "Array" = _
    rw [Globals.read?_write, if_neg (by decide), harray]

/-- The workloads are installed in a new world. -/
theorem boot_founds (settings : Settings) (sink : Sink) (watched : Bool) :
    ∃ w, (boot settings .standard sink watched).Founds w ∧
      w.Hosts settings.inlining settings.maxDepth := by
  have hmirrored := boot_mirrored settings .standard sink watched
  obtain ⟨s, hbare⟩ := bare_sound settings .standard sink watched
  obtain ⟨s₁, -, hsound⟩ := (boot_changes settings .standard sink watched).sound hbare
  obtain ⟨classes, supply, codes, events, heap, system, hboot, hloops, hsketches⟩ :=
    boot_eq settings sink watched
  obtain ⟨hglobals, hthread⟩ := furnished_keeps
  have harray := furnished_array
  obtain ⟨supply', hsketches⟩ := Option.isSome_iff_exists.1 hsketches
  rw [hboot] at hmirrored hsound ⊢
  refine founds hsound hmirrored rfl ?_ ?_ rfl hloops hsketches
  · show furnished.thread.depth = 0
    rw [hthread]
    rfl
  · show ((furnished.globals.writeAll _).write "system" system).read? "Array" = _
    rw [Globals.read?_write, if_neg (by decide), hloops.registry, hglobals, harray]

end World

end Parley
