import Parley.Proofs.Attaining

/-!
# Scenes

A *scene* is what is known of a world at a point of an execution: the classes and globals, how many
activations are in progress, and some of the frames, closures, arrays and instances, as they are at
that point. Of everything else in the world a scene says nothing, and so what is shown of a scene is
shown for code that is called from wherever.

A job *leads* to another one (`Scene.Leads`) if the reference machine, with the one to do in a world
of a scene, comes within a number of steps to have the other to do in a world of another scene, with
the same things pending. What is put on top of them on the way is taken off again (`Scene.Clears`).
-/

namespace Parley

variable {w w' : World}

/-- What is known of a world. -/
structure Scene where
  classes : ClassTable
  globals : Globals
  /-- The most activations that may be nested. -/
  limit : Nat
  /-- The activations in progress. -/
  depth : Nat
  frames : FrameRef → Option Frame
  closures : BlockRef → Option Closure
  arrays : ArrayRef → Option (Array Value)
  /-- The classes of instances. -/
  instances : ObjectRef → Option ClassRef

namespace Scene

/-- It is so in a world, whose conditions are told to their receivers. -/
structure Holds (σ : Scene) (w : World) : Prop where
  classes : w.classes = σ.classes
  globals : w.globals = σ.globals
  handler : w.handler = .standard
  limit : w.settings.maxDepth = σ.limit
  depth : w.thread.depth = σ.depth
  frames : ∀ f F, σ.frames f = some F → w.heap.frames[f]? = some F
  closures : ∀ b c, σ.closures b = some c → w.heap.closures[b]? = some c
  arrays : ∀ a items, σ.arrays a = some items → w.heap.arrays[a]? = some items
  instances : ∀ o c, σ.instances o = some c → (w.heap.instance_ o).cls = c
  /-- Activations are numbered one after another. -/
  activations : ∀ f F, σ.frames f = some F → F.activation ≤ w.thread.activations

variable {σ σ' σ₁ σ₂ τ : Scene}

/-- What remembers or counts is no part of a scene. -/
theorem Holds.plain (h : σ.Holds w) : σ.Holds w.plain where
  classes := h.classes
  globals := h.globals
  handler := h.handler
  limit := h.limit
  depth := h.depth
  frames := h.frames
  closures := h.closures
  arrays := h.arrays
  instances o c hc := by
    rw [World.plain_heap, Heap.current_instance_cls]
    exact h.instances o c hc
  activations := h.activations

theorem Holds.frame (h : σ.Holds w) {f : FrameRef} {F : Frame} (hf : σ.frames f = some F) :
    w.heap.frame f = F := by
  rw [Heap.frame, Array.getD_eq_getD_getElem?, h.frames f F hf, Option.getD_some]

theorem Holds.closure (h : σ.Holds w) {b : BlockRef} {c : Closure} (hb : σ.closures b = some c) :
    w.heap.closure b = c := by
  rw [Heap.closure, Array.getD_eq_getD_getElem?, h.closures b c hb, Option.getD_some]

theorem Holds.array (h : σ.Holds w) {a : ArrayRef} {items : Array Value}
    (ha : σ.arrays a = some items) : w.heap.array a = items := by
  rw [Heap.array, Array.getD_eq_getD_getElem?, h.arrays a items ha, Option.getD_some]

/-! ### Knowing less -/

/-- A scene that knows no more than another one. -/
structure Le (σ σ' : Scene) : Prop where
  classes : σ.classes = σ'.classes
  globals : σ.globals = σ'.globals
  limit : σ.limit = σ'.limit
  depth : σ.depth = σ'.depth
  frames : ∀ f F, σ.frames f = some F → σ'.frames f = some F
  closures : ∀ b c, σ.closures b = some c → σ'.closures b = some c
  arrays : ∀ a items, σ.arrays a = some items → σ'.arrays a = some items
  instances : ∀ o c, σ.instances o = some c → σ'.instances o = some c

theorem Le.refl (σ : Scene) : σ.Le σ :=
  ⟨rfl, rfl, rfl, rfl, fun _ _ h => h, fun _ _ h => h, fun _ _ h => h, fun _ _ h => h⟩

theorem Le.trans (h : σ.Le σ₁) (h' : σ₁.Le σ₂) : σ.Le σ₂ :=
  ⟨h.classes.trans h'.classes, h.globals.trans h'.globals, h.limit.trans h'.limit,
    h.depth.trans h'.depth, fun f F hf => h'.frames f F (h.frames f F hf),
    fun b c hb => h'.closures b c (h.closures b c hb),
    fun a items ha => h'.arrays a items (h.arrays a items ha),
    fun o c ho => h'.instances o c (h.instances o c ho)⟩

theorem Holds.mono (h : σ'.Holds w) (hle : σ.Le σ') : σ.Holds w where
  classes := h.classes.trans hle.classes.symm
  globals := h.globals.trans hle.globals.symm
  handler := h.handler
  limit := h.limit.trans hle.limit.symm
  depth := h.depth.trans hle.depth.symm
  frames f F hf := h.frames f F (hle.frames f F hf)
  closures b c hb := h.closures b c (hle.closures b c hb)
  arrays a items ha := h.arrays a items (hle.arrays a items ha)
  instances o c ho := h.instances o c (hle.instances o c ho)
  activations f F hf := h.activations f F (hle.frames f F hf)

/-! ### Knowing more -/

/-- The scene with one more activation in progress. -/
def deeper (σ : Scene) : Scene :=
  { σ with depth := σ.depth + 1 }

/-- The scene with a frame. -/
def withFrame (σ : Scene) (f : FrameRef) (F : Frame) : Scene :=
  { σ with frames := Function.update σ.frames f (some F) }

/-- The scene with a closure. -/
def withClosure (σ : Scene) (b : BlockRef) (c : Closure) : Scene :=
  { σ with closures := Function.update σ.closures b (some c) }

/-- The scene with an array. -/
def withArray (σ : Scene) (a : ArrayRef) (items : Array Value) : Scene :=
  { σ with arrays := Function.update σ.arrays a (some items) }

section Frames

variable {f g : FrameRef} {F G : Frame}

@[simp] theorem withFrame_frames_self (σ : Scene) (f : FrameRef) (F : Frame) :
    (σ.withFrame f F).frames f = some F :=
  Function.update_self ..

theorem withFrame_frames_of_ne (h : g ≠ f) : (σ.withFrame f F).frames g = σ.frames g :=
  Function.update_of_ne h ..

/-- A frame that is known is another one than a frame of which nothing is known. -/
theorem ne_of_frames (hg : σ.frames g = some G) (hf : σ.frames f = none) : g ≠ f := by
  rintro rfl
  cases hg.symm.trans hf

theorem withFrame_frames (hg : σ.frames g = some G) (hf : σ.frames f = none) :
    (σ.withFrame f F).frames g = some G :=
  (withFrame_frames_of_ne (ne_of_frames hg hf)).trans hg

@[simp] theorem withFrame_withFrame (σ : Scene) (f : FrameRef) (F G : Frame) :
    (σ.withFrame f F).withFrame f G = σ.withFrame f G := by
  simp only [withFrame, Function.update_idem]

theorem withFrame_comm (h : f ≠ g) (σ : Scene) (F G : Frame) :
    (σ.withFrame f F).withFrame g G = (σ.withFrame g G).withFrame f F := by
  simp only [withFrame, Function.update_comm h]

theorem withFrame_frames_eq_none (h : (σ.withFrame f F).frames g = none) :
    (σ.withFrame f G).frames g = none := by
  have hne : g ≠ f := by
    rintro rfl
    cases (withFrame_frames_self σ g F).symm.trans h
  rwa [withFrame_frames_of_ne hne] at h ⊢

theorem le_withFrame (h : σ.frames f = none) : σ.Le (σ.withFrame f F) :=
  { Le.refl σ with frames := fun _ _ hg => withFrame_frames hg h }

theorem Le.withFrame (h : σ.Le σ') (f : FrameRef) (F : Frame) :
    (σ.withFrame f F).Le (σ'.withFrame f F) :=
  { h with
    frames := fun g G hg => by
      by_cases hf : g = f
      · subst hf
        rwa [withFrame_frames_self] at hg ⊢
      · rw [withFrame_frames_of_ne hf] at hg ⊢
        exact h.frames g G hg }

end Frames

theorem Le.deeper (h : σ.Le σ') : σ.deeper.Le σ'.deeper :=
  { h with depth := congrArg (· + 1) h.depth }

section Closures

variable {b b' : BlockRef} {c : Closure}

@[simp] theorem withClosure_closures_self (σ : Scene) (b : BlockRef) (c : Closure) :
    (σ.withClosure b c).closures b = some c :=
  Function.update_self ..

theorem withClosure_closures_of_ne (h : b' ≠ b) :
    (σ.withClosure b c).closures b' = σ.closures b' :=
  Function.update_of_ne h ..

theorem withClosure_closures {c' : Closure} (hb' : σ.closures b' = some c')
    (hb : σ.closures b = none) : (σ.withClosure b c).closures b' = some c' := by
  have hne : b' ≠ b := by
    rintro rfl
    cases hb'.symm.trans hb
  rw [withClosure_closures_of_ne hne, hb']

theorem le_withClosure (h : σ.closures b = none) : σ.Le (σ.withClosure b c) :=
  { Le.refl σ with closures := fun _ _ hb => withClosure_closures hb h }

end Closures

section Arrays

variable {a a' : ArrayRef} {items : Array Value}

@[simp] theorem withArray_arrays_self (σ : Scene) (a : ArrayRef) (items : Array Value) :
    (σ.withArray a items).arrays a = some items :=
  Function.update_self ..

theorem withArray_arrays_of_ne (h : a' ≠ a) : (σ.withArray a items).arrays a' = σ.arrays a' :=
  Function.update_of_ne h ..

@[simp] theorem withArray_withArray (σ : Scene) (a : ArrayRef) (items items' : Array Value) :
    (σ.withArray a items).withArray a items' = σ.withArray a items' := by
  simp only [withArray, Function.update_idem]

theorem withArray_arrays {items' : Array Value} (ha' : σ.arrays a' = some items')
    (ha : σ.arrays a = none) : (σ.withArray a items).arrays a' = some items' := by
  have hne : a' ≠ a := by
    rintro rfl
    cases ha'.symm.trans ha
  rw [withArray_arrays_of_ne hne, ha']

theorem le_withArray (h : σ.arrays a = none) : σ.Le (σ.withArray a items) :=
  { Le.refl σ with arrays := fun _ _ ha => withArray_arrays ha h }

end Arrays

/-! ### Leading from one job to another -/

end Scene

/-- A job whose next step sends nothing, and reads no field by its number. -/
def Job.Simple : Job → Prop
  | .execute a => a.sends? = none
  | .invoke (.primitive p) _ => p.builtin ≠ .instVarAt
  | _ => True

theorem Job.Simple.tame {j : Job} (h : j.Simple) (w : World) (k : List Pending) :
    Machine.Tame ⟨w, j, k⟩ := by
  refine ⟨?_, ?_⟩
  · rintro p arguments ⟨⟩
    exact h
  · rintro a selector ⟨⟩
    rw [show a.sends? = none from h]
    nofun

theorem Job.Simple.reference {j : Job} (h : j.Simple) (w : World) (k : List Pending) :
    Machine.reference ⟨w, j, k⟩ = (Machine.step ⟨w, j, k⟩).plain := by
  cases j with
  | execute a =>
    have hnone : a.sends? = none := h
    simp only [Machine.reference, hnone]
  | _ => rfl

namespace Scene

open Machine

variable {σ σ' σ₁ σ₂ τ : Scene} {j j' j₁ : Job} {n n' n₁ : Nat}

/-- With a job to do in a world of a scene, the reference machine comes to have another one to do in
    a world of another scene, with the same things pending. -/
def Leads (n : Nat) (σ : Scene) (j : Job) (σ' : Scene) (j' : Job) : Prop :=
  ∀ (Q : Machine → Prop) (N : Nat) (w : World) (k : List Pending), σ.Holds w →
    (∀ w', σ'.Holds w' → Attains Q N ⟨w'.plain, j', k⟩) → Attains Q (N + n) ⟨w.plain, j, k⟩

namespace Leads

theorem refl (σ : Scene) (j : Job) : Leads 0 σ j σ j :=
  fun _ _ w _ hw h => h w hw

theorem trans (h : Leads n σ j σ₁ j₁) (h' : Leads n' σ₁ j₁ σ' j') :
    Leads (n' + n) σ j σ' j' := fun Q N w k hw hQ => by
  rw [← Nat.add_assoc]
  exact h Q (N + n') w k hw fun w' hw' => h' Q N w' k hw' hQ

theorem mono (h : Leads n σ j σ' j') (hn : n ≤ n') : Leads n' σ j σ' j' :=
  fun Q N w k hw hQ => (h Q N w k hw hQ).mono (Nat.add_le_add_left hn N)

theorem forget (hle : τ.Le σ) (h : Leads n τ j σ' j') : Leads n σ j σ' j' :=
  fun Q N w k hw hQ => h Q N w k (hw.mono hle) hQ

theorem weaken (h : Leads n σ j σ' j') (hle : τ.Le σ') : Leads n σ j τ j' :=
  fun Q N w k hw hQ => h Q N w k hw fun w' hw' => hQ w' (hw'.mono hle)

/-- What leads from every point to the one after it leads on from the first. -/
theorem iterate {φ : Nat → Scene} {J : Nat → Job} {m : Nat}
    (h : ∀ k < m, Leads n (φ k) (J k) (φ (k + 1)) (J (k + 1))) :
    Leads (n * m) (φ 0) (J 0) (φ m) (J m) := by
  induction m with
  | zero => exact .refl _ _
  | succ m ih =>
    rw [Nat.mul_succ, Nat.add_comm]
    exact (ih fun k hk => h k (by omega)).trans (h m (by omega))

/-- A step of the machine leads on, to a scene that may depend on where things are put. -/
theorem next (hj : j.Simple) (h : ∀ w k, σ.Holds w → w.sites = ∅ → ∃ w' σ₁ j₁,
    step ⟨w, j, k⟩ = ⟨w', j₁, k⟩ ∧ σ₁.Holds w' ∧ Leads n σ₁ j₁ σ' j') :
    Leads (n + 1) σ j σ' j' := fun Q N w k hw hQ => by
  obtain ⟨w', σ₁, j₁, hstep, hw', hnext⟩ := h w.plain k hw.plain rfl
  refine .next (hj.tame _ _) ?_
  rw [hj.reference, hstep]
  exact hnext Q N w' k hw' hQ

end Leads

/-- The same with something on top of what is pending, which is taken off on the way. -/
def Clears (n : Nat) (p : Pending) (σ : Scene) (j : Job) (σ' : Scene) (j' : Job) : Prop :=
  ∀ (Q : Machine → Prop) (N : Nat) (w : World) (k : List Pending), σ.Holds w →
    (∀ w', σ'.Holds w' → Attains Q N ⟨w'.plain, j', k⟩) → Attains Q (N + n) ⟨w.plain, j, p :: k⟩

variable {p : Pending}

/-- What is pending is left alone on the way. -/
theorem Leads.clears (h : Leads n₁ σ j σ₁ j₁) (hend : Clears n p σ₁ j₁ σ' j') :
    Clears (n + n₁) p σ j σ' j' := fun Q N w k hw hQ => by
  rw [← Nat.add_assoc]
  exact h Q (N + n) w (p :: k) hw fun w' hw' => hend Q N w' k hw' hQ

/-- Something is put on top of what is pending, and taken off later. -/
theorem Leads.pending (htame : ∀ w k, Tame ⟨w, j, k⟩)
    (hstart : ∀ w k, σ.Holds w → w.sites = ∅ → reference ⟨w, j, k⟩ = ⟨w.plain, j₁, p :: k⟩)
    (h : Clears n p σ j₁ σ' j') : Leads (n + 1) σ j σ' j' := fun Q N w k hw hQ => by
  refine .next (htame _ _) ?_
  rw [hstart _ _ hw.plain rfl, World.plain_plain]
  exact h Q N w k hw hQ

/-- It is taken off by the next step. -/
theorem Clears.last (hj : j.Simple) (h : ∀ w k, σ.Holds w → ∃ w' σ₁ j₁,
    step ⟨w, j, p :: k⟩ = ⟨w', j₁, k⟩ ∧ σ₁.Holds w' ∧ Leads n σ₁ j₁ σ' j') :
    Clears (n + 1) p σ j σ' j' := fun Q N w k hw hQ => by
  obtain ⟨w', σ₁, j₁, hstep, hw', hnext⟩ := h w.plain k hw.plain
  refine .next (hj.tame _ _) ?_
  rw [hj.reference, hstep]
  exact hnext Q N w' k hw' hQ

/-- Something else is put in its place by the next step. -/
theorem Clears.instead (q : Pending) (hj : j.Simple) (h : ∀ w k, σ.Holds w → ∃ w' σ₁ j₁,
    step ⟨w, j, p :: k⟩ = ⟨w', j₁, q :: k⟩ ∧ σ₁.Holds w' ∧ Clears n q σ₁ j₁ σ' j') :
    Clears (n + 1) p σ j σ' j' := fun Q N w k hw hQ => by
  obtain ⟨w', σ₁, j₁, hstep, hw', hnext⟩ := h w.plain k hw.plain
  refine .next (hj.tame _ _) ?_
  rw [hj.reference, hstep]
  exact hnext Q N w' k hw' hQ

end Scene

end Parley
