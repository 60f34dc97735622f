import Parley.Machine.Step

/-!
# The stage of a machine

What a machine has its activations on: the frames and closures of the heap, the classes with what is
installed in them, the codes, and the number of activations so far. Most of what a world does leaves
the stage as it is: events, statistics, output and globals do, and so do arrays and instances.

It leaves the *premises* as they are, too (`Premises`): besides the stage the settings, the number
of activations in progress, what instructions are specialized to, and what the host holds.
-/

namespace Parley

variable {w : World}

/-- A heap without its arrays and instances. -/
def Heap.shell (h : Heap) : Heap :=
  { h with arrays := #[], instances := #[] }

/-- Whether conditions are told to their receivers. -/
def Handler.isStandard : Handler → Bool
  | .standard => true
  | .scripted _ => false

/-- What of a world its activations come and go on. -/
structure Stage where
  classes : ClassTable
  codes : List Code
  /-- The frames and closures. -/
  heap : Heap
  activations : Nat
  /-- Whether conditions are told to their receivers. -/
  standard : Bool

/-- The stage of a world. -/
def World.stage (w : World) : Stage :=
  ⟨w.classes, w.codes, w.heap.shell, w.thread.activations, w.handler.isStandard⟩

/-- What of a world nothing changes but hosts and the executing of instructions. -/
structure Premises where
  stage : Stage
  settings : Settings
  /-- The activations in progress. -/
  depth : Nat
  sites : Std.HashMap Location Site
  held : List Held

/-- The premises of a world. -/
def World.premises (w : World) : Premises :=
  ⟨w.stage, w.settings, w.thread.depth, w.sites, w.held⟩

theorem World.settings_of_premises {w w' : World} (h : w'.premises = w.premises) :
    w'.settings = w.settings :=
  congrArg Premises.settings h

theorem World.classes_of_premises {w w' : World} (h : w'.premises = w.premises) :
    w'.classes = w.classes :=
  congrArg (Stage.classes ∘ Premises.stage) h

theorem World.sites_of_premises {w w' : World} (h : w'.premises = w.premises) :
    w'.sites = w.sites :=
  congrArg Premises.sites h

/-! ### Heaps -/

/-- A change of one element that is told by what is made of the elements. -/
theorem map_modify {α β : Type} {f : α → β} {g : α → α} (xs : Array α) (g' : β → β) (n : Nat)
    (hg : ∀ x, f (g x) = g' (f x)) : (xs.modify n g).map f = (xs.map f).modify n g' := by
  ext1
  · simp
  · rename_i j hj hj'
    simp only [Array.getElem_map, Array.getElem_modify]
    split
    · exact hg _
    · rfl

namespace Heap

variable (h : Heap) (t : ClassTable) (o : ObjectRef)

@[simp] theorem shell_frame (f : FrameRef) : h.shell.frame f = h.frame f := rfl

@[simp] theorem shell_closure (b : BlockRef) : h.shell.closure b = h.closure b := rfl

@[simp] theorem shell_enclosing? (f : FrameRef) (level : Nat) :
    h.shell.enclosing? f level = h.enclosing? f level := rfl

@[simp] theorem shell_home (f : FrameRef) : h.shell.home f = h.home f := rfl

@[simp] theorem updateLayout_shell : (h.updateLayout t o).2.shell = h.shell := by
  unfold updateLayout
  dsimp only
  split <;> rfl

@[simp] theorem readField_shell (index : Nat) : (h.readField t o index).2.shell = h.shell := by
  unfold readField
  split
  · rfl
  · exact h.updateLayout_shell t o

@[simp] theorem writeField_shell (index : Nat) (v : Value) :
    (h.writeField t o index v).2.shell = h.shell := by
  unfold writeField
  extract_lets h₁
  have h₁ : h₁.shell = h.shell := by
    dsimp only [h₁]
    split
    · rfl
    · exact h.updateLayout_shell t o
  split
  · exact h₁
  · exact h₁

end Heap

/-! ### Worlds -/

namespace World

@[simp] theorem note_premises (w : World) (e : Event) : (w.note e).premises = w.premises := by
  rw [note]
  split <;> rfl

@[simp] theorem count_premises (w : World) (f : Statistics → Statistics) :
    (w.count f).premises = w.premises := rfl

@[simp] theorem write_premises (w : World) (s : String) : (w.write s).premises = w.premises := by
  unfold write
  split
  · rfl
  · split
    · rfl
    · exact note_premises _ _

theorem setHeap_premises (w : World) {heap : Heap} (h : heap.shell = w.heap.shell) :
    premises { w with heap } = w.premises := by
  rw [premises, premises, stage, stage]
  dsimp only
  rw [h]

@[simp] theorem migrate_premises (w : World) (v : Value) : (w.migrate v).premises = w.premises := by
  unfold migrate
  split
  · exact w.setHeap_premises (Heap.updateLayout_shell _ _ _)
  · rfl

@[simp] theorem writeGlobal_premises (w : World) (name : String) (v : Value) :
    (w.writeGlobal name v).premises = w.premises := rfl

@[simp] theorem noteQuickened_premises (w : World) (message : String)
    (fields : List (String × String)) : (w.noteQuickened message fields).premises = w.premises :=
  note_premises _ _

@[simp] theorem note_stage (w : World) (e : Event) : (w.note e).stage = w.stage :=
  congrArg Premises.stage (w.note_premises e)

theorem setHeap_stage (w : World) {heap : Heap} (h : heap.shell = w.heap.shell) :
    stage { w with heap } = w.stage :=
  congrArg Premises.stage (w.setHeap_premises h)

end World

@[simp] theorem Activation.countLoops_premises (a : Activation) (w : World) :
    (a.countLoops w).premises = w.premises := by
  unfold countLoops
  split
  · rfl
  · dsimp only
    split
    · exact World.note_premises _ _
    · rfl

mutual

@[simp] theorem Recipe.make_premises (registers : Directory Value) :
    ∀ (r : Recipe) (w : World), (r.make registers w).2.premises = w.premises
  | .nil, _ | .bool _, _ | .int _, _ | .big _, _ | .double _, _ | .symbol _, _ => by rw [make]
  | .string _, _ => by
    rw [make]
    rfl
  | .array items, w => by
    have h := Recipe.makeAll_premises registers items w
    rw [make]
    split
    · rename_i hr
      rwa [hr] at h
    · rename_i hr
      rwa [hr] at h
  | .classNamed _, _ | .instanceOf _, _ | .register _, _ | .global _, _ => by
    rw [make]
    split <;> rfl

@[simp] theorem Recipe.makeAll_premises (registers : Directory Value) :
    ∀ (rs : List Recipe) (w : World), (Recipe.makeAll registers rs w).2.premises = w.premises
  | [], _ => by rw [makeAll]
  | r :: rest, w => by
    have h := Recipe.make_premises registers r w
    rw [makeAll]
    split
    · rename_i hr
      rwa [hr] at h
    · rename_i v w₁ hr
      have h' := Recipe.makeAll_premises registers rest w₁
      rw [hr] at h
      split
      · rename_i hr'
        rw [hr'] at h'
        exact h'.trans h
      · rename_i hr'
        rw [hr'] at h'
        exact h'.trans h

end

end Parley
