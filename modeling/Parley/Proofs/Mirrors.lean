import Parley.Proofs.Reachable

/-!
# Mirrored class tables

A shortcut that accepts its operands does what its primitive does (`Shortcut.mirrors`). So a call
site may take it in place of what a lookup finds, as long as no shortcut is listed next to another
primitive than its own. A class table in which that is so is *mirrored* (`ClassTable.Mirrored`).
The library makes one, and what hosts do to classes afterwards keeps it so, as long as they install
no primitives themselves.
-/

namespace Parley

variable {w : World} {t t' : ClassTable}

/-! ### Tables -/

/-- A class table in which primitives are listed under their own selectors, and shortcuts only
    next to the primitives that they stand for. -/
def ClassTable.Mirrored (t : ClassTable) : Prop :=
  ∀ c selector p, t.own? c selector = some (.primitive p) →
    p.selector = selector ∧ ∀ op, p.shortcut = some op → p.builtin = op.builtin

namespace ClassTable

/-- What a lookup finds is listed somewhere. -/
theorem Mirrored.lookup (h : t.Mirrored) {c : ClassRef} {selector : Selector} {p : Primitive}
    (hp : t.lookup c selector = some (.primitive p)) :
    p.selector = selector ∧ ∀ op, p.shortcut = some op → p.builtin = op.builtin := by
  obtain ⟨k, -, hk⟩ := List.exists_of_findSome?_eq_some hp
  exact h k selector p hk

/-- Whether nothing is listed in a table that was not listed in another one before. -/
def Keeps (t t' : ClassTable) : Prop :=
  ∀ c selector i, t'.own? c selector = some i → t.own? c selector = some i

theorem Keeps.trans {t'' : ClassTable} (h : t.Keeps t') (h' : t'.Keeps t'') : t.Keeps t'' :=
  fun c selector i hi => h c selector i (h' c selector i hi)

theorem Mirrored.of_keeps (h : t.Mirrored) (hk : t.Keeps t') : t'.Mirrored :=
  fun c selector p hp => h c selector p (hk c selector _ hp)

theorem modify_keeps (t : ClassTable) (c : ClassRef) {f : Class → Class}
    (hf : ∀ k, (f k).methods = k.methods) :
    t.Keeps { t with classes := t.classes.modify c f } := by
  intro c' selector i hi
  rw [own?, get, get_modify] at hi
  split at hi
  · rw [hf] at hi
    exact hi
  · exact hi

theorem add_keeps (t : ClassTable) (name : String) (super : Option ClassRef)
    (fields : List String) : t.Keeps (t.add (t.make name super fields)) := by
  intro c selector i hi
  simp only [own?, get, add, Array.getD_eq_getD_getElem?, Array.getElem?_push] at hi
  split at hi
  · cases hi
  · rw [own?, get, Array.getD_eq_getD_getElem?]
    exact hi

theorem addField_keeps (t : ClassTable) (c : ClassRef) (name : String) :
    t.Keeps (t.addField c name) := by
  intro c' selector i hi
  rw [addField, own?, get, get_modify] at hi
  split at hi <;> exact hi

theorem attach_keeps (t : ClassTable) (c root : ClassRef) : t.Keeps (t.attach c root) :=
  (add_keeps t _ _ _).trans (modify_keeps _ c fun _ => rfl)

theorem define_keeps (t : ClassTable) (name : String) (super : ClassRef) (fields : List String) :
    t.Keeps (t.define name super fields) :=
  (add_keeps t _ _ _).trans (attach_keeps _ _ _)

/-- A method may be installed, or a primitive next to its own shortcut. -/
theorem Mirrored.install (h : t.Mirrored) (c : ClassRef) {i : Invokable}
    (hi : ∀ p, i = .primitive p → ∀ op, p.shortcut = some op → p.builtin = op.builtin) :
    (t.install c i).Mirrored := by
  intro c' selector p hp
  rw [ClassTable.install, own?, get, get_modify] at hp
  split at hp
  · rw [Directory.get?_put] at hp
    split at hp
    · rename_i hselector
      -- The lookup finds what was installed just now.
      have hip : i = .primitive p := Option.some.inj hp
      rw [hip] at hselector
      exact ⟨hselector.symm, hi p hip⟩
    · exact h c' selector p hp
  · exact h c' selector p hp

/-- The classes of the library have nothing installed at first. -/
theorem initial_own? (c : ClassRef) (selector : Selector) :
    ClassTable.initial.own? c selector = none := by
  have hnone : ClassTable.initial.classes.all (fun k => k.methods.entries.isEmpty) := by
    decide +kernel
  have hempty : (ClassTable.initial.get c).methods.entries = [] := by
    refine getD_of_forall (p := fun k : Class => k.methods.entries = []) (fun k hk => ?_) rfl c
    exact List.isEmpty_iff.1 (Array.all_eq_true_iff_forall_mem.1 hnone k hk)
  rw [own?, Directory.get?, hempty]
  rfl

theorem initial_mirrored : ClassTable.initial.Mirrored := by
  intro c selector p hp
  rw [initial_own?] at hp
  cases hp

end ClassTable

/-! ### The library -/

namespace World

/-- A primitive with no shortcut but its own may be installed. -/
theorem installPrimitive_mirrored (h : w.classes.Mirrored) (c : ClassRef) (selector : Selector)
    {builtin : Builtin} {shortcut : Option Shortcut}
    (hs : ∀ op, shortcut = some op → builtin = op.builtin) :
    (w.installPrimitive c selector builtin shortcut).classes.Mirrored := by
  refine ClassTable.Mirrored.install h c ?_
  rintro _ ⟨⟩
  exact hs

/-- A method may be defined. -/
theorem define_mirrored (h : w.classes.Mirrored) (c : ClassRef) (m : MethodTree) :
    (w.define c m).2.classes.Mirrored := by
  have hclasses := w.compile_classes c m w.settings.inlining
  rw [define]
  split
  · rename_i w' hr
    rw [hr] at hclasses
    exact hclasses ▸ h
  · rename_i code w' hr
    rw [hr] at hclasses
    refine ClassTable.Mirrored.install (hclasses ▸ h) c ?_
    rintro p ⟨⟩

theorem defineAll_mirrored (h : w.classes.Mirrored) (c : ClassRef) (ms : List MethodTree) :
    (w.defineAll c ms).2.classes.Mirrored := by
  induction ms generalizing w with
  | nil => exact h
  | cons m rest ih =>
    have hd := define_mirrored h c m
    rw [defineAll]
    split
    · rename_i hr
      rw [hr] at hd
      exact hd
    · rename_i hr
      rw [hr] at hd
      exact ih hd

theorem bindAll_classes (entries : List (String × ClassRef)) (w : World) :
    (entries.foldl (fun w (name, c) => w.writeGlobal name (.classRef c)) w).classes =
      w.classes := by
  induction entries generalizing w with
  | nil => rfl
  | cons e rest ih => exact ih _

/-- A new world with the library has a mirrored table. -/
theorem boot_mirrored (settings : Settings) (handler : Handler) (sink : Sink) (watched : Bool) :
    (boot settings handler sink watched).classes.Mirrored := by
  -- The one fact about the library as it is listed.
  have hlibrary : ∀ e ∈ Library.primitives, ∀ p ∈ e.2, ∀ op, p.2.2 = some op →
      p.2.1 = op.builtin := by
    decide
  unfold boot installLibrary
  extract_lets w₁
  have h₁ : w₁.classes.Mirrored := by
    refine List.foldlRecOn (motive := fun w : World => w.classes.Mirrored) _ _
      ClassTable.initial_mirrored fun w h e he => ?_
    refine List.foldlRecOn (motive := fun w : World => w.classes.Mirrored) _ _ h
      fun w h p hp => ?_
    exact installPrimitive_mirrored h _ _ (hlibrary e he p hp)
  have h₂ := defineAll_mirrored h₁ Core.block Library.loops
  generalize w₁.defineAll Core.block Library.loops = r at h₂ ⊢
  obtain ⟨_, w₂⟩ := r
  dsimp only at h₂ ⊢
  -- Globals and the system object change no class.
  have h₃ : w₂.bindClasses.classes.Mirrored := by
    rw [bindClasses, bindAll_classes]
    exact h₂
  rw [note_classes]
  exact h₃

end World

end Parley
