import Parley.Proofs.Founding
import Parley.Proofs.Lasting
import Parley.Proofs.Listings

/-!
# The loops of the library

What the library compiles for `whileTrue:` and `whileFalse:` depends on whether control flow is
inlined, and on no other setting, so that the classes of a new world are known
(`World.boot_classes`). A code that the library has for one of the loops is as sketched
(`LibraryLoop.follows`), it assigns none of its arguments (`LibraryLoop.sparing`), and the messages
that it sends are answered by the primitives that are meant (`World.boot_intact`).
-/

namespace Parley

/-! ### Methods that are compiled one after another -/

/-- What methods are compiled to, one after another, for a class without fields. -/
def codesOf (c : ClassRef) (inlining : Bool) : List MethodTree → Supply → Option (List Code)
  | [], _ => some []
  | m :: rest, supply =>
    match m.lowerTo 1000 c [] inlining supply with
    | ⟨.ok code, supply, _⟩ => (codesOf c inlining rest supply).map (code :: ·)
    | _ => none

/-- A table with methods installed in a class, one after another. -/
def ClassTable.installAll (t : ClassTable) (c : ClassRef) (codes : List Code) : ClassTable :=
  codes.foldl (fun t code => t.install c (.method code)) t

namespace World

variable {w : World} {c : ClassRef} {inlining : Bool}

theorem fields_install (t : ClassTable) (c : ClassRef) (i : Invokable) (k : ClassRef) :
    ((t.install c i).get k).fields = (t.get k).fields := by
  rw [ClassTable.get_install]
  split <;> rfl

theorem defineAll_classes {ms : List MethodTree} {codes : List Code}
    (hfields : (w.classes.get c).fields = []) (hinlining : w.settings.inlining = inlining)
    (h : codesOf c inlining ms w.supply = some codes) :
    (w.defineAll c ms).2.classes = w.classes.installAll c codes := by
  induction ms generalizing w codes with
  | nil =>
    cases h
    rfl
  | cons m ms ih =>
    rw [codesOf] at h
    split at h
    · rename_i code supply events hlower
      obtain ⟨rest, hrest, rfl⟩ := Option.map_eq_some_iff.1 h
      rw [MethodTree.lowerTo_eq, ← hfields, ← hinlining] at hlower
      obtain ⟨codes, events, hdefine⟩ := define_eq hlower
      rw [defineAll, hdefine]
      exact ih ((fields_install _ _ _ _).trans hfields) hinlining hrest
    · cases h

/-- What the loops of the library are compiled to. -/
def loopCodes (inlining : Bool) : List Code :=
  (codesOf Core.block inlining Library.loops ⟨1, 0, 0, 75⟩).getD []

/-- The classes of a new world. -/
def looped (inlining : Bool) : ClassTable :=
  furnished.classes.installAll Core.block (loopCodes inlining)

theorem codesOf_loops (inlining : Bool) :
    codesOf Core.block inlining Library.loops ⟨1, 0, 0, 75⟩ = some (loopCodes inlining) := by
  have hsome : (codesOf Core.block inlining Library.loops ⟨1, 0, 0, 75⟩).isSome := by
    cases inlining <;> decide +kernel
  rw [loopCodes]
  obtain ⟨codes, hcodes⟩ := Option.isSome_iff_exists.1 hsome
  rw [hcodes, Option.getD_some]

/-- The classes of a new world depend on whether control flow is inlined, and on nothing else. -/
theorem boot_classes (settings : Settings) (handler : Handler) (sink : Sink) (watched : Bool) :
    (boot settings handler sink watched).classes = looped settings.inlining := by
  obtain ⟨hsupply, -, -, -, -, hfields, -⟩ := furnished_classes
  have hcodes := codesOf_loops settings.inlining
  rw [← hsupply] at hcodes
  have hdefine := defineAll_classes (w := furnished.refit settings handler sink watched) hfields rfl
    hcodes
  rw [boot, installLibrary, furnished_refit]
  generalize (furnished.refit settings handler sink watched).defineAll Core.block Library.loops = r
    at hdefine ⊢
  obtain ⟨_, w⟩ := r
  dsimp only
  rw [note_classes, bindClasses_eq]
  exact hdefine

end World

/-! ### The codes of the loops -/

namespace LibraryLoop

open Workload

/-- The message that is sent to a condition, to go on as long as it answers a Boolean. -/
def selector (on : Bool) : Selector :=
  if on then "whileTrue:" else "whileFalse:"

/-- The message that a loop which is not inlined is left by. -/
def exit (on : Bool) : Selector :=
  if on then "ifFalse:" else "ifTrue:"

/-- A code that a new world has for a loop, with the control flow in it inlined or not. -/
def IsCode (on inlining : Bool) (code : Code) : Prop :=
  ∃ (settings : Settings) (handler : Handler) (sink : Sink) (watched : Bool),
    settings.inlining = inlining ∧
      (World.boot settings handler sink watched).classes.own? Core.block (selector on) =
        some (.method code)

/-- What it looks like. -/
def sketch (on inlining : Bool) : Sketch :=
  if inlining then loopInlined on else loopClosed (exit on)

/-- Whether a new world has a code for a loop that is as sketched and assigns no arguments. -/
def fits (on inlining : Bool) : Bool :=
  match (World.looped inlining).own? Core.block (selector on) with
  | some (.method code) => (sketch on inlining).shows code && code.sparing
  | _ => false

theorem fits_eq_true (on inlining : Bool) : fits on inlining = true := by
  cases on <;> cases inlining <;> decide +kernel

namespace IsCode

variable {on inlining : Bool} {code : Code}

theorem own (h : IsCode on inlining code) :
    (World.looped inlining).own? Core.block (selector on) = some (.method code) := by
  obtain ⟨settings, handler, sink, watched, rfl, hown⟩ := h
  rw [← hown, World.boot_classes]

theorem fits (h : IsCode on inlining code) :
    code.Follows (sketch on inlining) ∧ code.sparing := by
  have hfits := fits_eq_true on inlining
  rw [LibraryLoop.fits, h.own] at hfits
  exact Bool.and_eq_true_iff.1 hfits

theorem follows (h : IsCode on inlining code) : code.Follows (sketch on inlining) :=
  h.fits.1

theorem sparing (h : IsCode on inlining code) : code.Sparing :=
  Code.sparing_of_sparing h.fits.2

end IsCode

theorem exists_isCode (on : Bool) (settings : Settings) (handler : Handler) (sink : Sink)
    (watched : Bool) : ∃ code, (World.boot settings handler sink watched).classes.own? Core.block
      (selector on) = some (.method code) ∧ IsCode on settings.inlining code := by
  have hfits := fits_eq_true on settings.inlining
  rw [fits, ← World.boot_classes settings handler sink watched] at hfits
  split at hfits
  · rename_i code hown
    exact ⟨code, hown, settings, handler, sink, watched, rfl, hown⟩
  · cases hfits

end LibraryLoop

/-! ### The messages that they send -/

/-- The messages that the loops of the library send are not redefined. -/
structure ClassTable.Intact (t : ClassTable) : Prop where
  value : t.Performs Core.block "value" .blockValue
  restart : t.Performs Core.block "restart" .restart
  ifTrue : ∀ c ∈ [Core.true, Core.false], t.Performs c "ifTrue:" .ifTrue
  ifFalse : ∀ c ∈ [Core.true, Core.false], t.Performs c "ifFalse:" .ifFalse

/-- Whether a lookup finds a primitive that does this, and a shortcut next to it does so, too. -/
def ClassTable.performs (t : ClassTable) (c : ClassRef) (s : Selector) (b : Builtin) : Bool :=
  match t.lookup c s with
  | some (.primitive p) =>
    p.selector == s && p.builtin == b && p.shortcut.all fun op => b == op.builtin
  | _ => false

theorem ClassTable.Performs.of_performs {t : ClassTable} {c : ClassRef} {s : Selector} {b : Builtin}
    (h : t.performs c s b) : t.Performs c s b := by
  unfold performs at h
  split at h
  · rename_i p hp
    simp only [Bool.and_eq_true, beq_iff_eq, Option.all_eq_true] at h
    exact ⟨p, hp, h.1.1, h.1.2, h.2⟩
  · cases h

/-- A new world has the messages as they are meant. -/
theorem World.boot_intact (settings : Settings) (handler : Handler) (sink : Sink) (watched : Bool) :
    (boot settings handler sink watched).classes.Intact := by
  have hperforms : ∀ inlining, ∀ e ∈ ([(Core.block, "value", .blockValue),
      (Core.block, "restart", .restart), (Core.true, "ifTrue:", .ifTrue),
      (Core.false, "ifTrue:", .ifTrue), (Core.true, "ifFalse:", .ifFalse),
      (Core.false, "ifFalse:", .ifFalse)] : List (ClassRef × Selector × Builtin)),
      (looped inlining).performs e.1 e.2.1 e.2.2 := by
    decide +kernel
  have h := fun e he => ClassTable.Performs.of_performs (hperforms settings.inlining e he)
  rw [boot_classes]
  simp only [List.forall_mem_cons] at h
  exact ⟨h.1, h.2.1, by simpa using ⟨h.2.2.1, h.2.2.2.1⟩, by
    simpa using ⟨h.2.2.2.2.1, h.2.2.2.2.2.1⟩⟩

end Parley
