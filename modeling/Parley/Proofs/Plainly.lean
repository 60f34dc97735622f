import Parley.Proofs.Plain
import Parley.Proofs.Mirrors

/-!
# Instructions in plain worlds

What an activation does next, messages and globals apart, does not depend on what there is only to
be fast: in a plain world it comes to the same job, and the worlds that it leaves are the same once
they are made plain. One lemma says so for each way in which an activation goes on.
-/

namespace Parley

variable {s : Stock} {w : World} {v : Value} {rest arguments : List Value}

/-- What depends on nothing but the plain world comes to the same in worlds that are the same when
    they are made plain. -/
theorem plainly_congr {w' : World} {f : World → Job × World}
    (hf : ∀ w, plainly (f w.plain) = plainly (f w)) (hw : w.plain = w'.plain) :
    plainly (f w) = plainly (f w') := by
  rw [← hf w, hw, hf w']

/-! ### Entering and leaving -/

/-- Calls a code in a plain world. -/
theorem World.enter_plain (w : World) (code : Code) (arguments : List Value)
    (context : Option FrameRef) :
    plainly (w.plain.enter code arguments context) = plainly (w.enter code arguments context) := by
  have hdepth : w.plain.thread.depth = w.thread.depth := rfl
  have hmax : w.plain.settings.maxDepth = w.settings.maxDepth := rfl
  rw [enter, enter, hdepth, hmax]
  split
  -- What is changed is the heap and the thread, whatever was counted there.
  · let f (w : World) : World := { w with
      heap := (w.heap.newFrame (w.thread.activations + 1) arguments code.program.locals.size
        context).2
      thread := { w.thread with
        depth := w.thread.depth + 1
        activations := w.thread.activations + 1 } }
    have hf : ∀ w, (f w).plain = f w.plain := fun _ => rfl
    refine Prod.ext rfl ?_
    show ((f w.plain).count _).plain = ((f w).count _).plain
    rw [plain_count, plain_count, hf, hf, plain_plain]
  · exact Prod.ext rfl w.plain_plain

namespace Activation

variable {a : Activation}

@[simp] theorem plain_countLoops (a : Activation) (w : World) :
    (a.countLoops w).plain = w.plain := by
  rw [countLoops]
  split
  · rfl
  · dsimp only
    split
    · rw [World.plain_note, World.plain_count]
    · rw [World.plain_count]

theorem leave_plain (a : Activation) (marker : Marker) (job : Job) (w : World) :
    plainly (a.leave marker job w.plain) = plainly (a.leave marker job w) := by
  let f (w : World) : World := { w with
    heap := w.heap.leave a.frame marker
    thread := { w.thread with depth := w.thread.depth - 1 } }
  have hf : ∀ w, (f w).plain = f w.plain := fun _ => rfl
  refine Prod.ext rfl ?_
  show (f (a.countLoops w.plain)).plain = (f (a.countLoops w)).plain
  rw [hf, hf, plain_countLoops, plain_countLoops, World.plain_plain]

theorem finish_plain (a : Activation) (v : Value) (w : World) :
    plainly (a.finish v w.plain) = plainly (a.finish v w) :=
  a.leave_plain _ _ w

theorem abandon_plain (a : Activation) (u : Unwind) (w : World) :
    plainly (a.abandon u w.plain) = plainly (a.abandon u w) := by
  cases u with
  | nonLocal activation v =>
    rw [abandon, abandon, World.plain_heap, Heap.current_frame]
    split
    · exact a.leave_plain _ _ w
    · exact a.leave_plain _ _ w
  | escaped block v => exact a.leave_plain _ _ w
  | restart => exact a.leave_plain _ _ w
  | failed f => exact a.leave_plain _ _ w

theorem failing_plain (a : Activation) (f : Fault) (w : World) :
    plainly (a.failing f w.plain) = plainly (a.failing f w) :=
  a.abandon_plain _ w

theorem goOn_plain (a : Activation) (ip : Nat) (stack : List Value) (w : World) :
    plainly (a.goOn ip stack w.plain) = plainly (a.goOn ip stack w) :=
  Prod.ext rfl w.plain_plain

/-! ### Single instructions -/

theorem pushVariable_plain (h : w.Sound s) (a : Activation) (p : Place) (slot level : UInt8)
    (next : Nat) : plainly (a.pushVariable p slot level next w.plain) =
      plainly (a.pushVariable p slot level next w) := by
  simp only [pushVariable, World.plain_heap, Heap.current_enclosing?, Heap.current_frame]
  split
  · exact a.failing_plain _ w
  cases p with
  | temporary =>
    dsimp only
    split
    · exact a.goOn_plain _ _ w
    · exact a.failing_plain _ w
  | argument =>
    dsimp only
    split
    · exact a.goOn_plain _ _ w
    · exact a.failing_plain _ w
  | field =>
    dsimp only
    split
    · rename_i o _
      rw [World.plain_classes, h.heap.readField_current h.stock h.classes o slot.toNat]
      cases hr : w.heap.readField w.classes o slot.toNat with
      | mk v heap =>
        let w' : World := { w with heap }
        cases v with
        | some v => exact a.goOn_plain _ _ w'
        | none =>
          show plainly (a.failing (Objects.noField _ o w'.plain) w'.plain) = _
          rw [Objects.noField_plain]
          exact a.failing_plain _ w'
    · exact a.failing_plain _ w

theorem popVariable_plain (h : w.Sound s) (a : Activation) (p : Place) (slot level : UInt8)
    (next : Nat) (v : Value) (rest : List Value) :
    plainly (a.popVariable p slot level next v rest w.plain) =
      plainly (a.popVariable p slot level next v rest w) := by
  have houter : w.plain.heap.enclosing? a.frame level.toNat =
      w.heap.enclosing? a.frame level.toNat := rfl
  rw [popVariable, popVariable, houter]
  split
  · exact a.failing_plain _ w
  rename_i f _
  cases p with
  | temporary =>
    dsimp only
    by_cases hslot : slot.toNat < (w.heap.frame f).locals.size
    · have hslot' : slot.toNat < (w.plain.heap.frame f).locals.size := hslot
      rw [if_pos hslot, if_pos hslot']
      exact a.goOn_plain _ _ { w with heap := w.heap.setLocal f slot.toNat v }
    · have hslot' : ¬ slot.toNat < (w.plain.heap.frame f).locals.size := hslot
      rw [if_neg hslot, if_neg hslot']
      exact a.failing_plain _ w
  | argument =>
    dsimp only
    by_cases hslot : slot.toNat < (w.heap.frame f).arguments.size
    · have hslot' : slot.toNat < (w.plain.heap.frame f).arguments.size := hslot
      rw [if_pos hslot, if_pos hslot']
      exact a.goOn_plain _ _ { w with heap := w.heap.setArgument f slot.toNat v }
    · have hslot' : ¬ slot.toNat < (w.plain.heap.frame f).arguments.size := hslot
      rw [if_neg hslot, if_neg hslot']
      exact a.failing_plain _ w
  | field =>
    dsimp only
    have hframe : w.plain.heap.frame f = w.heap.frame f := rfl
    rw [hframe]
    split
    · rename_i o _
      rw [World.plain_heap, World.plain_classes, h.heap.writeField_current h.stock h.classes o
        slot.toNat v]
      cases hr : w.heap.writeField w.classes o slot.toNat v with
      | mk done heap =>
        -- An instance that lacks the field has still been brought up to date.
        let w' : World := { w with heap }
        cases done with
        | true => exact a.goOn_plain _ _ w'
        | false =>
          show plainly (a.failing (Objects.noField _ o w'.plain) w'.plain) = _
          rw [Objects.noField_plain]
          exact a.failing_plain _ w'
    · exact a.failing_plain _ w

theorem pushClosure_plain (a : Activation) (withContext : Bool) (index : UInt8) (next : Nat)
    (w : World) : plainly (a.pushClosure withContext index next w.plain) =
      plainly (a.pushClosure withContext index next w) := by
  unfold pushClosure
  split
  · rename_i code _
    -- The same closure is made in both heaps, in the same place.
    let closure : Closure := ⟨code, if withContext then some a.frame else none⟩
    let f (w : World) : World := { w with heap := (w.heap.newClosure closure).2 }
    have hf : ∀ w, (f w).plain = f w.plain := fun _ => rfl
    refine Prod.ext rfl ?_
    show ((f w.plain).count _).plain = ((f w).count _).plain
    rw [World.plain_count, World.plain_count, hf, hf, World.plain_plain]
  · exact a.failing_plain _ w

theorem returnNonLocal_plain (a : Activation) (level : UInt8) (v : Value) (w : World) :
    plainly (a.returnNonLocal level v w.plain) = plainly (a.returnNonLocal level v w) := by
  have houter : w.plain.heap.enclosing? a.frame level.toNat =
      w.heap.enclosing? a.frame level.toNat := rfl
  have hframe : ∀ f, w.plain.heap.frame f = w.heap.frame f := fun _ => rfl
  rw [returnNonLocal, returnNonLocal, houter]
  split
  · exact a.failing_plain _ w
  dsimp only
  rw [hframe, hframe]
  split
  · exact plainly_congr (a.abandon_plain _) (by simp)
  split
  · exact plainly_congr (a.abandon_plain _) (by simp)
  · exact a.failing_plain _ w

theorem step_plain (a : Activation) (up : Bool) (v : Value) (rest : List Value) (next : Nat)
    (w : World) : plainly (a.step up v rest next w.plain) = plainly (a.step up v rest next w) := by
  unfold step
  split
  · exact plainly_congr (a.goOn_plain _ _) (by simp [Numbers.plain_notePromotion])
  · exact a.failing_plain _ w

theorem jump_plain (a : Activation) (j : Jump) (wide : Bool) (next : Nat) (w : World) :
    plainly (a.jump j wide next w.plain) = plainly (a.jump j wide next w) := by
  unfold jump
  cases j with
  | always => exact a.goOn_plain _ _ w
  | back => exact Prod.ext rfl w.plain_plain
  | test on leavesNil =>
    dsimp only
    split
    · split
      · exact a.goOn_plain _ _ w
      · exact a.goOn_plain _ _ w
    · exact a.failing_plain _ w
    · exact a.failing_plain _ w
  | greater =>
    dsimp only
    split
    · split
      · exact a.goOn_plain _ _ w
      · exact a.goOn_plain _ _ w
      · exact a.failing_plain _ w
    · exact a.failing_plain _ w

theorem withTop_plain (a : Activation) (w : World) {go : Value → List Value → World → Job × World}
    (hgo : ∀ v rest, plainly (go v rest w.plain) = plainly (go v rest w)) :
    plainly (a.withTop w.plain go) = plainly (a.withTop w go) := by
  unfold withTop
  split
  · exact hgo _ _
  · exact a.failing_plain _ w

end Activation

/-! ### Globals -/

/-- The cell that an instruction keeps is that of the name it reads. -/
theorem readGlobal_plain (h : w.Sound s) {code : Code} {ip : Nat} (hcode : .block code ∈ s.written)
    (hop : code.program.tape.opcode? ip = some .pushGlobal) (receiver : Value) :
    let literal := code.program.literal? (code.program.tape.byteAt (ip + 1))
    plainly (readGlobal (code.id, ip) literal receiver w.plain) =
      plainly (readGlobal (code.id, ip) literal receiver w) := by
  intro literal
  have hsends : code.sends? ip = none := by rw [Code.sends?, hop]
  have hreads : ∀ name, code.reads? ip = some name ↔ literal = some (.global name) := by
    intro name
    rw [Code.reads?, hop]
    dsimp only
    split
    · rename_i name' hl
      simp [literal, hl]
    · rename_i hl
      simp only [reduceCtorEq, false_iff]
      exact hl name
  clear_value literal
  -- The plain world has no sites, so that it looks for the cell of the name.
  have hempty : w.plain.sites[(code.id, ip)]? = none := Std.HashMap.getElem?_empty
  cases hsite : w.sites[(code.id, ip)]? with
  | none =>
    unfold readGlobal
    rw [hempty, hsite]
    dsimp only
    split
    · rename_i name
      let f (w : World) : World := { w with globals := (w.globals.cell name).2 }
      have hf : ∀ w, (f w).plain = f w.plain := fun _ => rfl
      refine Prod.ext ?_ ?_
      · show readCell _ receiver ((f w.plain).noteQuickened _ _) =
          readCell _ receiver ((f w).noteQuickened _ _)
        simp only [readCell, World.noteQuickened_globals]
        rfl
      show (World.specialize ((f w.plain).noteQuickened _ _) _ _).plain =
        (World.specialize ((f w).noteQuickened _ _) _ _).plain
      simp only [World.plain_specialize, World.plain_noteQuickened, hf, World.plain_plain]
    · exact Prod.ext rfl w.plain_plain
  | some site =>
    have hs := h.site hcode hsite
    cases site with
    | global cell =>
      obtain ⟨name, hread⟩ := Option.isSome_iff_exists.1 hs
      have hfind := h.cells (code.id, ip) cell hsite code name hcode rfl hread
      -- The cell that the instruction keeps is the one that the name has.
      have hcell : w.plain.globals.cell name = (cell, w.globals) := by
        rw [World.plain_globals, Globals.cell, hfind]
      have hl : literal = some (.global name) := (hreads name).1 hread
      rw [hl, readGlobal, readGlobal, hempty, hsite]
      dsimp only
      rw [hcell]
      refine Prod.ext ?_ ?_
      · show readCell _ receiver (World.noteQuickened w.plain _ _) = readCell _ receiver w
        simp only [readCell, World.noteQuickened_globals, World.plain_globals]
      show (World.specialize (World.noteQuickened w.plain _ _) _ _).plain = w.plain
      rw [World.plain_specialize, World.plain_noteQuickened, World.plain_plain]
    -- No instruction both reads a global and sends a message.
    | chain c => exact absurd (hsends.symm.trans hs.1) (by simp)
    | super target epoch =>
      obtain ⟨selector, holder, hs, -⟩ := hs
      exact absurd (hsends.symm.trans hs) (by simp)
    | eager op cls epoch arity =>
      obtain ⟨selector, hs, -⟩ := hs
      exact absurd (hsends.symm.trans hs) (by simp)

end Parley
