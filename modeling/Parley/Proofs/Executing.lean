import Parley.Proofs.Integers
import Parley.Proofs.Scenes
import Parley.Proofs.Sketches

/-!
# Executing in a scene

Where a job leads to in a scene, instruction by instruction: an activation of which code, frame and
stack are known goes on at the next instruction, with the stack and the frame that the instruction
leaves. What is made on the way, a frame or a closure, is one of which nothing was known before.
-/

namespace Parley

namespace Frame

/-- The variables of a frame at a place. -/
def slots (F : Frame) : Place → List Value
  | .temporary => F.locals.toList
  | .argument => F.arguments.toList
  | .field => []

/-- The frame with other values of its locals. -/
def withLocals (F : Frame) (l : List Value) : Frame :=
  { F with locals := l.toArray }

/-- The frame when its activation has ended. -/
def leave (F : Frame) (exit : Marker) : Frame :=
  { F with marker := if F.marker = .onStack then exit else F.marker }

end Frame

/-- An instruction that sends nothing. -/
theorem Code.Reads.simple {c : Code} {f : FrameRef} {ip b : Nat} {st : List Value} {op : Opcode}
    {operands : List UInt8} (h : c.Reads ip op operands) (hop : ∀ toSuper, op ≠ .send toSuper) :
    Job.Simple (.execute ⟨c, f, ip, st, b⟩) := by
  show Option.filter _ (c.sends? ip) = none
  rw [Code.sends?, h.opcode]
  cases op with
  | send toSuper => exact absurd rfl (hop toSuper)
  | _ => rfl

namespace Scene

open Machine

/-! ### What stays -/

section Holds

variable {σ : Scene} {w w' : World} {f g : FrameRef} {F G : Frame}

theorem Holds.congr (h : σ.Holds w) (hclasses : w'.classes = w.classes)
    (hglobals : w'.globals = w.globals) (hhandler : w'.handler = w.handler)
    (hsettings : w'.settings = w.settings) (hheap : w'.heap = w.heap)
    (hdepth : w'.thread.depth = w.thread.depth)
    (hactivations : w'.thread.activations = w.thread.activations) : σ.Holds w' := by
  constructor
  · rw [hclasses, h.classes]
  · rw [hglobals, h.globals]
  · rw [hhandler, h.handler]
  · rw [hsettings, h.limit]
  · rw [hdepth, h.depth]
  · rw [hheap]
    exact h.frames
  · rw [hheap]
    exact h.closures
  · rw [hheap]
    exact h.arrays
  · rw [hheap]
    exact h.instances
  · rw [hactivations]
    exact h.activations

theorem Holds.count (h : σ.Holds w) (f : Statistics → Statistics) : σ.Holds (w.count f) :=
  h.congr rfl rfl rfl rfl rfl rfl rfl

theorem Holds.note (h : σ.Holds w) (e : Event) : σ.Holds (w.note e) := by
  rw [World.note]
  split
  · exact h.congr rfl rfl rfl rfl rfl rfl rfl
  · exact h

theorem Holds.countLoops (h : σ.Holds w) (a : Activation) : σ.Holds (a.countLoops w) := by
  unfold Activation.countLoops
  split
  · exact h
  · dsimp only
    split
    · exact (h.count _).note _
    · exact h.count _

theorem Holds.notePromotion (h : σ.Holds w) (op : Arith) (a b : Value) :
    σ.Holds (Numbers.notePromotion op a b w) := by
  unfold Numbers.notePromotion
  split
  · split
    · split
      · exact h.note _
      · exact h
    · exact h
  · exact h

/-- The place of a new frame is one of which nothing was known. -/
theorem Holds.frames_size (h : σ.Holds w) : σ.frames w.heap.frames.size = none := by
  by_contra hne
  obtain ⟨F, hF⟩ := Option.ne_none_iff_exists'.1 hne
  exact absurd (h.frames _ F hF) (by simp)

theorem Holds.closures_size (h : σ.Holds w) : σ.closures w.heap.closures.size = none := by
  by_contra hne
  obtain ⟨c, hc⟩ := Option.ne_none_iff_exists'.1 hne
  exact absurd (h.closures _ c hc) (by simp)

theorem Holds.arrays_size (h : σ.Holds w) : σ.arrays w.heap.arrays.size = none := by
  by_contra hne
  obtain ⟨items, hi⟩ := Option.ne_none_iff_exists'.1 hne
  exact absurd (h.arrays _ items hi) (by simp)

/-- A frame that is known is changed. -/
theorem Holds.modify (h : σ.Holds w) (hG : σ.frames g = some G) (φ : Frame → Frame)
    (hφ : (φ G).activation = G.activation) :
    (σ.withFrame g (φ G)).Holds
      { w with heap := { w.heap with frames := w.heap.frames.modify g φ } } :=
  { h with
    frames := fun f F hf => by
      show (w.heap.frames.modify g φ)[f]? = some F
      rw [Array.getElem?_modify]
      by_cases hfg : g = f
      · subst hfg
        rw [withFrame_frames_self] at hf
        rw [if_pos rfl, h.frames g G hG, ← hf]
        rfl
      · rw [withFrame_frames_of_ne (Ne.symm hfg)] at hf
        rw [if_neg hfg, h.frames f F hf]
    activations := fun f F hf => by
      by_cases hfg : f = g
      · subst hfg
        rw [withFrame_frames_self] at hf
        rw [← Option.some.inj hf, hφ]
        exact h.activations f G hG
      · rw [withFrame_frames_of_ne hfg] at hf
        exact h.activations f F hf }

theorem Holds.newClosure (h : σ.Holds w) (c : Closure) :
    (σ.withClosure w.heap.closures.size c).Holds
      { w with heap := (w.heap.newClosure c).2 } :=
  { h with
    closures := fun b c' hb => by
      show (w.heap.closures.push c)[b]? = some c'
      rw [Array.getElem?_push]
      split
      · rename_i hsize
        rwa [hsize, withClosure_closures_self] at hb
      · rename_i hsize
        rw [withClosure_closures_of_ne hsize] at hb
        exact h.closures b c' hb }

theorem Holds.newArray (h : σ.Holds w) (items : List Value) :
    (σ.withArray w.heap.arrays.size items.toArray).Holds (w.newArray items).2 :=
  { h with
    arrays := fun a items' ha => by
      show (w.heap.arrays.push items.toArray)[a]? = some items'
      rw [Array.getElem?_push]
      split
      · rename_i hsize
        rwa [hsize, withArray_arrays_self] at ha
      · rename_i hsize
        rw [withArray_arrays_of_ne hsize] at ha
        exact h.arrays a items' ha }

theorem Holds.setElement (h : σ.Holds w) {a : ArrayRef} {items : Array Value}
    (ha : σ.arrays a = some items) (i : Nat) (v : Value) :
    (σ.withArray a (items.setIfInBounds i v)).Holds
      { w with heap := w.heap.setElement a i v } :=
  { h with
    arrays := fun a' items' ha' => by
      show (w.heap.arrays.modify a fun items => items.setIfInBounds i v)[a']? = some items'
      rw [Array.getElem?_modify]
      split
      · rename_i heq
        subst heq
        rw [withArray_arrays_self] at ha'
        rw [h.arrays a items ha, ← ha']
        rfl
      · rename_i hne
        rw [withArray_arrays_of_ne (Ne.symm hne)] at ha'
        exact h.arrays a' items' ha' }

/-- The frames around that of a block, which is made in a frame or needs none. -/
def around (σ : Scene) : Option FrameRef → Option (List FrameRef)
  | some g => (σ.frames g).map fun G => g :: G.outer
  | none => some []

theorem around_some {g : FrameRef} {G : Frame} (hG : σ.frames g = some G) :
    σ.around (some g) = some (g :: G.outer) := by
  rw [around, hG, Option.map_some]

theorem Holds.newFrame (h : σ.Holds w) {context : Option FrameRef} {outer : List FrameRef}
    (houter : σ.around context = some outer) (number : Nat) (arguments : List Value)
    (locals : Nat) :
    (w.heap.newFrame number arguments locals context).2 = { w.heap with
      frames := w.heap.frames.push
        ⟨number, arguments.toArray, Array.replicate locals .nil, outer, .onStack⟩ } := by
  cases context with
  | none =>
    cases houter
    rfl
  | some g =>
    obtain ⟨G, hG, rfl⟩ := Option.map_eq_some_iff.1 houter
    rw [Heap.newFrame]
    dsimp only
    rw [h.frame hG]

/-- The frame of a new activation, which has a number that no activation had before. -/
theorem Holds.enter (h : σ.Holds w) (hdepth : σ.depth < σ.limit) (code : Code)
    (arguments : List Value) {context : Option FrameRef} {outer : List FrameRef}
    (houter : σ.around context = some outer) :
    ∃ w', w.enter code arguments context =
        (.execute (.start code w.heap.frames.size), w') ∧
      (σ.deeper.withFrame w.heap.frames.size
        ⟨w.thread.activations + 1, arguments.toArray,
          Array.replicate code.program.locals.size .nil, outer, .onStack⟩).Holds w' := by
  have hroom : w.thread.depth < w.settings.maxDepth := by rwa [h.depth, h.limit]
  rw [World.enter, if_pos hroom]
  dsimp only
  rw [h.newFrame houter]
  refine ⟨_, rfl, Holds.count ?_ _⟩
  exact { h with
    depth := congrArg (· + 1) h.depth
    frames := fun f F hf => by
      show (w.heap.frames.push _)[f]? = some F
      rw [Array.getElem?_push]
      split
      · rename_i hsize
        rwa [hsize, withFrame_frames_self] at hf
      · rename_i hsize
        rw [withFrame_frames_of_ne hsize] at hf
        exact h.frames f F hf
    activations := fun f F hf => by
      show F.activation ≤ w.thread.activations + 1
      by_cases hsize : f = w.heap.frames.size
      · rw [hsize, withFrame_frames_self] at hf
        rw [← Option.some.inj hf]
      · rw [withFrame_frames_of_ne hsize] at hf
        exact Nat.le_succ_of_le (h.activations f F hf) }

/-- An activation has ended, and its frame is of no more use than to tell how. -/
theorem Holds.leave {τ : Scene} {a : Activation} (h : (τ.withFrame a.frame F).Holds w)
    (hle : σ.deeper.Le τ) (exit : Marker) (job : Job) :
    (σ.withFrame a.frame (F.leave exit)).Holds (a.leave exit job w).2 := by
  have hleft := (h.countLoops a).modify (withFrame_frames_self τ a.frame F) (Frame.leave · exit) rfl
  rw [withFrame_withFrame] at hleft
  have hless := hleft.mono (hle.withFrame a.frame (F.leave exit))
  exact { hless with
    depth := by
      show (a.countLoops w).thread.depth - 1 = σ.depth
      rw [hless.depth]
      rfl }

end Holds

/-! ### Instructions -/

section Instructions

variable {σ σ' σ₁ τ : Scene} {c : Code} {f g : FrameRef} {F G : Frame} {ip n b : Nat}
  {st : List Value} {j' : Job} {v u : Value} {slot level : UInt8}

theorem Leads.instruction {op : Opcode} {operands : List UInt8} (h : c.Reads ip op operands)
    (hop : ∀ toSuper, op ≠ .send toSuper)
    (hnext : ∀ w k, σ.Holds w → w.sites = ∅ → ∃ w' σ₁ j₁,
      Machine.instruction ⟨c, f, ip, st, b⟩ op w k = ⟨w', j₁, k⟩ ∧ σ₁.Holds w' ∧
        Leads n σ₁ j₁ σ' j') :
    Leads (n + 1) σ (.execute ⟨c, f, ip, st, b⟩) σ' j' :=
  .next (h.simple hop) fun w k hw hsites => by
    rw [step_execute (a := ⟨c, f, ip, st, b⟩) h.opcode]
    exact hnext w k hw hsites

/-- An instruction that goes on, and leaves the world as it is. -/
theorem Leads.going {op : Opcode} {operands : List UInt8} (h : c.Reads ip op operands)
    (hop : ∀ toSuper, op ≠ .send toSuper) {a : Activation}
    (heq : ∀ w k, σ.Holds w → Machine.instruction ⟨c, f, ip, st, b⟩ op w k = ⟨w, .execute a, k⟩)
    (hnext : Leads n σ (.execute a) σ' j') :
    Leads (n + 1) σ (.execute ⟨c, f, ip, st, b⟩) σ' j' :=
  .instruction h hop fun w k hw _ => ⟨w, σ, _, heq w k hw, hw, hnext⟩

theorem Leads.dup (h : c.Reads ip .dup [])
    (hnext : Leads n σ (.execute ⟨c, f, ip + 1, v :: v :: st, b⟩) σ' j') :
    Leads (n + 1) σ (.execute ⟨c, f, ip, v :: st, b⟩) σ' j' :=
  .going h nofun (fun _ _ _ => rfl) hnext

theorem Leads.dupSecond (h : c.Reads ip .dupSecond [])
    (hnext : Leads n σ (.execute ⟨c, f, ip + 1, u :: v :: u :: st, b⟩) σ' j') :
    Leads (n + 1) σ (.execute ⟨c, f, ip, v :: u :: st, b⟩) σ' j' :=
  .going h nofun (fun _ _ _ => rfl) hnext

theorem Leads.pushNil (h : c.Reads ip .pushNil [])
    (hnext : Leads n σ (.execute ⟨c, f, ip + 1, .nil :: st, b⟩) σ' j') :
    Leads (n + 1) σ (.execute ⟨c, f, ip, st, b⟩) σ' j' :=
  .going h nofun (fun _ _ _ => rfl) hnext

theorem Leads.pushZero (h : c.Reads ip .pushZero [])
    (hnext : Leads n σ (.execute ⟨c, f, ip + 1, Number.reduce 0 :: st, b⟩) σ' j') :
    Leads (n + 1) σ (.execute ⟨c, f, ip, st, b⟩) σ' j' :=
  .going h nofun (fun _ _ _ => rfl) hnext

theorem Leads.pushOne (h : c.Reads ip .pushOne [])
    (hnext : Leads n σ (.execute ⟨c, f, ip + 1, Number.reduce 1 :: st, b⟩) σ' j') :
    Leads (n + 1) σ (.execute ⟨c, f, ip, st, b⟩) σ' j' :=
  .going h nofun (fun _ _ _ => rfl) hnext

theorem Leads.drop (h : c.Reads ip .drop [])
    (hnext : Leads n σ (.execute ⟨c, f, ip + 1, st, b⟩) σ' j') :
    Leads (n + 1) σ (.execute ⟨c, f, ip, v :: st, b⟩) σ' j' :=
  .going h nofun (fun _ _ _ => rfl) hnext

theorem Leads.pushConstant {i : UInt8} (h : c.Reads ip .pushConstant [i])
    (hv : c.program.literals[i.toNat]? = some (.value v))
    (hnext : Leads n σ (.execute ⟨c, f, ip + 2, v :: st, b⟩) σ' j') :
    Leads (n + 1) σ (.execute ⟨c, f, ip, st, b⟩) σ' j' :=
  .going h nofun (fun w k _ => by
    simp only [Machine.instruction, Program.literal?, h.first, hv]
    rfl) hnext

theorem Leads.pushSelf (h : c.Reads ip .pushSelf []) (hF : σ.frames f = some F)
    (hnext : Leads n σ (.execute ⟨c, f, ip + 1, F.receiver :: st, b⟩) σ' j') :
    Leads (n + 1) σ (.execute ⟨c, f, ip, st, b⟩) σ' j' :=
  .going h nofun (fun w k hw => by
    simp only [Machine.instruction, hw.frame hF]
    rfl) hnext

theorem Leads.push {p : Place} (h : c.Reads ip (.push p) [slot, level])
    (hF : σ.frames f = some F) (hg : (f :: F.outer)[level.toNat]? = some g)
    (hG : σ.frames g = some G) (hv : (G.slots p)[slot.toNat]? = some v)
    (hnext : Leads n σ (.execute ⟨c, f, ip + 3, v :: st, b⟩) σ' j') :
    Leads (n + 1) σ (.execute ⟨c, f, ip, st, b⟩) σ' j' :=
  .going h nofun (fun w k hw => by
    have hg' : w.heap.enclosing? f level.toNat = some g := by
      rw [Heap.enclosing?, hw.frame hF, hg]
    simp only [Machine.instruction, Activation.pushVariable, h.first, h.second, hg', hw.frame hG]
    cases p with
    | temporary =>
      rw [show G.locals[slot.toNat]? = some v by rw [← Array.getElem?_toList]; exact hv]
      rfl
    | argument =>
      rw [show G.arguments[slot.toNat]? = some v by rw [← Array.getElem?_toList]; exact hv]
      rfl
    | field => cases hv) hnext

/-- A variable of the activation itself. -/
theorem Leads.pushOwn {p : Place} (h : c.Reads ip (.push p) [slot, 0])
    (hv : (F.slots p)[slot.toNat]? = some v)
    (hnext : Leads n (τ.withFrame f F) (.execute ⟨c, f, ip + 3, v :: st, b⟩) σ' j') :
    Leads (n + 1) (τ.withFrame f F) (.execute ⟨c, f, ip, st, b⟩) σ' j' :=
  .push h (withFrame_frames_self ..) rfl (withFrame_frames_self ..) hv hnext

/-- A variable of a frame around that of the activation. -/
theorem Leads.pushOuter {p : Place} (h : c.Reads ip (.push p) [slot, level])
    (hf : τ.frames f = none) (hg : (f :: F.outer)[level.toNat]? = some g)
    (hG : τ.frames g = some G) (hv : (G.slots p)[slot.toNat]? = some v)
    (hnext : Leads n (τ.withFrame f F) (.execute ⟨c, f, ip + 3, v :: st, b⟩) σ' j') :
    Leads (n + 1) (τ.withFrame f F) (.execute ⟨c, f, ip, st, b⟩) σ' j' :=
  .push h (withFrame_frames_self ..) hg (withFrame_frames hG hf) hv hnext

theorem Leads.pop {l : List Value} (h : c.Reads ip (.pop .temporary) [slot, level])
    (hF : σ.frames f = some F) (hg : (f :: F.outer)[level.toNat]? = some g)
    (hG : σ.frames g = some G) (hslot : slot.toNat < G.locals.toList.length)
    (hl : G.locals.toList.set slot.toNat v = l)
    (hnext : Leads n (σ.withFrame g (G.withLocals l)) (.execute ⟨c, f, ip + 3, st, b⟩) σ' j') :
    Leads (n + 1) σ (.execute ⟨c, f, ip, v :: st, b⟩) σ' j' := by
  subst hl
  refine .instruction h nofun fun w k hw _ => ?_
  have hg' : w.heap.enclosing? f level.toNat = some g := by
    rw [Heap.enclosing?, hw.frame hF, hg]
  have hsize : slot.toNat < G.locals.size := hslot
  rw [← Array.toList_setIfInBounds, Frame.withLocals, Array.toArray_toList] at hnext
  refine ⟨_, _, _, ?_, hw.modify hG
    (fun F => { F with locals := F.locals.setIfInBounds slot.toNat v }) rfl, hnext⟩
  simp only [Machine.instruction, Activation.withTop, Activation.popVariable, h.first, h.second,
    hg', hw.frame hG, if_pos hsize]
  rfl

/-- A local of the activation itself. -/
theorem Leads.popOwn {l : List Value} (h : c.Reads ip (.pop .temporary) [slot, 0])
    (hslot : slot.toNat < F.locals.toList.length) (hl : F.locals.toList.set slot.toNat v = l)
    (hnext : Leads n (τ.withFrame f (F.withLocals l)) (.execute ⟨c, f, ip + 3, st, b⟩) σ' j') :
    Leads (n + 1) (τ.withFrame f F) (.execute ⟨c, f, ip, v :: st, b⟩) σ' j' :=
  .pop h (withFrame_frames_self ..) rfl (withFrame_frames_self ..) hslot hl (by
    rwa [withFrame_withFrame])

/-- A local of a frame around that of the activation. -/
theorem Leads.popOuter {l : List Value} (h : c.Reads ip (.pop .temporary) [slot, level])
    (hf : τ.frames f = none) (hg : (f :: F.outer)[level.toNat]? = some g)
    (hG : τ.frames g = some G) (hslot : slot.toNat < G.locals.toList.length)
    (hl : G.locals.toList.set slot.toNat v = l)
    (hnext : Leads n ((τ.withFrame g (G.withLocals l)).withFrame f F)
      (.execute ⟨c, f, ip + 3, st, b⟩) σ' j') :
    Leads (n + 1) (τ.withFrame f F) (.execute ⟨c, f, ip, v :: st, b⟩) σ' j' :=
  .pop h (withFrame_frames_self ..) hg (withFrame_frames hG hf) hslot hl (by
    rwa [withFrame_comm (ne_of_frames hG hf).symm])

theorem Holds.pushBlock {w : World} {code : Code} {withContext : Bool} {i : UInt8}
    (hw : (τ.withFrame f F).Holds w) (h : c.Reads ip (.pushBlock withContext) [i])
    (hcode : c.program.literals[i.toNat]? = some (.block code)) (k : List Pending) :
    ∃ w' r, τ.closures r = none ∧
      Machine.step ⟨w, .execute ⟨c, f, ip, st, b⟩, k⟩ =
        ⟨w', .execute ⟨c, f, ip + 2, .block r :: st, b⟩, k⟩ ∧
      ((τ.withClosure r ⟨code, if withContext then some f else none⟩).withFrame f F).Holds w' := by
  have hw' := hw.newClosure ⟨code, if withContext then some f else none⟩
  refine ⟨_, _, hw.closures_size, ?_, hw'.count fun s => { s with closures := s.closures + 1 }⟩
  rw [step_execute (a := ⟨c, f, ip, st, b⟩) h.opcode]
  simp only [Machine.instruction, Activation.pushClosure, Program.literal?, h.first, hcode]
  rfl

/-- A new closure: one of which nothing was known. -/
theorem Leads.pushBlock {code : Code} {withContext : Bool} {i : UInt8}
    (h : c.Reads ip (.pushBlock withContext) [i])
    (hcode : c.program.literals[i.toNat]? = some (.block code))
    (hnext : ∀ r, τ.closures r = none →
      Leads n ((τ.withClosure r ⟨code, if withContext then some f else none⟩).withFrame f F)
        (.execute ⟨c, f, ip + 2, .block r :: st, b⟩) σ' j') :
    Leads (n + 1) (τ.withFrame f F) (.execute ⟨c, f, ip, st, b⟩) σ' j' :=
  .next (h.simple nofun) fun _ k hw _ => by
    obtain ⟨w', r, hr, hstep, hw'⟩ := hw.pushBlock h hcode k
    exact ⟨w', _, _, hstep, hw', hnext r hr⟩

theorem Leads.inc {i : Int} (h : c.Reads ip (.step true) [])
    (hnext : Leads n σ (.execute ⟨c, f, ip + 1, Number.reduce (i + 1) :: st, b⟩) σ' j') :
    Leads (n + 1) σ (.execute ⟨c, f, ip, Number.reduce i :: st, b⟩) σ' j' :=
  .instruction h nofun fun w k hw _ => by
    refine ⟨_, σ, _, ?_, hw.notePromotion .add (Number.reduce i) (.int 1), hnext⟩
    simp only [Machine.instruction, Activation.withTop, Activation.step, Number.step_reduce]
    rfl

/-! ### Jumps -/

variable {d : UInt8}

theorem Leads.jump (h : c.Reads ip (.jump .always false) [d])
    (hnext : Leads n σ (.execute ⟨c, f, ip + d.toNat, st, b⟩) σ' j') :
    Leads (n + 1) σ (.execute ⟨c, f, ip, st, b⟩) σ' j' :=
  .going h nofun (fun w k _ => by
    simp only [Machine.instruction, Activation.jump, Tape.distance, h.first]
    rfl) hnext

theorem Leads.jumpBack (h : c.Reads ip (.jump .back false) [d])
    (hnext : Leads n σ (.execute ⟨c, f, ip - d.toNat, st, b + 1⟩) σ' j') :
    Leads (n + 1) σ (.execute ⟨c, f, ip, st, b⟩) σ' j' :=
  .going h nofun (fun w k _ => by
    simp only [Machine.instruction, Activation.jump, Tape.distance, h.first]
    rfl) hnext

/-- A jump that depends on a Boolean, taken. -/
theorem Leads.jumpOn {on leavesNil : Bool} (h : c.Reads ip (.jump (.test on leavesNil) false) [d])
    (hnext : Leads n σ
      (.execute ⟨c, f, ip + d.toNat, if leavesNil then .nil :: st else st, b⟩) σ' j') :
    Leads (n + 1) σ (.execute ⟨c, f, ip, .bool on :: st, b⟩) σ' j' :=
  .going h nofun (fun w k _ => by
    simp only [Machine.instruction, Activation.jump, Tape.distance, h.first]
    rfl) hnext

/-- A jump that depends on a Boolean, not taken. -/
theorem Leads.jumpPast {on leavesNil t : Bool}
    (h : c.Reads ip (.jump (.test on leavesNil) false) [d]) (ht : t = !on)
    (hnext : Leads n σ (.execute ⟨c, f, ip + 3, st, b⟩) σ' j') :
    Leads (n + 1) σ (.execute ⟨c, f, ip, .bool t :: st, b⟩) σ' j' := by
  subst ht
  exact .going h nofun (fun w k _ => by
    simp only [Machine.instruction, Activation.jump, Bool.not_eq_eq_eq_not, Bool.eq_not_self]
    rfl) hnext

/-- A loop over numbers ends when the next one is greater than the limit. -/
theorem Leads.jumpGreater {i limit : Int} (h : c.Reads ip (.jump .greater false) [d])
    (hi : limit < i) (hnext : Leads n σ (.execute ⟨c, f, ip + d.toNat, st, b⟩) σ' j') :
    Leads (n + 1) σ
      (.execute ⟨c, f, ip, Number.reduce i :: Number.reduce limit :: st, b⟩) σ' j' :=
  .going h nofun (fun w k _ => by
    simp only [Machine.instruction, Activation.jump, Tape.distance, h.first,
      Number.compare?_reduce, Number.holds_gt, decide_eq_true hi]
    rfl) hnext

/-- And goes on with one that is not. -/
theorem Leads.jumpNotGreater {i limit : Int} (h : c.Reads ip (.jump .greater false) [d])
    (hi : i ≤ limit) (hnext : Leads n σ
      (.execute ⟨c, f, ip + 3, Number.reduce i :: Number.reduce limit :: st, b⟩) σ' j') :
    Leads (n + 1) σ
      (.execute ⟨c, f, ip, Number.reduce i :: Number.reduce limit :: st, b⟩) σ' j' :=
  .going h nofun (fun w k _ => by
    simp only [Machine.instruction, Activation.jump, Number.compare?_reduce, Number.holds_gt,
      decide_eq_false (not_lt.2 hi)]
    rfl) hnext

/-! ### Ends of activations -/

variable {exit : Marker}

theorem Leads.finish {op : Opcode} {operands : List UInt8} (h : c.Reads ip op operands)
    (hop : ∀ toSuper, op ≠ .send toSuper) {job : Job}
    (heq : ∀ w k, (τ.withFrame f F).Holds w → ∃ w', (τ.withFrame f F).Holds w' ∧
      Machine.instruction ⟨c, f, ip, st, b⟩ op w k =
        after k (Activation.leave ⟨c, f, ip, st, b⟩ exit job w'))
    (hle : σ.deeper.Le τ) :
    Leads 1 (τ.withFrame f F) (.execute ⟨c, f, ip, st, b⟩) (σ.withFrame f (F.leave exit)) job :=
  .instruction h hop fun w k hw _ => by
    obtain ⟨w', hw', hstep⟩ := heq w k hw
    exact ⟨_, _, _, hstep, Holds.leave (a := ⟨c, f, ip, st, b⟩) hw' hle exit job, .refl _ _⟩

theorem Leads.returnLocal (h : c.Reads ip .returnLocal []) (hle : σ.deeper.Le τ) :
    Leads 1 (τ.withFrame f F) (.execute ⟨c, f, ip, v :: st, b⟩)
      (σ.withFrame f (F.leave .returnedNormally)) (.answer v) :=
  .finish h nofun (fun w _ hw => ⟨w, hw, rfl⟩) hle

theorem Leads.returnSelf (h : c.Reads ip .returnSelf []) (hle : σ.deeper.Le τ) :
    Leads 1 (τ.withFrame f F) (.execute ⟨c, f, ip, st, b⟩)
      (σ.withFrame f (F.leave .returnedNormally)) (.answer F.receiver) :=
  .finish h nofun (fun w _ hw => ⟨w, hw, by
    simp only [Machine.instruction, hw.frame (withFrame_frames_self ..)]
    rfl⟩) hle

/-- A return to an activation that is not interested in how the frame ended. -/
theorem Leads.answer (h : c.Reads ip .returnLocal []) (hle : σ.deeper.Le τ)
    (hf : σ.frames f = none) :
    Leads (n + 1) (τ.withFrame f F) (.execute ⟨c, f, ip, v :: st, b⟩) σ (.answer v) :=
  ((Leads.returnLocal h hle).weaken (le_withFrame hf)).mono (Nat.le_add_left 1 n)

/-- A return from the method around a block, whose activation is in progress. -/
theorem Leads.returnNonLocal (h : c.Reads ip .returnNonLocal [level]) (hle : σ.deeper.Le τ)
    (hf : τ.frames f = none) (hg : (f :: F.outer)[level.toNat]? = some g)
    (hG : τ.frames g = some G) (hmarker : G.marker = .onStack)
    (hne : G.activation ≠ F.activation) :
    Leads 1 (τ.withFrame f F) (.execute ⟨c, f, ip, v :: st, b⟩)
      (σ.withFrame f (F.leave .unwound)) (.unwind (.nonLocal G.activation v)) :=
  .finish h nofun (fun w k hw => by
    have hF : w.heap.frame f = F := hw.frame (withFrame_frames_self ..)
    have hG' : w.heap.frame g = G := hw.frame (withFrame_frames hG hf)
    have hg' : w.heap.enclosing? f level.toNat = some g := by
      rw [Heap.enclosing?, hF, hg]
    refine ⟨_, hw.count fun s => { s with nonLocalReturns := s.nonLocalReturns + 1 }, ?_⟩
    have hF' : (w.count fun s =>
        { s with nonLocalReturns := s.nonLocalReturns + 1 }).heap.frame f = F := hF
    simp only [Machine.instruction, Activation.withTop, Activation.returnNonLocal, h.first, hg',
      hG', hmarker, if_true, Activation.abandon, hF', if_neg hne]) hle

/-- A return from the method around a block that has escaped from it. -/
theorem Leads.escape {r : BlockRef} (h : c.Reads ip .returnNonLocal [level])
    (hle : σ.deeper.Le τ) (hf : τ.frames f = none) (hr : F.receiver = .block r)
    (hg : (f :: F.outer)[level.toNat]? = some g) (hG : τ.frames g = some G)
    (hmarker : G.marker ≠ .onStack) :
    Leads 1 (τ.withFrame f F) (.execute ⟨c, f, ip, v :: st, b⟩)
      (σ.withFrame f (F.leave .aborted)) (.unwind (.escaped r v)) :=
  .finish h nofun (fun w k hw => by
    have hF : w.heap.frame f = F := hw.frame (withFrame_frames_self ..)
    have hG' : w.heap.frame g = G := hw.frame (withFrame_frames hG hf)
    have hg' : w.heap.enclosing? f level.toNat = some g := by
      rw [Heap.enclosing?, hF, hg]
    refine ⟨?after, ?holds, ?step⟩
    case step =>
      simp only [Machine.instruction, Activation.withTop, Activation.returnNonLocal, h.first, hg',
        hG', hmarker, if_false, hF, hr, Activation.abandon]
      rfl
    case holds => exact hw.note _) hle

end Instructions

end Scene

end Parley
