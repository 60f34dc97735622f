import Mathlib.Logic.Function.Basic
import Parley.Proofs.Moves

/-!
# Frames and the codes executed in them

A machine does not keep what code is executed in a frame, but a frame is for one code only: this
module says of a heap that it fits such a record of codes (`Heap.Seated`). A frame has the arguments
and locals of its code, and around it are the frames of the codes that its code is written in. A
closure refers to the frame of the code that its block is written in, or to none if it needs none.

So whatever an instruction addresses is there (`Heap.Seated.finds`), since it fits in where it is
written. All that an activation does to the stage keeps the heap so (`Heap.Seated.updates`,
`Heap.Seated.leave`, `Heap.Seated.newFrame`).
-/

namespace Parley

variable {ran ran' : FrameRef → Code} {h h' : Heap} {f g : FrameRef} {b : BlockRef}
  {c : Code}

/-! ### Codes inside one another -/

theorem Code.Within.snoc {b c d : Code} {k : Nat} (h : c.Within k b) (hd : d ∈ b.blocks) :
    c.Within (k + 1) d := by
  induction h with
  | self => exact .inside hd (.self d)
  | inside hb _ ih => exact .inside hb (ih hd)

/-- The outlines of frames, by the codes that are executed in them. -/
def outlines (ran : FrameRef → Code) (frames : List FrameRef) : List Outline :=
  frames.map fun f => (ran f).program.outline

theorem outlines_congr {frames : List FrameRef} (h : ∀ g ∈ frames, ran' g = ran g) :
    outlines ran' frames = outlines ran frames :=
  List.map_congr_left fun g hg => by rw [h g hg]

/-- A code that may be executed in a frame with these frames around it. -/
inductive Code.Fits (ran : FrameRef → Code) (c : Code) : List FrameRef → Prop
  | method : c.Lexical [] → Fits ran c []
  | block {g : FrameRef} {rest : List FrameRef} : c ∈ (ran g).blocks →
      c.Lexical (outlines ran (g :: rest)) → Fits ran c (g :: rest)
  /-- A block that needs no frames around it. -/
  | alone {env : List Outline} :
      env ≠ [] → c.Lexical env → c.program.needsContext = false → Fits ran c []
  /-- The empty code, which stands for a closure that is not there. -/
  | nothing : c = default → Fits ran c []

theorem Code.Fits.congr {frames : List FrameRef} (hc : c.Fits ran frames)
    (h : ∀ g ∈ frames, ran' g = ran g) : c.Fits ran' frames := by
  cases hc with
  | method hl => exact .method hl
  | @block g rest hb hl =>
    refine .block (h g List.mem_cons_self ▸ hb) ?_
    rwa [outlines_congr h]
  | alone hne hl hneeds => exact .alone hne hl hneeds
  | nothing hd => exact .nothing hd

/-- A code that fits in is empty or has passed the check. -/
theorem Code.Fits.check {frames : List FrameRef} (hc : c.Fits ran frames) :
    c = default ∨ ∃ r, c.program.tape.check c.program.literals c.program.arguments.size
      c.program.locals.size = .ok r := by
  cases hc with
  | method hl | block _ hl | alone _ hl _ => exact .inr hl.check
  | nothing hd => exact .inl hd

section Instructions

variable {frames : List FrameRef} (hc : c.Fits ran frames) {ip : Nat}
  (hip : ip ∈ c.program.tape.starts)

include hc hip

/-- A code that has instructions is written in the codes of the frames around, or it is a block
    that needs none. -/
theorem Code.Fits.lexical : c.Lexical (outlines ran frames) ∨
    frames = [] ∧ ∃ env, env ≠ [] ∧ c.Lexical env ∧ c.program.needsContext = false := by
  cases hc with
  | method hl | block _ hl => exact .inl hl
  | alone hne hl hneeds => exact .inr ⟨rfl, _, hne, hl, hneeds⟩
  | nothing hd =>
    have hlt := Tape.lt_of_mem_startsFrom hip
    rw [hd] at hlt
    exact absurd hlt (Nat.not_lt_zero _)

/-- An instruction of a code that fits in suits the frames around it. -/
theorem Code.Fits.addresses {op : Opcode} {first second : UInt8}
    (hr : c.program.tape.Reads ip op first second) :
    op.Addresses (c.program.outline :: outlines ran frames) first second := by
  have hsuits : ∀ {env}, c.Lexical env → op.Addresses (c.program.outline :: env) first second := by
    intro env hl
    obtain ⟨D, hD⟩ := hl.labelled
    exact (hD.suits ip hip op first second hr).addresses
  rcases hc.lexical hip with hl | ⟨-, env, hne, hl, hneeds⟩
  · exact hsuits hl
  · obtain ⟨-, hleave, -⟩ := Program.needsContext_eq_false_iff.1 hneeds ip hip op hr.opcode
    exact (hsuits hl).anywhere hne (Program.needsContext_level hneeds hip hr) hleave _

/-- A closure of a block that is pushed fits into the frames around it. -/
theorem Code.Fits.pushed {b : Code} {withContext : Bool} {first second : UInt8}
    (hr : c.program.tape.Reads ip (.pushBlock withContext) first second)
    (hl : c.program.literals[first.toNat]? = some (.block b)) {f : FrameRef} (hf : ran f = c) :
    b.program.needsContext = withContext ∧
      b.Fits ran (if withContext then f :: frames else []) := by
  have hmem : b ∈ c.blocks := Code.mem_blocks.2 (Array.mem_of_getElem? hl)
  rcases hc.lexical hip with hlexical | ⟨-, env, -, hlexical, hlocal⟩
  · obtain ⟨hneeds, hb⟩ := hlexical.encloses ip hip withContext first second b hr hl
    refine ⟨hneeds, ?_⟩
    cases withContext with
    | false => exact .alone (by simp) hb hneeds
    | true =>
      refine .block (hf ▸ hmem) ?_
      simpa only [outlines, List.map_cons, hf] using hb
  · obtain ⟨hneeds, hb⟩ := hlexical.encloses ip hip withContext first second b hr hl
    refine ⟨hneeds, ?_⟩
    cases withContext with
    | false => exact .alone (by simp) hb hneeds
    | true =>
      -- A block without a context pushes none that needs one.
      obtain ⟨-, -, hpush⟩ := Program.needsContext_eq_false_iff.1 hlocal ip hip _ hr.opcode
      exact absurd rfl hpush

end Instructions

/-! ### Heaps -/

/-- The frames that a context stands for, nearest first. -/
def Heap.around (h : Heap) : Option FrameRef → List FrameRef
  | some g => g :: (h.frame g).outer
  | none => []

/-- A frame for the code that is executed in it. -/
structure Frame.Seated (h : Heap) (ran : FrameRef → Code) (f : FrameRef) : Prop where
  fits : (ran f).Fits ran (h.frame f).outer
  arguments : (ran f).program.arguments.size ≤ (h.frame f).arguments.size
  locals : (ran f).program.locals.size ≤ (h.frame f).locals.size
  /-- The frames around were there before, and are around one another. -/
  before : ∀ g ∈ (h.frame f).outer, g < f
  outer : ∀ g rest, (h.frame f).outer = g :: rest → (h.frame g).outer = rest
  /-- The receiver of a block is the closure that is evaluated. -/
  evaluates : (ran f).isBlock →
    ∃ b, (h.frame f).receiver = .block b ∧ (h.closure b).code = ran f

/-- A closure of a block that fits in where it was made. -/
structure Closure.Seated (h : Heap) (ran : FrameRef → Code) (c : Closure) : Prop where
  fits : c.code.Fits ran (h.around c.context)
  context : ∀ g, c.context = some g → g < h.frames.size
  /-- One without a context needs none. -/
  alone : c.context = none → c.code.program.needsContext = false

/-- A heap in which frames and closures fit the codes that are executed. -/
structure Heap.Seated (h : Heap) (ran : FrameRef → Code) : Prop where
  frames : ∀ f < h.frames.size, Frame.Seated h ran f
  closures : ∀ b < h.closures.size, Closure.Seated h ran (h.closure b)

namespace Heap

theorem enclosing?_zero (h : Heap) (f : FrameRef) : h.enclosing? f 0 = some f :=
  rfl

/-- The frames around a frame are seated as well. -/
theorem Seated.around_lt (hs : h.Seated ran) (hf : f < h.frames.size) {g : FrameRef}
    (hg : g ∈ f :: (h.frame f).outer) : g < h.frames.size := by
  rcases List.mem_cons.1 hg with rfl | hg
  · exact hf
  · exact ((hs.frames f hf).before g hg).trans hf

/-- So many levels out is the frame of the code that is so many levels around. -/
theorem Seated.within (hs : h.Seated ran) (hf : f < h.frames.size) {n : Nat}
    (hg : h.enclosing? f n = some g) : (ran g).Within n (ran f) := by
  induction n generalizing f with
  | zero =>
    obtain rfl : f = g := Option.some.inj hg
    exact .self _
  | succ n ih =>
    rw [enclosing?, List.getElem?_cons_succ] at hg
    have hseated := hs.frames f hf
    cases houter : (h.frame f).outer with
    | nil => simp [houter] at hg
    | cons g₁ rest =>
      have hg₁ : h.enclosing? g₁ n = some g := by
        rw [enclosing?, hseated.outer g₁ rest houter, ← houter, hg]
      have hlt := hs.around_lt hf (g := g₁) (by simp [houter])
      -- The code of the frame is written in that of the next one.
      have hfits := hseated.fits
      rw [houter] at hfits
      cases hfits with
      | block hb _ => exact (ih hlt hg₁).snoc hb

theorem home_eq (h : Heap) (f : FrameRef) :
    h.enclosing? f (h.frame f).outer.length = some (h.home f) := by
  rw [enclosing?, home, List.getLastD_eq_getLast?]
  cases houter : (h.frame f).outer with
  | nil => rfl
  | cons g rest =>
    rw [List.length_cons, List.getElem?_cons_succ, List.getLast?_eq_getElem?]
    rw [List.length_cons, Nat.add_sub_cancel]
    cases hlast : (g :: rest)[rest.length]? with
    | some last => rfl
    | none => simp at hlast

/-- An outline among those around a frame is that of a frame as many levels out. -/
theorem Seated.level (hs : h.Seated ran) (hf : f < h.frames.size) {n : Nat} {o : Outline}
    (ho : ((ran f).program.outline :: outlines ran (h.frame f).outer)[n]? = some o) :
    ∃ g, h.enclosing? f n = some g ∧ (ran g).Within n (ran f) ∧ o = (ran g).program.outline ∧
      (ran g).program.locals.size ≤ (h.frame g).locals.size ∧
        (ran g).program.arguments.size ≤ (h.frame g).arguments.size := by
  rw [show (ran f).program.outline :: outlines ran (h.frame f).outer =
    outlines ran (f :: (h.frame f).outer) from rfl, outlines, List.getElem?_map,
    Option.map_eq_some_iff] at ho
  obtain ⟨g, hg, rfl⟩ := ho
  have hseated := hs.frames g (hs.around_lt hf (List.mem_of_getElem? hg))
  exact ⟨g, hg, hs.within hf hg, rfl, hseated.locals, hseated.arguments⟩

/-- A block that has frames around it finds its home, which is not its own frame. -/
theorem Seated.finds_home (hs : h.Seated ran) (hf : f < h.frames.size) {ip : Nat}
    (hip : ip ∈ (ran f).program.tape.starts) {level : UInt8} (hne : level ≠ 0)
    (hlast : level.toNat = (h.frame f).outer.length) :
    Opcode.returnNonLocal.Finds h ran f level second := by
  have hseated := hs.frames f hf
  have hhome : h.enclosing? f level.toNat = some (h.home f) := hlast ▸ h.home_eq f
  have hpos : 0 < (h.frame f).outer.length := by
    rw [← hlast]
    exact Nat.pos_of_ne_zero fun hz => hne (UInt8.toNat_inj.1 hz)
  refine ⟨hhome, fun he => ?_, hs.within hf hhome, hseated.evaluates ?_⟩
  · obtain ⟨n, hn⟩ := Nat.exists_eq_succ_of_ne_zero hpos.ne'
    rw [enclosing?, hlast, hn, List.getElem?_cons_succ, he] at hhome
    exact absurd (hseated.before f (List.mem_of_getElem? hhome)) (lt_irrefl f)
  -- A code with frames around it is a block.
  · have houter := List.length_pos_iff.1 hpos
    obtain hl := (hseated.fits.lexical hip).resolve_right fun h => houter h.1
    rw [hl.isBlock, outlines]
    simpa using houter

/-- An instruction finds what it addresses. -/
theorem Seated.finds (hs : h.Seated ran) (hf : f < h.frames.size) {ip : Nat}
    (hip : ip ∈ (ran f).program.tape.starts) {op : Opcode} {first second : UInt8}
    (hr : (ran f).program.tape.Reads ip op first second) : op.Finds h ran f first second := by
  have haddr := (hs.frames f hf).fits.addresses hip hr
  -- The fields of a receiver are found by way of the outermost frame.
  have houtermost : second.toNat ≤ (outlines ran (h.frame f).outer).length →
      ∃ g, h.enclosing? f second.toNat = some g := by
    intro hle
    have hlength : second.toNat < (f :: (h.frame f).outer).length :=
      Nat.lt_succ_of_le (by simpa [outlines] using hle)
    exact ⟨_, List.getElem?_eq_getElem hlength⟩
  unfold Opcode.Addresses at haddr
  cases op with
  | push p =>
    cases p with
    | temporary =>
      obtain ⟨o, ho, hlt⟩ := haddr
      obtain ⟨g, hg, hw, rfl, hlocals, -⟩ := hs.level hf ho
      exact ⟨g, hg, hw, hlt, lt_of_lt_of_le hlt hlocals⟩
    | argument =>
      obtain ⟨o, ho, hlt, -⟩ := haddr
      obtain ⟨g, hg, hw, rfl, -, harguments⟩ := hs.level hf ho
      exact ⟨g, hg, hw, hlt, lt_of_lt_of_le hlt harguments⟩
    | field => exact houtermost (by simpa using haddr.le)
  | pop p =>
    cases p with
    | temporary =>
      obtain ⟨o, ho, hlt⟩ := haddr
      obtain ⟨g, hg, hw, rfl, hlocals, -⟩ := hs.level hf ho
      exact ⟨g, hg, hw, hlt, lt_of_lt_of_le hlt hlocals⟩
    | argument =>
      obtain ⟨o, ho, hlt, hzero⟩ := haddr
      obtain ⟨g, hg, hw, rfl, -, harguments⟩ := hs.level hf ho
      exact ⟨g, hg, hw, hlt, lt_of_lt_of_le hlt harguments, hzero⟩
    | field => exact houtermost (by simpa using haddr.le)
  | returnNonLocal => exact hs.finds_home hf hip haddr.1 (by simpa [outlines] using haddr.2)
  | _ => trivial

end Heap

/-! ### Changes of values and markers -/

/-- The same frame, but for its values and its marker. -/
structure Frame.Like (k k' : Frame) : Prop where
  activation : k'.activation = k.activation
  arguments : k'.arguments.size = k.arguments.size
  locals : k'.locals.size = k.locals.size
  outer : k'.outer = k.outer
  receiver : k'.receiver = k.receiver

theorem Frame.Like.refl (k : Frame) : k.Like k :=
  ⟨rfl, rfl, rfl, rfl, rfl⟩

/-- The same frames, but for values and markers, and at least the same closures. -/
structure Heap.Like (h h' : Heap) : Prop where
  size : h'.frames.size = h.frames.size
  frame : ∀ f, (h.frame f).Like (h'.frame f)
  closure : ∀ b < h.closures.size, h'.closure b = h.closure b

namespace Heap

theorem frame_modify (h : Heap) (f : FrameRef) (u : Frame → Frame) (g : FrameRef) :
    frame { h with frames := h.frames.modify f u } g =
      if f = g ∧ g < h.frames.size then u (h.frame g) else h.frame g := by
  simp only [frame, Array.getD_eq_getD_getElem?, Array.getElem?_modify]
  by_cases hg : g < h.frames.size
  · by_cases hfg : f = g
    · simp [hfg, hg]
    · simp [hfg]
  · simp [hg]

theorem like_modify (h : Heap) (f : FrameRef) {u : Frame → Frame}
    (hu : (h.frame f).Like (u (h.frame f))) :
    h.Like { h with frames := h.frames.modify f u } where
  size := Array.size_modify
  frame g := by
    rw [frame_modify]
    split
    · rename_i hg
      rw [← hg.1]
      exact hu
    · exact .refl _
  closure _ _ := rfl

theorem like_setLocal (h : Heap) (f : FrameRef) (slot : Nat) (v : Value) :
    h.Like (h.setLocal f slot v) :=
  h.like_modify f ⟨rfl, rfl, Array.size_setIfInBounds, rfl, rfl⟩

theorem like_setArgument (h : Heap) (f : FrameRef) {slot : Nat} (hslot : slot ≠ 0) (v : Value) :
    h.Like (h.setArgument f slot v) := by
  refine h.like_modify f ⟨rfl, Array.size_setIfInBounds, rfl, rfl, ?_⟩
  simp [Frame.receiver, Array.getD_eq_getD_getElem?, hslot]

theorem like_shell (h : Heap) : h.Like h.shell :=
  ⟨rfl, fun _ => .refl _, fun _ _ => rfl⟩

theorem shell_like (h : Heap) : h.shell.Like h :=
  ⟨rfl, fun _ => .refl _, fun _ _ => rfl⟩

theorem like_leave (h : Heap) (f : FrameRef) (exit : Marker) : h.Like (h.leave f exit) :=
  h.like_modify f ⟨rfl, rfl, rfl, rfl, rfl⟩

theorem closure_newClosure_of_lt (h : Heap) (c : Closure) {b : BlockRef}
    (hb : b < h.closures.size) : (h.newClosure c).2.closure b = h.closure b := by
  simp [closure, newClosure, Array.getD_eq_getD_getElem?, Array.getElem?_push, hb.ne]

theorem closure_newClosure_self (h : Heap) (c : Closure) :
    (h.newClosure c).2.closure h.closures.size = c := by
  simp [closure, newClosure, Array.getD_eq_getD_getElem?]

theorem like_newClosure (h : Heap) (c : Closure) : h.Like (h.newClosure c).2 :=
  ⟨rfl, fun _ => .refl _, fun _ hb => h.closure_newClosure_of_lt c hb⟩

theorem lt_of_closure_ne (hb : h.closure b ≠ default) : b < h.closures.size := by
  by_contra hge
  refine hb ?_
  rw [closure, Array.getD_eq_getD_getElem?, Array.getElem?_eq_none (Nat.le_of_not_lt hge),
    Option.getD_none]

/-- A closure of a block is there. -/
theorem closure_lt (hb : (h.closure b).code.isBlock) : b < h.closures.size := by
  refine lt_of_closure_ne fun hdefault => ?_
  rw [hdefault] at hb
  cases hb

theorem Like.around (hl : h.Like h') (context : Option FrameRef) :
    h'.around context = h.around context := by
  cases context with
  | none => rfl
  | some g => rw [Heap.around, Heap.around, (hl.frame g).outer]

/-- A frame stays seated, and so does a closure that was there before. -/
theorem Like.frame_seated (hl : h.Like h') (hs : Frame.Seated h ran f) :
    Frame.Seated h' ran f where
  fits := (hl.frame f).outer ▸ hs.fits
  arguments := (hl.frame f).arguments ▸ hs.arguments
  locals := (hl.frame f).locals ▸ hs.locals
  before := (hl.frame f).outer ▸ hs.before
  outer g rest ho := by
    rw [(hl.frame f).outer] at ho
    rw [(hl.frame g).outer]
    exact hs.outer g rest ho
  evaluates hb := by
    obtain ⟨b, hreceiver, hcode⟩ := hs.evaluates hb
    refine ⟨b, (hl.frame f).receiver.trans hreceiver, ?_⟩
    rw [hl.closure b (closure_lt (hcode ▸ hb)), hcode]

theorem Like.closure_seated (hl : h.Like h') {c : Closure} (hs : c.Seated h ran) :
    c.Seated h' ran where
  fits := (hl.around c.context).symm ▸ hs.fits
  context g hg := hl.size ▸ hs.context g hg
  alone := hs.alone

/-- Values and markers do not matter. -/
theorem Seated.like (hs : h.Seated ran) (hl : h.Like h') (hc : h'.closures = h.closures) :
    h'.Seated ran where
  frames f hf := hl.frame_seated (hs.frames f (hl.size ▸ hf))
  closures b hb := by
    rw [hc] at hb
    rw [hl.closure b hb]
    exact hl.closure_seated (hs.closures b hb)

theorem seated_shell : h.shell.Seated ran ↔ h.Seated ran :=
  ⟨fun hs => hs.like h.shell_like rfl, fun hs => hs.like h.like_shell rfl⟩

theorem Seated.leave (hs : h.Seated ran) (f : FrameRef) (exit : Marker) :
    (h.leave f exit).Seated ran :=
  hs.like (h.like_leave f exit) rfl

theorem Seated.newClosure (hs : h.Seated ran) {c : Closure} (hc : c.Seated h ran) :
    (h.newClosure c).2.Seated ran where
  frames f hf := (h.like_newClosure c).frame_seated (hs.frames f hf)
  closures b hb := by
    have hlike := h.like_newClosure c
    by_cases hlt : b < h.closures.size
    · rw [h.closure_newClosure_of_lt c hlt]
      exact hlike.closure_seated (hs.closures b hlt)
    · have hsize : (h.newClosure c).2.closures.size = h.closures.size + 1 := Array.size_push _
      obtain rfl : b = h.closures.size := by omega
      rw [h.closure_newClosure_self]
      exact hlike.closure_seated hc

/-! ### New frames -/

theorem frame_newFrame_of_lt (h : Heap) (activation : Nat) (arguments : List Value) (locals : Nat)
    (context : Option FrameRef) (hf : f < h.frames.size) :
    (h.newFrame activation arguments locals context).2.frame f = h.frame f := by
  simp [frame, newFrame, Array.getD_eq_getD_getElem?, Array.getElem?_push, hf.ne]

theorem frame_newFrame_self (h : Heap) (activation : Nat) (arguments : List Value) (locals : Nat)
    (context : Option FrameRef) :
    (h.newFrame activation arguments locals context).2.frame h.frames.size =
      ⟨activation, arguments.toArray, Array.replicate locals .nil, h.around context, .onStack⟩ := by
  cases context <;> simp [frame, newFrame, around, Array.getD_eq_getD_getElem?]

theorem newFrame_size (h : Heap) (activation : Nat) (arguments : List Value) (locals : Nat)
    (context : Option FrameRef) :
    (h.newFrame activation arguments locals context).2.frames.size = h.frames.size + 1 :=
  Array.size_push _

theorem Seated.lt_of_mem_around (hs : h.Seated ran) {context : Option FrameRef}
    (hcontext : ∀ g, context = some g → g < h.frames.size) (hg : g ∈ h.around context) :
    g < h.frames.size := by
  cases context with
  | none => cases hg
  | some f => exact hs.around_lt (hcontext f rfl) hg

/-- A frame that is there stays seated when another one is made. -/
theorem Seated.frame_of_newFrame (hs : h.Seated ran) (activation : Nat) (arguments : List Value)
    (locals : Nat) (context : Option FrameRef) (hran : ∀ g < h.frames.size, ran' g = ran g)
    (hf : f < h.frames.size) :
    Frame.Seated (h.newFrame activation arguments locals context).2 ran' f := by
  have hold := h.frame_newFrame_of_lt activation arguments locals context hf
  have hseated := hs.frames f hf
  have hbefore : ∀ g ∈ (h.frame f).outer, g < h.frames.size := fun g hg =>
    (hseated.before g hg).trans hf
  constructor
  case fits =>
    rw [hold, hran f hf]
    exact hseated.fits.congr fun g hg => hran g (hbefore g hg)
  case arguments =>
    rw [hold, hran f hf]
    exact hseated.arguments
  case locals =>
    rw [hold, hran f hf]
    exact hseated.locals
  case before =>
    rw [hold]
    exact hseated.before
  case outer =>
    intro g rest ho
    rw [hold] at ho
    rw [frame_newFrame_of_lt _ _ _ _ _ (hbefore g (by simp [ho]))]
    exact hseated.outer g rest ho
  case evaluates =>
    rw [hold, hran f hf]
    exact hseated.evaluates

/-- A closure stays seated when a frame is made. -/
theorem Seated.closure_of_newFrame (hs : h.Seated ran) (activation : Nat) (arguments : List Value)
    (locals : Nat) (context : Option FrameRef) (hran : ∀ g < h.frames.size, ran' g = ran g)
    (hb : b < h.closures.size) :
    Closure.Seated (h.newFrame activation arguments locals context).2 ran' (h.closure b) := by
  have hseated := hs.closures b hb
  have hlt : ∀ g, (h.closure b).context = some g → g < h.frames.size := hseated.context
  have haround : (h.newFrame activation arguments locals context).2.around
      (h.closure b).context = h.around (h.closure b).context := by
    cases hc : (h.closure b).context with
    | none => rfl
    | some g => rw [Heap.around, Heap.around, frame_newFrame_of_lt _ _ _ _ _ (hlt g hc)]
  constructor
  case fits =>
    have hfits : (h.closure b).code.Fits ran' (h.around (h.closure b).context) :=
      hseated.fits.congr fun g hg => hran g (hs.lt_of_mem_around hlt hg)
    rw [← haround] at hfits
    exact hfits
  case context =>
    intro g hg
    rw [newFrame_size]
    exact (hlt g hg).trans (Nat.lt_succ_self _)
  case alone => exact hseated.alone

/-- A frame for a code that fits in may be made. -/
theorem Seated.newFrame (hs : h.Seated ran) (activation : Nat) {code : Code}
    {arguments : List Value} {context : Option FrameRef}
    (hran : ∀ g < h.frames.size, ran' g = ran g)
    (hself : ran' h.frames.size = code) (hfits : code.Fits ran (h.around context))
    (hcontext : ∀ g, context = some g → g < h.frames.size)
    (harguments : code.program.arguments.size ≤ arguments.length)
    (hevaluates : code.isBlock →
      ∃ b rest, arguments = .block b :: rest ∧ (h.closure b).code = code) :
    (h.newFrame activation arguments code.program.locals.size context).2.Seated ran' := by
  refine ⟨fun f hf => ?_, fun b hb => hs.closure_of_newFrame _ _ _ _ hran hb⟩
  rw [newFrame_size] at hf
  by_cases hlt : f < h.frames.size
  · exact hs.frame_of_newFrame _ _ _ _ hran hlt
  obtain rfl : f = h.frames.size := by omega
  have haround : ∀ g ∈ h.around context, g < h.frames.size := fun g hg =>
    hs.lt_of_mem_around hcontext hg
  have hnew := h.frame_newFrame_self activation arguments code.program.locals.size context
  constructor
  case fits =>
    rw [hnew, hself]
    exact hfits.congr fun g hg => hran g (haround g hg)
  case arguments =>
    rw [hnew, hself]
    simpa using harguments
  case locals =>
    rw [hnew, hself]
    simp
  case before =>
    rw [hnew]
    exact haround
  case outer =>
    intro g rest ho
    rw [hnew] at ho
    cases context with
    | none => cases ho
    | some g' =>
      obtain ⟨rfl, rfl⟩ := List.cons.inj ho
      rw [frame_newFrame_of_lt _ _ _ _ _ (hcontext g' rfl)]
  case evaluates =>
    rw [hnew, hself]
    intro hb
    obtain ⟨b, rest, rfl, hcode⟩ := hevaluates hb
    exact ⟨b, by simp [Frame.receiver], hcode⟩

/-- Calls of methods and evaluations of blocks make frames that are seated. -/
theorem Seated.enters {w : World} (hs : w.heap.Seated ran) {job : Job} {code : Code}
    {arguments : List Value} {context : Option FrameRef} (he : w.Enters job code arguments context)
    (hjob : ∀ c arguments, job = .invoke (.method c) arguments → c.Lexical []) (activation : Nat)
    (hran : ∀ g < w.heap.frames.size, ran' g = ran g) (hself : ran' w.heap.frames.size = code) :
    (w.heap.newFrame activation arguments code.program.locals.size context).2.Seated ran' := by
  cases he with
  | method hlength =>
    have hl := hjob _ _ rfl
    refine hs.newFrame activation hran hself (.method hl) nofun hlength.ge fun hb => ?_
    rw [hl.isBlock] at hb
    cases hb
  | @block b arguments hcount =>
    have harguments : (w.heap.closure b).code.program.arguments.size ≤
        (Value.block b :: arguments).length := by
      rw [Closure.parameterCount, Code.argumentCount] at hcount
      rw [List.length_cons]
      omega
    by_cases hb : b < w.heap.closures.size
    · have hseated := hs.closures b hb
      exact hs.newFrame activation hran hself hseated.fits hseated.context harguments
        fun _ => ⟨b, arguments, rfl, rfl⟩
    -- A closure that is not there has the empty code.
    · have hdefault : w.heap.closure b = default := by
        rw [closure, Array.getD_eq_getD_getElem?, Array.getElem?_eq_none (Nat.le_of_not_lt hb),
          Option.getD_none]
      have hcode : (w.heap.closure b).code = default := by rw [hdefault]; rfl
      have hcontext : (w.heap.closure b).context = none := by rw [hdefault]; rfl
      refine hs.newFrame activation hran hself ?_ (by rw [hcontext]; nofun) harguments
        fun _ => ⟨b, arguments, rfl, rfl⟩
      rw [hcontext]
      exact .nothing hcode

end Heap

/-! ### What activations do -/

/-- Only the operands that an instruction has matter to what it finds. -/
theorem Opcode.Finds.bytes {t : Tape} {ip : Nat} {op : Opcode} {first second : UInt8}
    (hf : op.Finds h ran f first second) (hr : t.Reads ip op first second) :
    op.Finds h ran f (t.byteAt (ip + 1)) (t.byteAt (ip + 2)) := by
  cases op with
  | push p | pop p =>
    rw [hr.first (by simp [Opcode.size]), hr.second (by simp [Opcode.size])]
    exact hf
  | returnNonLocal =>
    rw [hr.first (by simp [Opcode.size])]
    exact hf
  | _ => trivial

/-- An activation in a frame for its code. -/
structure Activation.Seated (a : Activation) (h : Heap) (ran : FrameRef → Code) : Prop where
  frame : a.frame < h.frames.size
  code : ran a.frame = a.code

/-- An activation that is at an instruction, unless its code is empty. -/
def Activation.AtStart (a : Activation) : Prop :=
  a.code = default ∨ a.ip ∈ a.code.program.tape.starts

namespace Heap

variable {a : Activation} {s s' : Stage}

section Executing

variable (hs : h.Seated ran) (ha : a.Seated h ran) (hip : a.AtStart) {op : Opcode}
  (hop : a.code.program.tape.opcode? a.ip = some op)

include hs ha hip hop

/-- The instruction of an activation, with its operands, suits the labels of the program. -/
theorem Seated.suits : a.ip ∈ a.code.program.tape.starts ∧ ∃ env D first second,
    a.code.program.tape.Reads a.ip op first second ∧
      a.code.program.Suits env true ∅ D a.ip op first second := by
  have hip : a.ip ∈ a.code.program.tape.starts := by
    refine hip.resolve_left fun hd => ?_
    rw [hd] at hop
    cases hop
  have hfits := (hs.frames a.frame ha.frame).fits
  rw [ha.code] at hfits
  have hlexical : ∃ env, a.code.Lexical env := by
    rcases hfits.lexical hip with hl | ⟨-, env, -, hl, -⟩
    · exact ⟨_, hl⟩
    · exact ⟨env, hl⟩
  obtain ⟨env, hl⟩ := hlexical
  obtain ⟨D, hD⟩ := hl.labelled
  obtain ⟨first, second, hr⟩ := hD.splits.reads_at hip hop
  exact ⟨hip, env, D, first, second, hr, hD.suits a.ip hip _ _ _ hr⟩

/-- An activation finds what its instruction addresses. -/
theorem Seated.finds_of_activation :
    op.Finds h ran a.frame (a.code.program.tape.byteAt (a.ip + 1))
      (a.code.program.tape.byteAt (a.ip + 2)) := by
  obtain ⟨hip, -, -, first, second, hr, -⟩ := hs.suits ha hip hop
  have hf : op.Finds h ran a.frame first second :=
    hs.finds ha.frame (ha.code.symm ▸ hip) (ha.code.symm ▸ hr)
  exact hf.bytes hr

/-- What an activation reads by an instruction for globals is a global. -/
theorem Seated.reads_of_activation (hg : op = .pushGlobal) : (a.code.reads? a.ip).isSome := by
  subst hg
  obtain ⟨-, _, _, first, second, hr, hsuits⟩ := hs.suits ha hip hop
  obtain ⟨l, hl, hsuits⟩ := hsuits.literal rfl
  cases l with
  | «global» name =>
    rw [← hr.first (by simp [Opcode.size])] at hl
    have hl : a.code.program.literal? (a.code.program.tape.byteAt (a.ip + 1)) =
        some (.global name) := hl
    simp [Code.reads?, hop, hl]
  | _ => cases hsuits

end Executing

/-- While it goes on, an activation keeps the heap seated. -/
theorem Seated.updates (hs : s.heap.Seated ran) (ha : a.Seated s.heap ran) (hip : a.AtStart)
    (hu : a.Updates s s') : s'.heap.Seated ran := by
  cases hu with
  | nothing => exact hs
  | setLocal f slot v => exact hs.like (s.heap.like_setLocal f slot v) rfl
  | setArgument v _ _ hslot => exact hs.like (s.heap.like_setArgument _ hslot v) rfl
  | @close withContext c hop hl =>
    obtain ⟨hip, -, -, first, second, hr, -⟩ := hs.suits ha hip hop
    rw [hr.first (by simp [Opcode.size])] at hl
    have hfits := (hs.frames a.frame ha.frame).fits
    rw [ha.code] at hfits
    obtain ⟨hneeds, hpushed⟩ := hfits.pushed hip hr hl ha.code
    refine hs.newClosure ⟨?_, fun g hg => ?_, fun hnone => ?_⟩
    · cases withContext with
      | false => exact hpushed
      | true => exact hpushed
    · cases withContext with
      | false => cases hg
      | true =>
        obtain rfl : a.frame = g := Option.some.inj hg
        exact ha.frame
    · cases withContext with
      | false => exact hneeds
      | true => cases hnone

/-- No marker is changed then. -/
theorem marker_updates (hu : a.Updates s s') (f : FrameRef) :
    (s'.heap.frame f).marker = (s.heap.frame f).marker := by
  cases hu with
  | nothing => rfl
  | setLocal g slot v =>
    show (frame { s.heap with frames := _ } f).marker = _
    rw [frame_modify]
    split <;> rfl
  | setArgument v _ _ hslot =>
    show (frame { s.heap with frames := _ } f).marker = _
    rw [frame_modify]
    split <;> rfl
  | close _ _ => rfl

/-- The frames are the same ones, but for values and markers. -/
theorem like_updates (hu : a.Updates s s') : s.heap.Like s'.heap := by
  cases hu with
  | nothing => exact ⟨rfl, fun _ => .refl _, fun _ _ => rfl⟩
  | setLocal f slot v => exact s.heap.like_setLocal f slot v
  | setArgument v _ _ hslot => exact s.heap.like_setArgument _ hslot v
  | close _ _ => exact s.heap.like_newClosure _

end Heap

end Parley
