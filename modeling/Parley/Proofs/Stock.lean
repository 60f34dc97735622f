import Parley.Machine.Step
import Parley.Proofs.Numbering

/-!
# What things refer to

While a machine runs, no class, no code and no layout is made: there is a fixed *stock* of them
(`Stock`). Values refer to classes of the stock; activations, closures and methods to codes of
it; and every instance has a layout that was made for its class, at whatever time, and no more
fields than its class has now. So a layout tells the class of an instance, which is what the
guards of dispatch chains rely on.

What call sites remember is part of the same picture. A remembered target that was found in the
present epoch is what a lookup finds now (`Entry.Sound`, `Site.Sound`). An instruction is known
by the number of its code, so that no two codes of the stock may have the same number.

This module states all that for each part of a machine (`World.Sound`, `Job.Sound`,
`Pending.Sound`) and shows that the small changes of a world keep it.
-/

namespace Parley

/-! ### The stock -/

/-- What there is to refer to in a world. -/
structure Stock where
  /-- The classes and what is installed in them. -/
  table : ClassTable
  /-- The number of classes. -/
  classes : Nat
  /-- The number of layouts ever made. -/
  layouts : Nat
  /-- The codes that were made, as literals, with all literals in them. -/
  written : Set (Literal Code)
  /-- The class that a layout was made for. -/
  owner : Nat → ClassRef

/-- A stock that the classes of the library belong to, and in which codes are told apart by their
    numbers. -/
structure Stock.Regular (s : Stock) : Prop where
  library : 28 ≤ s.classes
  layouts_pos : 0 < s.layouts
  /-- The first layout is that of `Object`. -/
  first : s.owner 0 = Core.object
  inside : ∀ c, .block c ∈ s.written → ∀ l ∈ c.program.literals, l ∈ s.written
  fits : ∀ l ∈ s.written, l.Fits s.classes
  apart : ∀ c d, .block c ∈ s.written → .block d ∈ s.written → c.id = d.id → c = d

/-- A code of the stock, or the empty one that stands for a closure that is not there. -/
def Stock.Knows (s : Stock) (c : Code) : Prop :=
  c = default ∨ .block c ∈ s.written

/-- What is said of the receiver and the arguments of a message: they are values of the stock. -/
def Stock.Covers (s : Stock) (vs : List Value) : Prop :=
  ∀ v ∈ vs, v.Within s.classes

/-! ### Classes -/

/-- What a lookup finds is a code of the stock, if it is a method. -/
def Invokable.Sound (s : Stock) : Invokable → Prop
  | .method c => s.Knows c
  | .primitive _ => True

/-- A class table with the classes and layouts of a stock. -/
structure ClassTable.Sound (t : ClassTable) (s : Stock) : Prop where
  table : s.table = t
  size : t.classes.size = s.classes
  layouts : t.layouts = s.layouts
  lineage : ∀ c, ∀ a ∈ (t.get c).lineage, a < s.classes
  metaclass : ∀ c m, (t.get c).metaclass = some m → m < s.classes
  registered : ∀ e ∈ t.registry.entries, e.2 < s.classes
  methods : ∀ c sel i, t.own? c sel = some i → i.Sound s
  /-- A class has a layout that was made for it. -/
  owner : ∀ c, c < s.classes → s.owner (t.get c).layout.id = c
  layout_lt : ∀ c, c < s.classes → (t.get c).layout.id < s.layouts
  /-- The layout of a class has a place for every field. -/
  shape : ∀ c, (t.get c).layout.fieldCount = (t.get c).fields.length

/-! ### What call sites remember -/

/-- The class of the receivers that a guard lets through. -/
def Guard.cls (s : Stock) : Guard → ClassRef
  | .ofClass c => c
  | .ofLayout l => s.owner l

/-- A guard of a class or layout of the stock. -/
def Guard.Within (s : Stock) : Guard → Prop
  | .ofClass c => c < s.classes
  | .ofLayout l => l < s.layouts ∧ s.owner l < s.classes

/-- An entry whose target, if it was found in the present epoch, is what a lookup finds. -/
structure Entry.Sound (e : Entry) (s : Stock) (t : ClassTable) (selector : Selector) : Prop where
  guard : e.guard.Within s
  epoch_le : e.epoch ≤ t.epoch
  target : e.epoch = t.epoch → e.target = .ofLookup (t.lookup (e.guard.cls s) selector)

/-- A dispatch chain whose entries are. -/
def Chain.Sound (c : Chain) (s : Stock) (t : ClassTable) : Prop :=
  ∀ entries, c.state = .cached entries → ∀ e ∈ entries, e.Sound s t c.selector

/-- The message that an instruction sends, and whether it goes to super. -/
def Code.sends? (c : Code) (ip : Nat) : Option (Bool × Selector) :=
  match c.program.tape.opcode? ip with
  | some (.send toSuper) =>
    match c.program.literal? (c.program.tape.byteAt (ip + 1)) with
    | some (.selector s) => some (toSuper, s)
    | _ => none
  | _ => none

/-- The name of the global that an instruction reads. -/
def Code.reads? (c : Code) (ip : Nat) : Option String :=
  match c.program.tape.opcode? ip with
  | some .pushGlobal =>
    match c.program.literal? (c.program.tape.byteAt (ip + 1)) with
    | some (.global name) => some name
    | _ => none
  | _ => none

theorem Code.sends?_of_reads? {c : Code} {ip : Nat} {name : String} (h : c.reads? ip = some name) :
    c.sends? ip = none := by
  rw [reads?] at h
  split at h
  · rename_i hop
    rw [sends?, hop]
  · cases h

/-- An instruction that is specialized to what a lookup finds for its message, or found in an
    earlier epoch. -/
def Site.Sound (site : Site) (s : Stock) (t : ClassTable) (code : Code) (ip : Nat) : Prop :=
  match site with
  | .global _ => (code.reads? ip).isSome
  | .chain c => code.sends? ip = some (false, c.selector) ∧ c.Sound s t
  | .super target epoch => ∃ selector holder, code.sends? ip = some (true, selector) ∧
      code.holder = some holder ∧ epoch ≤ t.epoch ∧
        (epoch = t.epoch → target = (t.get holder).superclass.bind (t.lookup · selector))
  | .eager op cls epoch _ => ∃ selector, code.sends? ip = some (false, selector) ∧
      cls < s.classes ∧ epoch ≤ t.epoch ∧
        (epoch = t.epoch → (t.lookup cls selector).bind Invokable.shortcut? = some op)

/-! ### Values and what holds them -/

/-- An instance of a class of a stock, in a layout that was made for the class. -/
structure Instance.Sound (i : Instance) (s : Stock) : Prop where
  cls : i.cls < s.classes
  layout_lt : i.layout.id < s.layouts
  owner : s.owner i.layout.id = i.cls
  size : i.fields.size = i.layout.fieldCount
  /-- The class may have got more fields since. -/
  room : i.layout.fieldCount ≤ (s.table.get i.cls).layout.fieldCount
  fields : ∀ v ∈ i.fields, v.Within s.classes

/-- A frame with values of a stock. -/
structure Frame.Sound (f : Frame) (s : Stock) : Prop where
  arguments : ∀ v ∈ f.arguments, v.Within s.classes
  locals : ∀ v ∈ f.locals, v.Within s.classes

/-- A heap that refers to a stock. -/
structure Heap.Sound (h : Heap) (s : Stock) : Prop where
  arrays : ∀ items ∈ h.arrays, ∀ v ∈ items, v.Within s.classes
  instances : ∀ i ∈ h.instances, i.Sound s
  closures : ∀ c ∈ h.closures, s.Knows c.code
  frames : ∀ f ∈ h.frames, f.Sound s

/-- Something held by a host that refers to the stock. -/
def Held.Sound (s : Stock) (t : ClassTable) : Held → Prop
  | .value v => v.Within s.classes
  | .code c => s.Knows c
  | .chain c => c.Sound s t

/-- A world with a stock. -/
structure World.Sound (w : World) (s : Stock) : Prop where
  stock : s.Regular
  classes : w.classes.Sound s
  heap : w.heap.Sound s
  globals : ∀ c ∈ w.globals, ∀ v, c.value = some v → v.Within s.classes
  sites : ∀ (l : Location) (site : Site), w.sites[l]? = some site →
    ∃ code, .block code ∈ s.written ∧ code.id = l.1 ∧ site.Sound s w.classes code l.2
  /-- An instruction that keeps a cell keeps that of the name it reads. -/
  cells : ∀ (l : Location) (cell : CellRef), w.sites[l]? = some (.global cell) →
    ∀ code name, .block code ∈ s.written → code.id = l.1 → code.reads? l.2 = some name →
      w.globals.find? name = some cell
  held : ∀ h ∈ w.held, h.Sound s w.classes
  written : s.written = {l | ∃ c ∈ w.codes, l ∈ c.parts}
  numbered : ∀ c, .block c ∈ s.written → c.id < w.supply.code

/-! ### What a machine does -/

/-- A condition with values of the stock. -/
def Condition.Sound (s : Stock) : Condition → Prop
  | .notUnderstood _ arguments => s.Covers arguments
  | .escaped _ v => v.Within s.classes
  | .unknownGlobal _ => True

/-- An unwind with a value of the stock. -/
def Unwind.Sound (s : Stock) : Unwind → Prop
  | .nonLocal _ v => v.Within s.classes
  | .escaped _ v => v.Within s.classes
  | _ => True

/-- An activation of a code of the stock, with values of it. -/
structure Activation.Sound (a : Activation) (s : Stock) : Prop where
  code : s.Knows a.code
  stack : s.Covers a.stack

/-- A job that refers to the stock. -/
def Job.Sound (s : Stock) : Job → Prop
  | .execute a => a.Sound s
  | .send _ arguments => s.Covers arguments
  | .invoke i arguments => i.Sound s ∧ s.Covers arguments
  | .evaluate _ arguments => s.Covers arguments
  | .count _ _ _ result => result.Within s.classes
  | .cycle _ _ result => result.Within s.classes
  | .report receiver c => receiver.Within s.classes ∧ c.Sound s
  | .answer v => v.Within s.classes
  | .unwind u => u.Sound s
  | .hang => True

/-- Something pending that refers to the stock. -/
def Pending.Sound (s : Stock) : Pending → Prop
  | .sender a | .reporter a => a.Sound s
  | .counting _ _ _ result => result.Within s.classes
  | .cycling _ _ result => result.Within s.classes
  | .sent | .called => True

/-- A machine that refers to a stock. -/
structure Machine.Sound (m : Machine) (s : Stock) : Prop where
  world : m.world.Sound s
  job : m.job.Sound s
  pending : ∀ p ∈ m.pending, p.Sound s

/-! ### Changes of the heap -/

theorem of_mem_modify {α : Type} {p : α → Prop} {xs : Array α} {i : Nat} {f : α → α} {x : α}
    (hx : x ∈ xs.modify i f) (h : ∀ x ∈ xs, p x) (hf : ∀ x, xs[i]? = some x → p x → p (f x)) :
    p x := by
  obtain ⟨j, hj, rfl⟩ := Array.getElem_of_mem hx
  rw [Array.size_modify] at hj
  rw [Array.getElem_modify]
  split
  · rename_i hij
    subst hij
    exact hf _ (Array.getElem?_eq_getElem hj) (h _ (Array.getElem_mem hj))
  · exact h _ (Array.getElem_mem hj)

theorem forall_mem_push {α : Type} {p : α → Prop} {xs : Array α} {x : α} (h : ∀ x ∈ xs, p x)
    (hx : p x) : ∀ y ∈ xs.push x, p y := by
  intro y hy
  rcases Array.mem_push.1 hy with hy | rfl
  · exact h y hy
  · exact hx

theorem forall_mem_set {α : Type} {p : α → Prop} {xs : Array α} {i : Nat} {x : α}
    (h : ∀ x ∈ xs, p x) (hx : p x) : ∀ y ∈ xs.setIfInBounds i x, p y := by
  intro y hy
  rcases Array.mem_or_eq_of_mem_setIfInBounds hy with hy | rfl
  · exact h y hy
  · exact hx

theorem getD_of_forall {α : Type} {p : α → Prop} {xs : Array α} {d : α} (h : ∀ x ∈ xs, p x)
    (hd : p d) (i : Nat) : p (xs.getD i d) := by
  rw [Array.getD_eq_getD_getElem?]
  cases hi : xs[i]? with
  | none => exact hd
  | some x => exact h x (Array.mem_of_getElem? hi)

namespace Heap.Sound

variable {h : Heap} {s : Stock} {v : Value}

theorem array (hh : h.Sound s) (a : ArrayRef) : ∀ v ∈ h.array a, v.Within s.classes :=
  getD_of_forall (p := fun items : Array Value => ∀ v ∈ items, v.Within s.classes) hh.arrays
    (by simp) a

theorem closure (hh : h.Sound s) (b : BlockRef) : s.Knows (h.closure b).code :=
  getD_of_forall (p := fun c : Closure => s.Knows c.code) hh.closures (.inl rfl) b

theorem frame (hh : h.Sound s) (f : FrameRef) : (h.frame f).Sound s := by
  refine getD_of_forall hh.frames ⟨fun v hv => ?_, fun v hv => ?_⟩ f
  · exact absurd hv (Array.not_mem_empty v)
  · exact absurd hv (Array.not_mem_empty v)

theorem receiver (hh : h.Sound s) (f : FrameRef) : (h.frame f).receiver.Within s.classes :=
  getD_of_forall (p := fun v : Value => v.Within s.classes) (hh.frame f).arguments
    (show Value.Within s.classes .nil from trivial) 0

theorem instance_ (hh : h.Sound s) (hs : s.Regular) (o : ObjectRef) : (h.instance_ o).Sound s := by
  -- An object that is not there is read as an empty instance of Object.
  refine getD_of_forall hh.instances ⟨?_, hs.layouts_pos, hs.first, rfl, Nat.zero_le _,
    fun v hv => ?_⟩ o
  · exact lt_of_lt_of_le (by decide) hs.library
  · exact absurd hv (Array.not_mem_empty v)

theorem newArray (hh : h.Sound s) {items : Array Value} (hi : ∀ v ∈ items, v.Within s.classes) :
    (h.newArray items).2.Sound s :=
  { hh with arrays := forall_mem_push hh.arrays hi }

theorem setElement (hh : h.Sound s) (a : ArrayRef) (i : Nat) (hv : v.Within s.classes) :
    (h.setElement a i v).Sound s := by
  refine { hh with arrays := fun items hi => ?_ }
  simp only [Heap.setElement] at hi
  exact of_mem_modify hi hh.arrays fun _ _ hx => forall_mem_set hx hv

theorem newClosure (hh : h.Sound s) {c : Closure} (hc : s.Knows c.code) :
    (h.newClosure c).2.Sound s :=
  { hh with closures := forall_mem_push hh.closures hc }

theorem newFrame (hh : h.Sound s) (activation : Nat) {arguments : List Value}
    (ha : s.Covers arguments) (locals : Nat) (context : Option FrameRef) :
    (h.newFrame activation arguments locals context).2.Sound s := by
  refine { hh with frames := forall_mem_push hh.frames ⟨fun v hv => ?_, fun v hv => ?_⟩ }
  · exact ha v (List.mem_toArray.1 hv)
  · rw [(Array.mem_replicate.1 hv).2]
    trivial

theorem setArgument (hh : h.Sound s) (f : FrameRef) (slot : Nat) (hv : v.Within s.classes) :
    (h.setArgument f slot v).Sound s := by
  refine { hh with frames := fun k hk => ?_ }
  simp only [Heap.setArgument] at hk
  exact of_mem_modify (p := (Frame.Sound · s)) hk hh.frames fun _ _ hx =>
    ⟨forall_mem_set hx.arguments hv, hx.locals⟩

theorem setLocal (hh : h.Sound s) (f : FrameRef) (slot : Nat) (hv : v.Within s.classes) :
    (h.setLocal f slot v).Sound s := by
  refine { hh with frames := fun k hk => ?_ }
  simp only [Heap.setLocal] at hk
  exact of_mem_modify (p := (Frame.Sound · s)) hk hh.frames fun _ _ hx =>
    ⟨hx.arguments, forall_mem_set hx.locals hv⟩

theorem leave (hh : h.Sound s) (f : FrameRef) (exit : Marker) : (h.leave f exit).Sound s := by
  refine { hh with frames := fun k hk => ?_ }
  simp only [Heap.leave] at hk
  exact of_mem_modify (p := (Frame.Sound · s)) hk hh.frames fun _ _ hx => ⟨hx.arguments, hx.locals⟩

/-- An instance in the layout that its class has. -/
theorem newInstance (hh : h.Sound s) {t : ClassTable} (ht : t.Sound s) {c : ClassRef}
    (hc : c < s.classes) : (h.newInstance c (t.get c).layout).2.Sound s := by
  refine { hh with
    instances := forall_mem_push hh.instances
      ⟨hc, ht.layout_lt c hc, ht.owner c hc, Array.size_replicate, ?_, fun v hv => ?_⟩ }
  · rw [ht.table]
  · rw [(Array.mem_replicate.1 hv).2]
    trivial

/-- An instance that is brought up to date has the layout that its class has. -/
theorem updateLayout (hh : h.Sound s) {t : ClassTable} (ht : t.Sound s) (o : ObjectRef) :
    (h.updateLayout t o).2.Sound s := by
  unfold Heap.updateLayout
  dsimp only
  split
  · exact hh
  · refine { hh with instances := fun j hj => ?_ }
    dsimp only at hj
    refine of_mem_modify (p := (Instance.Sound · s)) hj hh.instances fun i hi hx => ?_
    -- The instance that is replaced is the one that was read.
    have hio : h.instance_ o = i := by simp [Heap.instance_, Array.getD_eq_getD_getElem?, hi]
    rw [hio]
    refine ⟨hx.cls, ht.layout_lt _ hx.cls, ht.owner _ hx.cls, ?_, ?_, fun v hv => ?_⟩
    -- Fields that went are cut off, and those that came are filled with nil.
    · simp only [Instance.migrated, Array.size_append, Array.size_extract, Array.size_replicate]
      omega
    · rw [ht.table]
      exact le_rfl
    · rcases Array.mem_append.1 hv with hv | hv
      · obtain ⟨j, hj, rfl⟩ := Array.getElem_of_mem hv
        rw [Array.getElem_extract]
        exact hx.fields _ (Array.getElem_mem _)
      · rw [(Array.mem_replicate.1 hv).2]
        trivial

theorem readField (hh : h.Sound s) (hs : s.Regular) {t : ClassTable} (ht : t.Sound s)
    (o : ObjectRef) (index : Nat) : (h.readField t o index).2.Sound s ∧
      ∀ v, (h.readField t o index).1 = some v → v.Within s.classes := by
  rw [Heap.readField]
  split
  · rename_i v hv
    refine ⟨hh, ?_⟩
    rintro _ ⟨⟩
    exact (hh.instance_ hs o).fields v (Array.mem_of_getElem? hv)
  -- Beyond its own fields, the instance is brought up to date first.
  · have hh' := hh.updateLayout ht o
    exact ⟨hh', fun v hv => (hh'.instance_ hs o).fields v (Array.mem_of_getElem? hv)⟩

theorem writeField (hh : h.Sound s) {t : ClassTable} (ht : t.Sound s)
    (o : ObjectRef) (index : Nat) (hv : v.Within s.classes) :
    (h.writeField t o index v).2.Sound s := by
  unfold Heap.writeField
  extract_lets h'
  have hh' : h'.Sound s := by
    dsimp only [h']
    split
    · exact hh
    · exact hh.updateLayout ht o
  split
  · refine { hh' with instances := fun j hj => ?_ }
    dsimp only at hj
    exact of_mem_modify (p := (Instance.Sound · s)) hj hh'.instances fun _ _ hx =>
      { hx with
        size := Array.size_setIfInBounds.trans hx.size
        fields := forall_mem_set hx.fields hv }
  · exact hh'

end Heap.Sound

end Parley
