import Parley.Proofs.Ordinary
import Parley.Proofs.Plain

/-!
# Fields through time

A class may get a field while it has instances. An instance follows when it is next looked at: when
an access does not find its field, when a dispatch chain misses, when a field is written by its
number, or when a host says so. What is read and written in the meantime should not depend on that.

The measure is a book in which nothing is put off (`Holdings`): the instances of a class get a field
when their class does. A history of touches (`Touch`) is any sequence of new fields, new instances,
accesses to fields, by instructions and by number, and instances that catch up for whatever reason.

* `World.Tidy.touch` is the step: a touch leaves a tidy world tidy, is answered as in the book, and
  leaves what is in the book;
* `World.Tidy.replies` is the run: all accesses of a history are answered as in the book, so that it
  makes no difference where instances catch up.

The exception is the primitive that reads a field by its number (`World.Lags`). It asks how many
fields the instance has before it catches up.
-/

namespace Parley

variable {s : Stock} {w : World} {t : ClassTable} {h : Heap} {o : ObjectRef}

/-! ### The book -/

/-- An instance with all the fields that its class has got so far. -/
structure Holding where
  cls : ClassRef
  fields : Array Value
deriving Inhabited

/-- What is held by an instance, without its layout. -/
def Instance.holding (i : Instance) : Holding :=
  ⟨i.cls, i.fields⟩

/-- All instances, with the number of fields and the name of every class. -/
structure Holdings where
  count : ClassRef → Nat
  name : ClassRef → String
  all : Array Holding

/-- What may happen to instances and their classes. -/
inductive Touch where
  /-- A class gets a field. -/
  | grow (c : ClassRef) (field : String)
  /-- A class gets an instance. -/
  | make (c : ClassRef)
  /-- An instance catches up with its class. -/
  | catchUp (o : ObjectRef)
  /-- An instruction pushes a field. -/
  | push (o : ObjectRef) (slot : Nat)
  /-- An instruction pops a value into a field. -/
  | pop (o : ObjectRef) (slot : Nat) (v : Value)
  /-- A field is read by its number. -/
  | read (o : ObjectRef) (index : Value)
  /-- A field is written by its number. -/
  | write (o : ObjectRef) (index v : Value)

namespace Holdings

variable (b : Holdings)

def get (o : ObjectRef) : Holding :=
  b.all.getD o default

/-- The class of an instance has a new field, which is nil. -/
def grow (c : ClassRef) : Holdings :=
  { b with
    count := Function.update b.count c (b.count c + 1)
    all := b.all.map fun i => if i.cls = c then { i with fields := i.fields.push .nil } else i }

def make (c : ClassRef) : Holdings :=
  { b with all := b.all.push ⟨c, .replicate (b.count c) .nil⟩ }

/-- The fault that an instance has no field at a place. -/
def noField (slot : Nat) (o : ObjectRef) : Job :=
  .fail (.fieldOutOfRange slot (b.name (b.get o).cls))

def push (o : ObjectRef) (slot : Nat) : Job :=
  match (b.get o).fields[slot]? with
  | some v => .answer v
  | none => b.noField slot o

def pop (o : ObjectRef) (slot : Nat) (v : Value) : Job × Holdings :=
  if slot < (b.get o).fields.size then
    (.answer v, { b with
      all := b.all.modify o fun i => { i with fields := i.fields.setIfInBounds slot v } })
  else (b.noField slot o, b)

/-- The place that a number stands for, among the fields of an instance. -/
def place (o : ObjectRef) (arguments : List Value) (selector : Selector) : Except Fault Nat :=
  Parley.place arguments 1 (b.get o).fields.size selector

/-- What is answered to a touch, and what is in the book afterwards. -/
def touch : Touch → Option Job × Holdings
  | .grow c _ => (none, b.grow c)
  | .make c => (none, b.make c)
  | .catchUp _ => (none, b)
  | .push o slot => (some (b.push o slot), b)
  | .pop o slot v => ((b.pop o slot v).1, (b.pop o slot v).2)
  | .read o index =>
    match b.place o [.object o, index] "instVarAt:" with
    | .error f => (some (.fail f), b)
    | .ok slot => (some (b.push o slot), b)
  | .write o index v =>
    match b.place o [.object o, index, v] "instVarAt:put:" with
    | .error f => (some (.fail f), b)
    | .ok slot => ((b.pop o slot v).1, (b.pop o slot v).2)

/-- What is answered to the accesses of a history. -/
def replies (b : Holdings) : List Touch → List Job
  | [] => []
  | t :: ts => (b.touch t).1.toList ++ replies (b.touch t).2 ts

end Holdings

/-! ### Touches of a world -/

namespace World

/-- What an instruction gets that pushes a field of an instance. -/
def pushField (w : World) (o : ObjectRef) (slot : Nat) : Job × World :=
  match w.heap.readField w.classes o slot with
  | (some v, heap) => (.answer v, { w with heap })
  | (none, heap) => (.fail (Objects.noField slot o { w with heap }), { w with heap })

/-- What comes of an instruction that pops a value into a field of an instance. -/
def popField (w : World) (o : ObjectRef) (slot : Nat) (v : Value) : Job × World :=
  match w.heap.writeField w.classes o slot v with
  | (true, heap) => (.answer v, { w with heap })
  | (false, heap) => (.fail (Objects.noField slot o { w with heap }), { w with heap })

/-- What is answered to a touch, and the world afterwards. -/
def touch (w : World) : Touch → Option Job × World
  | .grow c field => (none, (w.addField c field).2)
  | .make c => (none, (w.newInstance c).2)
  | .catchUp o => (none, w.migrate (.object o))
  | .push o slot => ((w.pushField o slot).1, (w.pushField o slot).2)
  | .pop o slot v => ((w.popField o slot v).1, (w.popField o slot v).2)
  | .read o index =>
    let r := Builtin.instVarAt.apply [.object o, index] w
    (r.1, r.2)
  | .write o index v =>
    let r := Builtin.instVarAtPut.apply [.object o, index, v] w
    (r.1, r.2)

/-- What is answered to the accesses of a history. -/
def replies (w : World) : List Touch → List Job
  | [] => []
  | t :: ts => (w.touch t).1.toList ++ replies (w.touch t).2 ts

/-- What is in the book of a world. -/
def holdings (w : World) : Holdings where
  count c := (w.classes.get c).fields.length
  name := w.classes.name
  all := (w.heap.current w.classes).instances.map Instance.holding

end World

/-- An instruction that pushes a field of the receiver goes on with what it gets. -/
theorem Activation.pushVariable_field {a : Activation} {slot level : UInt8} {f : FrameRef}
    (hf : w.heap.enclosing? a.frame level.toNat = some f)
    (ho : (w.heap.frame f).receiver = .object o) (next : Nat) :
    (∃ v w', w.pushField o slot.toNat = (.answer v, w') ∧
      a.pushVariable .field slot level next w = a.goOn next (v :: a.stack) w') ∨
    ∃ e w', w.pushField o slot.toNat = (.fail e, w') ∧
      a.pushVariable .field slot level next w = a.failing e w' := by
  rw [pushVariable, hf, World.pushField]
  dsimp only
  rw [ho]
  dsimp only
  cases w.heap.readField w.classes o slot.toNat with
  | mk v heap =>
    cases v with
    | some v => exact .inl ⟨v, _, rfl, rfl⟩
    | none => exact .inr ⟨_, _, rfl, rfl⟩

/-- An instruction that pops a value into a field of the receiver goes on if it gets there. -/
theorem Activation.popVariable_field {a : Activation} {slot level : UInt8} {f : FrameRef}
    (hf : w.heap.enclosing? a.frame level.toNat = some f)
    (ho : (w.heap.frame f).receiver = .object o) (next : Nat) (v : Value) (rest : List Value) :
    (∃ w', w.popField o slot.toNat v = (.answer v, w') ∧
      a.popVariable .field slot level next v rest w = a.goOn next rest w') ∨
    ∃ e w', w.popField o slot.toNat v = (.fail e, w') ∧
      a.popVariable .field slot level next v rest w = a.failing e w' := by
  rw [popVariable, hf, World.popField]
  dsimp only
  rw [ho]
  dsimp only
  cases w.heap.writeField w.classes o slot.toNat v with
  | mk done heap =>
    cases done with
    | true => exact .inl ⟨_, rfl, rfl⟩
    | false => exact .inr ⟨_, _, rfl, rfl⟩

/-- Reading by number is pushing the field at the place that the number stands for. -/
theorem Objects.instVarAt_eq (w : World) (o : ObjectRef) (index : Value) :
    instVarAt [.object o, index] w =
      match place [.object o, index] 1 (w.heap.instance_ o).layout.fieldCount "instVarAt:" with
      | .error f => (.fail f, w)
      | .ok slot => w.pushField o slot :=
  rfl

/-- Writing by number is popping into the field at that place, once the instance has caught up. -/
theorem Objects.instVarAtPut_popField (w : World) (o : ObjectRef) (index v : Value) :
    instVarAtPut [.object o, index, v] w =
      match place [.object o, index, v] 1
        ((w.migrate (.object o)).heap.instance_ o).layout.fieldCount "instVarAt:put:" with
      | .error f => (.fail f, w.migrate (.object o))
      | .ok slot => (w.migrate (.object o)).popField o slot v := by
  rw [instVarAtPut_eq rfl]
  generalize w.migrate (.object o) = w'
  rfl

/-! ### Tidy worlds -/

/-- An instance that has the number of the layout of its class has that layout. -/
def Instance.Fits (i : Instance) (t : ClassTable) : Prop :=
  i.layout.id = (t.get i.cls).layout.id → i.layout = (t.get i.cls).layout

/-- A world with a stock, in which a layout is known by its number. -/
structure World.Tidy (w : World) : Prop where
  sound : ∃ s, w.Sound s
  fits : ∀ i ∈ w.heap.instances, i.Fits w.classes

/-- What a touch gives to a world is known to it. -/
def Touch.Within (k : Nat) : Touch → Prop
  | .grow c _ | .make c => c < k
  | .pop _ _ v | .write _ _ v => v.Within k
  | _ => True

namespace Heap

theorem updateLayout_fits (hh : ∀ i ∈ h.instances, i.Fits t) (o : ObjectRef) :
    ∀ i ∈ (h.updateLayout t o).2.instances, i.Fits t := by
  rw [updateLayout]
  split
  · exact hh
  · intro j hj
    dsimp only at hj
    refine of_mem_modify (p := (Instance.Fits · t)) hj hh fun i hi _ _ => ?_
    -- The instance that is replaced is the one that was read.
    have hio : h.instance_ o = i := by simp [instance_, Array.getD_eq_getD_getElem?, hi]
    rw [hio]
    rfl

theorem readField_fits (hh : ∀ i ∈ h.instances, i.Fits t) (o : ObjectRef) (slot : Nat) :
    ∀ i ∈ (h.readField t o slot).2.instances, i.Fits t := by
  rw [readField]
  split
  · exact hh
  · exact updateLayout_fits hh o

theorem writeField_fits (hh : ∀ i ∈ h.instances, i.Fits t) (o : ObjectRef) (slot : Nat)
    (v : Value) : ∀ i ∈ (h.writeField t o slot v).2.instances, i.Fits t := by
  unfold writeField
  extract_lets h'
  have hh' : ∀ i ∈ h'.instances, i.Fits t := by
    dsimp only [h']
    split
    · exact hh
    · exact updateLayout_fits hh o
  split
  · intro j hj
    dsimp only at hj
    exact of_mem_modify (p := (Instance.Fits · t)) hj hh' fun _ _ hi => hi
  · exact hh'

end Heap

namespace World.Tidy

theorem setHeap (hw : w.Tidy) {heap : Heap} (hsound : ∀ s, w.Sound s → heap.Sound s)
    (hfits : ∀ i ∈ heap.instances, i.Fits w.classes) : Tidy { w with heap } := by
  obtain ⟨s, h⟩ := hw.sound
  exact ⟨⟨s, h.setHeap (hsound s h)⟩, hfits⟩

theorem pushField (hw : w.Tidy) (o : ObjectRef) (slot : Nat) : (w.pushField o slot).2.Tidy := by
  have hw' := hw.setHeap (fun _ h => (h.heap.readField h.stock h.classes o slot).1)
    (Heap.readField_fits hw.fits o slot)
  rw [World.pushField]
  generalize w.heap.readField w.classes o slot = r at hw' ⊢
  obtain ⟨v, heap⟩ := r
  cases v <;> exact hw'

theorem popField (hw : w.Tidy) (o : ObjectRef) (slot : Nat) {v : Value}
    (hv : v.Within w.classes.next) : (w.popField o slot v).2.Tidy := by
  have hw' := hw.setHeap
    (fun _ h => h.heap.writeField h.classes o slot (v := v) (h.next_eq ▸ hv))
    (Heap.writeField_fits hw.fits o slot v)
  rw [World.popField]
  generalize w.heap.writeField w.classes o slot v = r at hw' ⊢
  obtain ⟨done, heap⟩ := r
  cases done <;> exact hw'

end World.Tidy

/-- A class whose layout is another one later has a new number for it. -/
theorem Instance.Fits.later {i : Instance} (hfits : i.Fits t) (hi : i.Sound s) (ht : t.Sound s)
    {s' : Stock} {t' : ClassTable} (ht' : t'.Sound s') (hs : s.Le s') : i.Fits t' := by
  have hlater := hs.layout i.cls hi.cls
  rw [ht.table, ht'.table] at hlater
  intro hid
  rcases hlater with heq | ⟨hnew, -⟩
  · rw [heq] at hid ⊢
    exact hfits hid
  · exact absurd (hid ▸ hi.layout_lt) hnew.not_gt

/-- What a host does to a tidy world leaves it tidy. -/
theorem World.Change.tidy {w' : World} (hc : w.Change w') (hw : w.Tidy) : w'.Tidy := by
  obtain ⟨s, h⟩ := hw.sound
  obtain ⟨s', hs, h'⟩ := hc.sound h
  have hkept : ∀ i ∈ w.heap.instances, i.Fits w'.classes := fun i hi =>
    (hw.fits i hi).later (h.heap.instances i hi) h.classes h'.classes hs
  refine ⟨⟨s', h'⟩, ?_⟩
  cases hc with
  | newInstance _ => exact forall_mem_push hkept fun _ => rfl
  | updateLayout o => exact Heap.updateLayout_fits hw.fits o
  | addField c name =>
    rw [World.addField, note_heap]
    exact hkept
  | compile m inlining hc =>
    rw [World.compile_heap]
    exact hkept
  | turn hclasses hheap =>
    rw [hheap]
    exact hkept
  | _ => exact hkept

theorem World.Changes.tidy {w' : World} (hc : w.Changes w') (hw : w.Tidy) : w'.Tidy := by
  induction hc with
  | refl => exact hw
  | tail _ hc ih => exact hc.tidy ih

/-- A new world is tidy. -/
theorem World.boot_tidy (settings : Settings) (handler : Handler) (sink : Sink) (watched : Bool) :
    (World.boot settings handler sink watched).Tidy :=
  (World.boot_changes settings handler sink watched).tidy
    ⟨World.bare_sound settings handler sink watched, fun _ hi => absurd hi (Array.not_mem_empty _)⟩

/-! ### A touch and the book -/

namespace Instance

variable {i : Instance}

/-- The fields that an instance has when it is up to date: those that it has, and nil for those that
    its class has got since. -/
theorem Sound.current_fields (hi : i.Sound s) (ht : t.Sound s) (hfits : i.Fits t) :
    (i.current t).fields =
      i.fields ++ Array.replicate ((t.get i.cls).fields.length - i.fields.size) .nil := by
  have hroom : i.layout.fieldCount ≤ (t.get i.cls).layout.fieldCount := ht.table ▸ hi.room
  by_cases hid : i.layout.id = (t.get i.cls).layout.id
  · have hsize : i.fields.size = (t.get i.cls).fields.length := by
      rw [hi.size, hfits hid, ht.shape]
    rw [current_of_eq hid, hsize, Nat.sub_self, Array.replicate_zero, Array.append_empty]
  · rw [current_of_ne hid, migrated_fields (hi.size.trans_le hroom), ht.shape]

/-- When its class gets a field, so does an instance that is up to date. -/
theorem Sound.current_grow (hi : i.Sound s) (ht : t.Sound s) (hfits : i.Fits t) (c : ClassRef)
    (field : String) : (i.current (t.addField c field)).fields =
      if i.cls = c then (i.current t).fields.push .nil else (i.current t).fields := by
  have hroom : i.layout.fieldCount ≤ (t.get i.cls).layout.fieldCount := ht.table ▸ hi.room
  rw [hi.current_fields ht hfits]
  by_cases hc : i.cls = c
  · subst hc
    have hget : (t.addField i.cls field).get i.cls = { t.get i.cls with
        fields := (t.get i.cls).fields ++ [field]
        layout := ⟨t.layouts, (t.get i.cls).fields.length + 1⟩ } := by
      rw [ClassTable.get_addField, if_pos ⟨rfl, hi.cls.trans_eq ht.size.symm⟩]
    have hid : i.layout.id ≠ ((t.addField i.cls field).get i.cls).layout.id := by
      rw [hget]
      exact (ht.layouts ▸ hi.layout_lt).ne
    have hsize : i.fields.size ≤ (t.get i.cls).fields.length := by
      rw [hi.size, ← ht.shape]
      exact hroom
    rw [if_pos rfl, current_of_ne hid, hget, migrated_fields (by dsimp only; omega),
      Array.push_append, ← Array.replicate_succ]
    congr 2
    dsimp only
    omega
  · have hget : (t.addField c field).get i.cls = t.get i.cls := by
      rw [ClassTable.get_addField, if_neg fun h => hc h.1.symm]
    rw [if_neg hc, ← hi.current_fields ht hfits, current, current, hget]

end Instance

/-- An instance that is up to date has the fields that its layout says. -/
theorem Heap.Sound.current_size (hh : h.Sound s) (ht : t.Sound s) (o : ObjectRef) :
    ((h.current t).instance_ o).fields.size = ((h.current t).instance_ o).layout.fieldCount := by
  rcases h.instance_cases t o with ⟨i, hsome, -, hi⟩ | ⟨-, -, -, hi⟩
  · have hsound := hh.instances i (Array.mem_of_getElem? hsome)
    have hle : i.fields.size ≤ (t.get i.cls).layout.fieldCount :=
      hsound.size.trans_le (ht.table ▸ hsound.room)
    rw [hi]
    by_cases hid : i.layout.id = (t.get i.cls).layout.id
    · rw [Instance.current_of_eq hid, hsound.size]
    · rw [Instance.current_of_ne hid, Instance.migrated_fields hle, Array.size_append,
        Array.size_replicate]
      show _ = (t.get i.cls).layout.fieldCount
      omega
  · rw [hi]
    rfl

namespace World

theorem get_holdings (w : World) (o : ObjectRef) : w.holdings.get o =
    ⟨(w.heap.instance_ o).cls, ((w.heap.current w.classes).instance_ o).fields⟩ := by
  rw [← Heap.current_instance_cls _ w.classes]
  simp only [Holdings.get, holdings, Heap.instance_, Array.getD_eq_getD_getElem?,
    Array.getElem?_map]
  cases (w.heap.current w.classes).instances[o]? <;> rfl

/-- What is in the book depends on the heap with all instances brought up to date. -/
theorem holdings_setHeap (w : World) {heap : Heap}
    (hheap : heap.current w.classes = w.heap.current w.classes) :
    holdings { w with heap } = w.holdings := by
  rw [holdings, holdings, hheap]

@[simp] theorem holdings_migrate (w : World) (o : ObjectRef) :
    (w.migrate (.object o)).holdings = w.holdings :=
  w.holdings_setHeap (w.heap.updateLayout_current w.classes o)

/-- The fault that an instance has no field is in the name of its class. -/
theorem noField_holdings (w : World) {heap : Heap}
    (hheap : heap.current w.classes = w.heap.current w.classes) (slot : Nat) (o : ObjectRef) :
    Job.fail (Objects.noField slot o { w with heap }) = w.holdings.noField slot o := by
  have hcls : (heap.instance_ o).cls = (w.heap.instance_ o).cls := by
    rw [← Heap.current_instance_cls heap w.classes, hheap, Heap.current_instance_cls]
  rw [Holdings.noField, get_holdings]
  show Job.fail (.fieldOutOfRange slot (w.classes.name (heap.instance_ o).cls)) = _
  rw [hcls]
  rfl

namespace Sound

theorem pushField (hw : w.Sound s) (o : ObjectRef) (slot : Nat) :
    (w.pushField o slot).1 = w.holdings.push o slot ∧
      (w.pushField o slot).2.holdings = w.holdings := by
  have hread := hw.heap.readField_current hw.stock hw.classes o slot
  rw [Heap.current_readField, Prod.mk.injEq] at hread
  rw [World.pushField, Holdings.push, get_holdings, hread.1]
  cases hr : w.heap.readField w.classes o slot with
  | mk v heap =>
    rw [hr] at hread
    have hheap : heap.current w.classes = w.heap.current w.classes := hread.2.symm
    cases v with
    | some v => exact ⟨rfl, w.holdings_setHeap hheap⟩
    | none => exact ⟨w.noField_holdings hheap slot o, w.holdings_setHeap hheap⟩

theorem popField (hw : w.Sound s) (o : ObjectRef) (slot : Nat) (v : Value) :
    (w.popField o slot v).1 = (w.holdings.pop o slot v).1 ∧
      (w.popField o slot v).2.holdings = (w.holdings.pop o slot v).2 := by
  have hwrite := hw.heap.writeField_current hw.stock hw.classes o slot v
  rw [Heap.current_writeField] at hwrite
  rw [World.popField, Holdings.pop, get_holdings]
  cases hr : w.heap.writeField w.classes o slot v with
  | mk done heap =>
    rw [hr] at hwrite
    by_cases hslot : slot < ((w.heap.current w.classes).instance_ o).fields.size
    · rw [if_pos hslot, Prod.mk.injEq] at hwrite
      obtain ⟨rfl, hheap⟩ := hwrite
      rw [if_pos hslot]
      refine ⟨rfl, ?_⟩
      show holdings { w with heap } = _
      rw [holdings, ← hheap]
      refine congrArg (Holdings.mk _ _) ?_
      dsimp only
      exact map_modify _ _ o fun _ => rfl
    · rw [if_neg hslot, Prod.mk.injEq] at hwrite
      obtain ⟨rfl, hheap⟩ := hwrite
      rw [if_neg hslot]
      exact ⟨w.noField_holdings hheap.symm slot o, w.holdings_setHeap hheap.symm⟩

end Sound

namespace Tidy

/-- In the book, all instances have the fields that their classes have. -/
theorem complete (hw : w.Tidy) : ∀ i ∈ w.holdings.all, i.fields.size = w.holdings.count i.cls := by
  obtain ⟨s, h⟩ := hw.sound
  intro i hi
  simp only [holdings, Heap.current, Array.mem_map, exists_exists_and_eq_and] at hi
  obtain ⟨j, hj, rfl⟩ := hi
  have hsound := h.heap.instances j hj
  have hle : j.fields.size ≤ (w.classes.get j.cls).fields.length := by
    rw [hsound.size, ← h.classes.shape]
    exact h.classes.table ▸ hsound.room
  show (j.current w.classes).fields.size = (w.classes.get (j.current w.classes).cls).fields.length
  rw [hsound.current_fields h.classes (hw.fits j hj), Instance.current_cls, Array.size_append,
    Array.size_replicate]
  omega

theorem holdings_addField (hw : w.Tidy) {c : ClassRef} (hc : c < w.classes.next)
    (field : String) : (w.addField c field).2.holdings = w.holdings.grow c := by
  obtain ⟨s, h⟩ := hw.sound
  have hget := w.classes.get_addField c field
  have hcount : ∀ c', ((w.classes.addField c field).get c').fields.length =
      Function.update (fun c' => (w.classes.get c').fields.length) c
        ((w.classes.get c).fields.length + 1) c' := by
    intro c'
    rw [hget, Function.update_apply]
    by_cases hcc : c' = c
    · subst hcc
      rw [if_pos ⟨rfl, hc⟩, if_pos rfl, List.length_append]
      rfl
    · rw [if_neg fun h => hcc h.1.symm, if_neg hcc]
  have hname : ∀ c', (w.classes.addField c field).name c' = w.classes.name c' := by
    intro c'
    rw [ClassTable.name, hget]
    split <;> rfl
  have hheap : (w.addField c field).2.heap.current (w.addField c field).2.classes =
      w.heap.current (w.classes.addField c field) := by
    rw [World.addField, note_heap, note_classes]
  rw [holdings, hheap, Holdings.grow]
  congr 1
  · funext c'
    rw [World.addField, note_classes]
    exact hcount c'
  · funext c'
    rw [World.addField, note_classes]
    exact hname c'
  · simp only [Heap.current, holdings, Array.map_map]
    refine Array.map_congr_left fun i hi => ?_
    have hgrow := (h.heap.instances i hi).current_grow h.classes (hw.fits i hi) c field
    simp only [Function.comp_apply, Instance.holding, Instance.current_cls, hgrow]
    split <;> rfl

theorem holdings_newInstance (hw : w.Tidy) (c : ClassRef) :
    (w.newInstance c).2.holdings = w.holdings.make c := by
  obtain ⟨s, h⟩ := hw.sound
  have hnew := w.heap.newInstance_current w.classes c
  have hheap : (w.newInstance c).2.heap.current w.classes =
      ((w.heap.current w.classes).newInstance c (w.classes.get c).layout).2 := by
    rw [hnew]
    rfl
  show Holdings.mk _ _ (((w.newInstance c).2.heap.current w.classes).instances.map _) = _
  rw [hheap, Holdings.make]
  refine congrArg (Holdings.mk _ _) ?_
  rw [Heap.newInstance, Array.map_push, h.classes.shape]
  rfl

/-- Reading by number, of an instance that does not lag. -/
theorem read (hw : w.Tidy) {o : ObjectRef} {index : Value} (hlags : ¬ w.Lags [.object o, index]) :
    (w.touch (.read o index)).2.Tidy ∧
      (w.touch (.read o index)).1 = (w.holdings.touch (.read o index)).1 ∧
      (w.touch (.read o index)).2.holdings = (w.holdings.touch (.read o index)).2 := by
  obtain ⟨s, h⟩ := hw.sound
  have hplace : w.holdings.place o [.object o, index] "instVarAt:" =
      place [.object o, index] 1 (w.heap.instance_ o).layout.fieldCount "instVarAt:" := by
    rw [Holdings.place, get_holdings, h.heap.current_size h.classes]
    exact h.place_plain rfl hlags
  have htouch : w.touch (.read o index) = (some (Objects.instVarAt [.object o, index] w).1,
      (Objects.instVarAt [.object o, index] w).2) := rfl
  rw [htouch, Objects.instVarAt_eq, Holdings.touch, hplace]
  cases place [.object o, index] 1 (w.heap.instance_ o).layout.fieldCount "instVarAt:" with
  | error f => exact ⟨hw, rfl, rfl⟩
  | ok slot =>
    obtain ⟨hjob, hholdings⟩ := h.pushField o slot
    dsimp only
    rw [hjob]
    exact ⟨hw.pushField o slot, rfl, hholdings⟩

/-- Writing by number. -/
theorem write (hw : w.Tidy) {o : ObjectRef} {index v : Value} (hv : v.Within w.classes.next) :
    (w.touch (.write o index v)).2.Tidy ∧
      (w.touch (.write o index v)).1 = (w.holdings.touch (.write o index v)).1 ∧
      (w.touch (.write o index v)).2.holdings = (w.holdings.touch (.write o index v)).2 := by
  obtain ⟨s, h⟩ := hw.sound
  have hw' : (w.migrate (.object o)).Tidy := (World.Change.updateLayout o).tidy hw
  have hholdings := w.holdings_migrate o
  have hplace : w.holdings.place o [.object o, index, v] "instVarAt:put:" =
      place [.object o, index, v] 1
        ((w.migrate (.object o)).heap.instance_ o).layout.fieldCount "instVarAt:put:" := by
    rw [Holdings.place, get_holdings, h.heap.current_size h.classes]
    exact congrArg (fun i : Instance => place _ 1 i.layout.fieldCount _)
      (w.heap.updateLayout_instance w.classes o).symm
  have hnext : (w.migrate (.object o)).classes.next = w.classes.next := rfl
  have htouch : w.touch (.write o index v) =
      (some (Objects.instVarAtPut [.object o, index, v] w).1,
        (Objects.instVarAtPut [.object o, index, v] w).2) := rfl
  rw [htouch, Objects.instVarAtPut_popField, Holdings.touch, hplace]
  generalize w.migrate (.object o) = w' at *
  cases place [.object o, index, v] 1 (w'.heap.instance_ o).layout.fieldCount "instVarAt:put:" with
  | error f => exact ⟨hw', rfl, hholdings⟩
  | ok slot =>
    obtain ⟨s', h'⟩ := hw'.sound
    obtain ⟨hjob, hpop⟩ := h'.popField o slot v
    rw [hholdings] at hjob hpop
    dsimp only
    rw [hjob]
    exact ⟨hw'.popField o slot (hnext ▸ hv), rfl, hpop⟩

end Tidy

/-- A touch that reads by number, of an instance that lags. -/
def Lagging (w : World) : Touch → Prop
  | .read o index => w.Lags [.object o, index]
  | _ => False

/-- A touch of a tidy world is answered as in the book, and leaves what is in the book. -/
theorem Tidy.touch (hw : w.Tidy) {τ : Touch} (hτ : τ.Within w.classes.next)
    (hlags : ¬ w.Lagging τ) : (w.touch τ).2.Tidy ∧ (w.touch τ).1 = (w.holdings.touch τ).1 ∧
      (w.touch τ).2.holdings = (w.holdings.touch τ).2 := by
  obtain ⟨s, h⟩ := hw.sound
  cases τ with
  | grow c field =>
    exact ⟨(World.Change.addField c field).tidy hw, rfl, hw.holdings_addField hτ field⟩
  | make c => exact ⟨(World.Change.newInstance hτ).tidy hw, rfl, hw.holdings_newInstance c⟩
  | catchUp o => exact ⟨(World.Change.updateLayout o).tidy hw, rfl, w.holdings_migrate o⟩
  | push o slot =>
    obtain ⟨hjob, hholdings⟩ := h.pushField o slot
    rw [World.touch, Holdings.touch, hjob]
    exact ⟨hw.pushField o slot, rfl, hholdings⟩
  | pop o slot v =>
    obtain ⟨hjob, hholdings⟩ := h.popField o slot v
    rw [World.touch, Holdings.touch, hjob]
    dsimp only
    exact ⟨hw.popField o slot hτ, rfl, hholdings⟩
  | read o index => exact hw.read hlags
  | write o index v => exact hw.write hτ

@[simp] theorem pushField_classes (w : World) (o : ObjectRef) (slot : Nat) :
    (w.pushField o slot).2.classes = w.classes := by
  rw [pushField]
  split <;> rfl

@[simp] theorem popField_classes (w : World) (o : ObjectRef) (slot : Nat) (v : Value) :
    (w.popField o slot v).2.classes = w.classes := by
  rw [popField]
  split <;> rfl

/-- No touch makes classes. -/
theorem touch_next (w : World) (τ : Touch) : (w.touch τ).2.classes.next = w.classes.next := by
  cases τ with
  | grow c field =>
    show (w.addField c field).2.classes.next = _
    rw [addField, note_classes]
    exact Array.size_modify
  | make c | catchUp o => rfl
  | push o slot => rw [touch, pushField_classes]
  | pop o slot v => rw [touch, popField_classes]
  | read o index =>
    show (Objects.instVarAt [.object o, index] w).2.classes.next = _
    rw [Objects.instVarAt_eq]
    split
    · rfl
    · rw [pushField_classes]
  | write o index v =>
    show (Objects.instVarAtPut [.object o, index, v] w).2.classes.next = _
    rw [Objects.instVarAtPut_popField]
    split
    · rfl
    · rw [popField_classes]
      rfl

/-! ### Histories -/

/-- A history in which no instance lags when it is read by number. -/
def Prompt (w : World) : List Touch → Prop
  | [] => True
  | τ :: ts => ¬ w.Lagging τ ∧ Prompt (w.touch τ).2 ts

/-- All accesses of a history are answered as in the book. -/
theorem Tidy.replies (hw : w.Tidy) {ts : List Touch} (hts : ∀ τ ∈ ts, τ.Within w.classes.next)
    (hprompt : w.Prompt ts) : w.replies ts = w.holdings.replies ts := by
  induction ts generalizing w with
  | nil => rfl
  | cons τ ts ih =>
    obtain ⟨hlags, hrest⟩ := hprompt
    obtain ⟨hw', hreply, hholdings⟩ := hw.touch (hts τ List.mem_cons_self) hlags
    have hts' : ∀ τ' ∈ ts, τ'.Within (w.touch τ).2.classes.next := fun τ' hτ' => by
      rw [touch_next]
      exact hts τ' (List.mem_cons_of_mem _ hτ')
    rw [World.replies, Holdings.replies, ih hw' hts' hrest, hreply, hholdings]

end World

/-- Whether a touch is not only that an instance catches up. -/
def Touch.matters : Touch → Bool
  | .catchUp _ => false
  | _ => true

/-- In the book, nothing comes of catching up. -/
theorem Holdings.replies_filter (b : Holdings) (ts : List Touch) :
    b.replies (ts.filter Touch.matters) = b.replies ts := by
  induction ts generalizing b with
  | nil => rfl
  | cons τ ts ih =>
    cases τ with
    | catchUp o => exact ih b
    | _ => exact congrArg (_ ++ ·) (ih _)

/-- Two histories that differ only in where instances catch up are answered the same, which is what
    the book says. -/
theorem World.Tidy.unnoticed (hw : w.Tidy) {ts ts' : List Touch}
    (hts : ∀ τ ∈ ts, τ.Within w.classes.next)
    (hsame : ts'.filter Touch.matters = ts.filter Touch.matters)
    (hprompt : w.Prompt ts) (hprompt' : w.Prompt ts') :
    w.replies ts' = w.replies ts ∧ w.replies ts = w.holdings.replies (ts.filter Touch.matters) := by
  have hts' : ∀ τ ∈ ts', τ.Within w.classes.next := by
    intro τ hτ
    by_cases hm : τ.matters
    · exact hts τ (List.mem_filter.1 (hsame ▸ List.mem_filter.2 ⟨hτ, hm⟩)).1
    · cases τ with
      | catchUp o => trivial
      | _ => exact absurd rfl hm
  rw [hw.replies hts hprompt, hw.replies hts' hprompt', ← Holdings.replies_filter _ ts', hsame,
    Holdings.replies_filter]
  exact ⟨rfl, rfl⟩

/-- An object gets two fields. The first is written and the second pushed before the object is asked
    for it by its number. -/
def World.belated : List Touch :=
  [.make Core.object, .grow Core.object "x", .write 0 (.int 1) (.int 7),
    .grow Core.object "y", .push 0 1, .read 0 (.int 2), .read 0 (.int 3)]

/-- The object catches up as soon as it can. -/
def World.timely : List Touch :=
  [.make Core.object, .grow Core.object "x", .catchUp 0, .write 0 (.int 1) (.int 7),
    .grow Core.object "y", .catchUp 0, .push 0 1, .read 0 (.int 2), .read 0 (.int 3)]

theorem World.Tidy.object_lt (hw : w.Tidy) : Core.object < w.classes.next := by
  obtain ⟨s, h⟩ := hw.sound
  have hlibrary : Core.object < 28 := by decide
  exact h.next_eq ▸ hlibrary.trans_le h.stock.library

theorem World.not_lags {index : Value} (h : w.isOutdated (.object o) = false) :
    ¬ w.Lags [.object o, index] := by
  rintro ⟨_, _, ⟨⟩, -, hold, -⟩
  rw [h] at hold
  cases hold

theorem World.Tidy.unnoticed_belated : ∃ w : World, w.replies timely = w.replies belated ∧
    (w.replies belated).map (fun job => Machine.outcome ⟨w, job, []⟩) =
      [.value (.int 7), .value .nil, .value .nil,
        .unwound (.failed (.indexOutOfBounds 3 "Object" 2))] := by
  let w : World := .bare .standard .standard .kept false
  have hw : w.Tidy :=
    ⟨World.bare_sound _ _ _ _, fun _ hi => absurd hi (Array.not_mem_empty _)⟩
  have hwithin : ∀ τ ∈ belated, τ.Within w.classes.next := by
    simp [belated, Touch.Within, Value.Within, hw.object_lt]
  have hmatters : timely.filter Touch.matters = belated.filter Touch.matters := rfl
  obtain ⟨hsame, hbook⟩ := hw.unnoticed hwithin hmatters
    ⟨id, id, id, id, id, not_lags (by decide +kernel), not_lags (by decide +kernel), trivial⟩
    ⟨id, id, id, id, id, id, id, not_lags (by decide +kernel), not_lags (by decide +kernel),
      trivial⟩
  refine ⟨w, hsame, ?_⟩
  rw [hbook]
  decide +kernel

end Parley
