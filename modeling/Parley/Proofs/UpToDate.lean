import Parley.Proofs.Tables

/-!
# Instances up to date

When an instance catches up with its class depends on who looks at it and how. This module shows
that it matters little: a heap in which every instance has caught up (`Heap.current`) answers
every access to a field like the heap itself, and what becomes of the one by an access is what
becomes of the other, brought up to date.

* `Heap.Sound.readField_current`, `Heap.Sound.writeField_current`: accesses to fields;
* `Heap.updateLayout_current`: an instance that is brought up to date before its turn;
* `Heap.Sound.current_later`: classes that get more fields.
-/

namespace Parley

variable {s s' : Stock} {t t' : ClassTable} {h : Heap} {o : ObjectRef}

/-! ### Instances -/

/-- An instance in the layout that its class has in a table. -/
def Instance.current (t : ClassTable) (i : Instance) : Instance :=
  let layout := (t.get i.cls).layout
  if i.layout.id = layout.id then i else Heap.Instance.migrated i layout

namespace Instance

variable {i : Instance}

theorem current_of_eq (hid : i.layout.id = (t.get i.cls).layout.id) : i.current t = i :=
  if_pos hid

theorem current_of_ne (hid : i.layout.id ≠ (t.get i.cls).layout.id) :
    i.current t = Heap.Instance.migrated i (t.get i.cls).layout :=
  if_neg hid

@[simp] theorem current_cls (t : ClassTable) (i : Instance) : (i.current t).cls = i.cls := by
  by_cases hid : i.layout.id = (t.get i.cls).layout.id
  · rw [current_of_eq hid]
  · rw [current_of_ne hid]
    rfl

theorem current_id (t : ClassTable) (i : Instance) :
    (i.current t).layout.id = (t.get i.cls).layout.id := by
  by_cases hid : i.layout.id = (t.get i.cls).layout.id
  · rw [current_of_eq hid, hid]
  · rw [current_of_ne hid]
    rfl

@[simp] theorem current_current (t : ClassTable) (i : Instance) :
    (i.current t).current t = i.current t := by
  refine current_of_eq ?_
  rw [current_cls, current_id]

/-- To migrate to a larger layout is to append fields that are nil. -/
theorem migrated_fields {layout : Layout} (hle : i.fields.size ≤ layout.fieldCount) :
    (Heap.Instance.migrated i layout).fields =
      i.fields ++ Array.replicate (layout.fieldCount - i.fields.size) .nil := by
  rw [Heap.Instance.migrated, Array.extract_eq_self_of_le hle]

/-- To catch up twice is to catch up once. -/
theorem migrated_migrated {l l' : Layout} (hle : i.fields.size ≤ l.fieldCount)
    (hle' : l.fieldCount ≤ l'.fieldCount) :
    Heap.Instance.migrated (Heap.Instance.migrated i l) l' = Heap.Instance.migrated i l' := by
  have hsize : (Heap.Instance.migrated i l).fields.size = l.fieldCount := by
    rw [migrated_fields hle, Array.size_append, Array.size_replicate]
    omega
  -- What is appended in two goes is as many times nil as what is appended in one.
  have hfields : (Heap.Instance.migrated (Heap.Instance.migrated i l) l').fields =
      (Heap.Instance.migrated i l').fields := by
    rw [migrated_fields (hsize.trans_le hle'), migrated_fields (hle.trans hle'), hsize,
      migrated_fields hle, Array.append_assoc, Array.replicate_append_replicate]
    congr 2
    omega
  exact congrArg (Instance.mk i.cls l') hfields

/-- The fields that an instance has are those it has when it is up to date. -/
theorem Sound.current_getElem? (hi : i.Sound s) (ht : t.Sound s) {j : Nat}
    (hj : j < i.fields.size) : (i.current t).fields[j]? = i.fields[j]? := by
  by_cases hid : i.layout.id = (t.get i.cls).layout.id
  · rw [current_of_eq hid]
  -- The class has no fewer fields than the instance, so that none is cut off.
  · have hle : i.fields.size ≤ (t.get i.cls).layout.fieldCount :=
      hi.size.trans_le (ht.table ▸ hi.room)
    rw [current_of_ne hid, migrated_fields hle, Array.getElem?_append_left hj]

/-- To write a field that is there and then catch up is to catch up and then write it. -/
theorem Sound.current_setField (hi : i.Sound s) (ht : t.Sound s) {j : Nat}
    (hj : j < i.fields.size) (v : Value) :
    Instance.current t { i with fields := i.fields.setIfInBounds j v } =
      { i.current t with fields := (i.current t).fields.setIfInBounds j v } := by
  let i' : Instance := { i with fields := i.fields.setIfInBounds j v }
  by_cases hid : i.layout.id = (t.get i.cls).layout.id
  · have hid' : i'.layout.id = (t.get i'.cls).layout.id := hid
    rw [current_of_eq hid, current_of_eq hid']
  · have hid' : i'.layout.id ≠ (t.get i'.cls).layout.id := hid
    have hle : i.fields.size ≤ (t.get i.cls).layout.fieldCount :=
      hi.size.trans_le (ht.table ▸ hi.room)
    have hle' : i'.fields.size ≤ (t.get i.cls).layout.fieldCount :=
      Array.size_setIfInBounds.trans_le hle
    rw [current_of_ne hid, current_of_ne hid']
    refine congrArg (Instance.mk i.cls _) ((migrated_fields hle').trans ?_)
    rw [migrated_fields hle, Array.setIfInBounds_append_left hj, Array.size_setIfInBounds]

/-- An instance that catches up with an earlier table, and then with a later one, has caught up
    with the later one. -/
theorem Sound.current_later (hi : i.Sound s) (ht : t.Sound s) (ht' : t'.Sound s')
    (hs : s.Le s') : (i.current t).current t' = i.current t' := by
  by_cases hid : i.layout.id = (t.get i.cls).layout.id
  · rw [current_of_eq hid]
  have hlater := hs.layout i.cls hi.cls
  rw [ht.table, ht'.table] at hlater
  rw [current_of_ne hid]
  have hcls : (Heap.Instance.migrated i (t.get i.cls).layout).cls = i.cls := rfl
  rcases hlater with heq | ⟨hnew, hcount⟩
  · have hid' : i.layout.id ≠ (t'.get i.cls).layout.id := heq ▸ hid
    rw [current_of_ne hid', heq]
    exact current_of_eq (by rw [hcls, heq]; rfl)
  · -- A layout that was made later is neither that of the instance nor the one before.
    have hid' : i.layout.id ≠ (t'.get i.cls).layout.id := (hi.layout_lt.trans_le hnew).ne
    have hid'' : (t.get i.cls).layout.id ≠ (t'.get i.cls).layout.id :=
      ((ht.layout_lt i.cls hi.cls).trans_le hnew).ne
    rw [current_of_ne hid', current_of_ne (by rw [hcls]; exact hid''), hcls]
    exact migrated_migrated (hi.size.trans_le (ht.table ▸ hi.room)) hcount

end Instance

/-! ### Heaps -/

/-- A heap with every instance brought up to date. -/
def Heap.current (h : Heap) (t : ClassTable) : Heap :=
  { h with instances := h.instances.map (Instance.current t) }

namespace Heap

@[simp] theorem current_array (h : Heap) (t : ClassTable) (a : ArrayRef) :
    (h.current t).array a = h.array a :=
  rfl

@[simp] theorem current_closure (h : Heap) (t : ClassTable) (b : BlockRef) :
    (h.current t).closure b = h.closure b :=
  rfl

@[simp] theorem current_frame (h : Heap) (t : ClassTable) (f : FrameRef) :
    (h.current t).frame f = h.frame f :=
  rfl

@[simp] theorem current_enclosing? (h : Heap) (t : ClassTable) (f : FrameRef) (level : Nat) :
    (h.current t).enclosing? f level = h.enclosing? f level :=
  rfl

@[simp] theorem current_current (h : Heap) (t : ClassTable) :
    (h.current t).current t = h.current t := by
  simp only [current, Array.map_map]
  congr 2
  funext i
  exact i.current_current t

/-- A place in the heap holds an instance, or nothing that was ever made. -/
theorem instance_cases (h : Heap) (t : ClassTable) (o : ObjectRef) :
    (∃ i, h.instances[o]? = some i ∧ h.instance_ o = i ∧
      (h.current t).instance_ o = i.current t) ∨
    (h.instances[o]? = none ∧ (h.current t).instances[o]? = none ∧ h.instance_ o = default ∧
      (h.current t).instance_ o = default) := by
  cases hi : h.instances[o]? with
  | none => simp [instance_, current, Array.getD_eq_getD_getElem?, hi]
  | some i => simp [instance_, current, Array.getD_eq_getD_getElem?, hi]

@[simp] theorem current_instance_cls (h : Heap) (t : ClassTable) (o : ObjectRef) :
    ((h.current t).instance_ o).cls = (h.instance_ o).cls := by
  rcases h.instance_cases t o with ⟨i, -, hi, hi'⟩ | ⟨-, -, hi, hi'⟩
  · rw [hi, hi', Instance.current_cls]
  · rw [hi, hi']

/-- An instance with the layout of its class is what it is when all are up to date. -/
theorem current_instance_of_eq
    (hid : (h.instance_ o).layout.id = (t.get (h.instance_ o).cls).layout.id) :
    (h.current t).instance_ o = h.instance_ o := by
  rcases h.instance_cases t o with ⟨i, -, hi, hi'⟩ | ⟨-, -, hi, hi'⟩
  · rw [hi] at hid
    rw [hi', hi, Instance.current_of_eq hid]
  · rw [hi, hi']

theorem modify_of_none {α : Type} {xs : Array α} {n : Nat} (hn : xs[n]? = none) (f : α → α) :
    xs.modify n f = xs := by
  ext1
  · exact Array.size_modify
  · rename_i j hj hj'
    rw [Array.getElem_modify, if_neg]
    rintro rfl
    rw [Array.getElem?_eq_getElem hj'] at hn
    cases hn

theorem updateLayout_of_none (hn : h.instances[o]? = none) (t : ClassTable) :
    (h.updateLayout t o).2 = h := by
  rw [updateLayout]
  split
  · rfl
  · rw [modify_of_none hn]

/-- Bringing one instance up to date is not seen when all are brought up to date. -/
theorem updateLayout_current (h : Heap) (t : ClassTable) (o : ObjectRef) :
    (h.updateLayout t o).2.current t = h.current t := by
  rw [updateLayout]
  split
  · rfl
  rename_i hid
  rw [current, current, Heap.mk.injEq]
  refine ⟨rfl, ?_, rfl, rfl⟩
  ext1
  · simp
  rename_i j hj hj'
  rw [Array.getElem_map, Array.getElem_map, Array.getElem_modify]
  split
  · rename_i hoj
    subst hoj
    -- The one instance that is changed has the layout of its class then.
    have hlt : o < h.instances.size := by simpa using hj'
    have hio : h.instance_ o = h.instances[o] := by
      rw [instance_, Array.getD_eq_getD_getElem?, Array.getElem?_eq_getElem hlt, Option.getD_some]
    simp only [hio] at hid ⊢
    rw [Instance.current_of_ne hid]
    exact Instance.current_of_eq rfl
  · rfl

/-- Where all instances are up to date, none is brought up to date. -/
theorem current_updateLayout (h : Heap) (t : ClassTable) (o : ObjectRef) :
    ((h.current t).updateLayout t o).2 = h.current t := by
  rcases h.instance_cases t o with ⟨i, -, -, hi'⟩ | ⟨-, hn, -, -⟩
  · rw [updateLayout, hi']
    rw [if_pos]
    rw [Instance.current_id, Instance.current_cls]
  · exact updateLayout_of_none hn t

/-- An instance that was brought up to date is what it is when all are. -/
theorem updateLayout_instance (h : Heap) (t : ClassTable) (o : ObjectRef) :
    (h.updateLayout t o).2.instance_ o = (h.current t).instance_ o := by
  rcases h.instance_cases t o with ⟨i, hsome, hi, hi'⟩ | ⟨hn, -, hi, hi'⟩
  · rw [hi', updateLayout, hi]
    by_cases hid : i.layout.id = (t.get i.cls).layout.id
    · rw [if_pos hid, Instance.current_of_eq hid, hi]
    · rw [if_neg hid, Instance.current_of_ne hid]
      simp [instance_, Array.getD_eq_getD_getElem?, Array.getElem?_modify, hsome]
  · rw [updateLayout_of_none hn, hi, hi']

/-- A new instance is up to date. -/
theorem newInstance_current (h : Heap) (t : ClassTable) (c : ClassRef) :
    (h.current t).newInstance c (t.get c).layout =
      ((h.newInstance c (t.get c).layout).1, (h.newInstance c (t.get c).layout).2.current t) := by
  have hnew : ∀ fields, Instance.current t ⟨c, (t.get c).layout, fields⟩ =
      ⟨c, (t.get c).layout, fields⟩ := fun fields => Instance.current_of_eq rfl
  simp [newInstance, current, hnew]

/-- Where all instances are up to date, a field that is not there stays away. -/
theorem current_readField (h : Heap) (t : ClassTable) (o : ObjectRef) (j : Nat) :
    (h.current t).readField t o j = (((h.current t).instance_ o).fields[j]?, h.current t) := by
  rw [Heap.readField]
  split
  · rename_i v hv
    rw [hv]
  · have hsame := h.current_updateLayout t o
    generalize (h.current t).updateLayout t o = r at hsame ⊢
    obtain ⟨changed, h'⟩ := r
    obtain rfl : h' = h.current t := hsame
    rfl

theorem current_writeField (h : Heap) (t : ClassTable) (o : ObjectRef) (j : Nat) (v : Value) :
    (h.current t).writeField t o j v =
      if j < ((h.current t).instance_ o).fields.size then
        (true, { h.current t with
          instances := (h.current t).instances.modify o fun i =>
            { i with fields := i.fields.setIfInBounds j v } })
      else (false, h.current t) := by
  rw [Heap.writeField, current_updateLayout, ite_self]

namespace Sound

/-- Reading a field, whether or not the instance is up to date. -/
theorem readField_current (hh : h.Sound s) (hs : s.Regular) (ht : t.Sound s) (o : ObjectRef)
    (j : Nat) : (h.current t).readField t o j =
      ((h.readField t o j).1, (h.readField t o j).2.current t) := by
  have hi := hh.instance_ hs o
  by_cases hj : j < (h.instance_ o).fields.size
  · have hfields : ((h.current t).instance_ o).fields[j]? = (h.instance_ o).fields[j]? := by
      rcases h.instance_cases t o with ⟨i, -, hio, hi'⟩ | ⟨-, -, hio, hi'⟩
      · rw [hio] at hi hj
        rw [hi', hio, hi.current_getElem? ht hj]
      · rw [hio, hi']
    -- Neither heap has to be brought up to date to read a field that is there.
    rw [Heap.readField, Heap.readField, hfields, Array.getElem?_eq_getElem hj]
  · have hnone : (h.instance_ o).fields[j]? = none := by
      rw [Array.getElem?_eq_none_iff]
      omega
    rw [current_readField, Heap.readField, hnone]
    dsimp only
    rw [updateLayout_instance, updateLayout_current]

/-- A field that an instance has may be written before or after all are brought up to date. -/
theorem setField_current (hh : h.Sound s) (ht : t.Sound s) {j : Nat}
    (hj : j < (h.instance_ o).fields.size) (v : Value) :
    Heap.current { h with
        instances := h.instances.modify o fun i =>
          { i with fields := i.fields.setIfInBounds j v } } t =
      { h.current t with
        instances := (h.current t).instances.modify o fun i =>
          { i with fields := i.fields.setIfInBounds j v } } := by
  rw [current, current, Heap.mk.injEq]
  refine ⟨rfl, ?_, rfl, rfl⟩
  ext1
  · simp
  rename_i k hk hk'
  have hlt : k < h.instances.size := by simpa using hk
  simp only [Array.getElem_map, Array.getElem_modify]
  by_cases hok : o = k
  · subst hok
    have hio : h.instance_ o = h.instances[o] := by
      rw [Heap.instance_, Array.getD_eq_getD_getElem?, Array.getElem?_eq_getElem hlt,
        Option.getD_some]
    rw [if_pos rfl, if_pos rfl]
    exact (hh.instances _ (Array.getElem_mem hlt)).current_setField ht (hio ▸ hj) v
  · rw [if_neg hok, if_neg hok]

/-- An instance has no fewer fields when it is up to date. -/
theorem size_le_current (hh : h.Sound s) (hs : s.Regular) (ht : t.Sound s) (o : ObjectRef) :
    (h.instance_ o).fields.size ≤ ((h.current t).instance_ o).fields.size := by
  have hi := hh.instance_ hs o
  rcases h.instance_cases t o with ⟨i, -, hio, hi'⟩ | ⟨-, -, hio, hi'⟩
  · rw [hio] at hi ⊢
    rw [hi']
    by_contra hlt
    have hget := hi.current_getElem? ht (Nat.lt_of_not_le hlt)
    rw [Array.getElem?_eq_none_iff.2 le_rfl, Array.getElem?_eq_getElem (Nat.lt_of_not_le hlt)]
      at hget
    cases hget
  · rw [hio, hi']

/-- Nor has its layout. -/
theorem fieldCount_le_current (hh : h.Sound s) (hs : s.Regular) (ht : t.Sound s) (o : ObjectRef) :
    (h.instance_ o).layout.fieldCount ≤ ((h.current t).instance_ o).layout.fieldCount := by
  have hi := hh.instance_ hs o
  rcases h.instance_cases t o with ⟨i, -, hio, hi'⟩ | ⟨-, -, hio, hi'⟩
  · rw [hio] at hi ⊢
    rw [hi']
    by_cases hid : i.layout.id = (t.get i.cls).layout.id
    · rw [Instance.current_of_eq hid]
    · rw [Instance.current_of_ne hid]
      exact ht.table ▸ hi.room
  · rw [hio, hi']

/-- Writing a field, whether or not the instance is up to date. -/
theorem writeField_current (hh : h.Sound s) (hs : s.Regular) (ht : t.Sound s) (o : ObjectRef)
    (j : Nat) (v : Value) : (h.current t).writeField t o j v =
      ((h.writeField t o j v).1, (h.writeField t o j v).2.current t) := by
  -- The heap that is written to, up to date or not.
  let g := if j < (h.instance_ o).fields.size then h else (h.updateLayout t o).2
  have hg : g.Sound s := by
    dsimp only [g]
    split
    · exact hh
    · exact hh.updateLayout ht o
  have hcurrent : g.current t = h.current t := by
    dsimp only [g]
    split
    · rfl
    · exact h.updateLayout_current t o
  -- Whether there is such a field is the same by then.
  have hsize : j < (g.instance_ o).fields.size ↔ j < ((h.current t).instance_ o).fields.size := by
    dsimp only [g]
    split
    · rename_i hj
      exact ⟨fun _ => hj.trans_le (hh.size_le_current hs ht o), fun _ => hj⟩
    · rw [updateLayout_instance]
  rw [current_writeField]
  show _ = (_, Heap.current (h.writeField t o j v).2 t)
  by_cases hj : j < (g.instance_ o).fields.size
  · have hw : h.writeField t o j v = (true, { g with
        instances := g.instances.modify o fun i =>
          { i with fields := i.fields.setIfInBounds j v } }) := if_pos hj
    rw [if_pos (hsize.1 hj), hw, hg.setField_current ht hj, hcurrent]
  · have hw : h.writeField t o j v = (false, g) := if_neg hj
    rw [if_neg (fun hj' => hj (hsize.2 hj')), hw, hcurrent]

/-- A heap that is brought up to date with an earlier table, and then with a later one. -/
theorem current_later (hh : h.Sound s) (ht : t.Sound s) (ht' : t'.Sound s') (hs : s.Le s') :
    (h.current t).current t' = h.current t' := by
  simp only [Heap.current, Array.map_map]
  congr 1
  refine Array.map_congr_left fun i hi => ?_
  exact (hh.instances i hi).current_later ht ht' hs

end Sound

end Heap

end Parley
