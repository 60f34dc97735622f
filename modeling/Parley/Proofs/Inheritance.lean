import Parley.Proofs.Lowering
import Parley.Proofs.Tables

/-!
# Inherited fields

A class starts with the fields of its superclass, in their order. They are copied, so that a field
which is added to a class that has subclasses already is not one of theirs: a method of the class
that reads it finds, in an instance of a subclass, whatever field that has in its place.

* `ClassTable.Grows.inherits`: as long as fields are only added to classes without subclasses, a
  name in a method of a class denotes the field of that name in its instances and in those of its
  subclasses, whenever the method was compiled and whatever classes and fields there are since. The
  number of the field has to fit into a byte, though.
* `ClassTable.addField_above`: what happens to other classes when a class gets a field.
-/

namespace Parley

variable {s : Stock} {t t' t'' : ClassTable} {name : String}

namespace ClassTable

/-! ### Changes of a table -/

/-- A table with more classes and more fields. -/
structure Extends (t t' : ClassTable) : Prop where
  next_le : t.next ≤ t'.next
  fields : ∀ c < t.next, (t.get c).fields <+: (t'.get c).fields

/-- Every class has the fields of the classes above it first. -/
def Inheriting (t : ClassTable) : Prop :=
  ∀ c, ∀ a ∈ (t.get c).lineage, (t.get a).fields <+: (t.get c).fields

theorem Extends.refl (t : ClassTable) : t.Extends t :=
  ⟨le_rfl, fun _ _ => List.prefix_rfl⟩

theorem Extends.trans (h : t.Extends t') (h' : t'.Extends t'') : t.Extends t'' where
  next_le := h.next_le.trans h'.next_le
  fields c hc := (h.fields c hc).trans (h'.fields c (hc.trans_le h.next_le))

/-- Nothing is changed that has to do with fields. -/
structure Alike (t t' : ClassTable) : Prop where
  next : t'.next = t.next
  lineage : ∀ c, (t'.get c).lineage = (t.get c).lineage
  fields : ∀ c, (t'.get c).fields = (t.get c).fields

theorem Alike.extends_ (h : t.Alike t') : t.Extends t' :=
  ⟨h.next.ge, fun c _ => h.fields c ▸ List.prefix_rfl⟩

theorem Alike.inheriting (h : t.Alike t') (hi : t.Inheriting) : t'.Inheriting := by
  intro c a ha
  rw [h.fields, h.fields]
  exact hi c a (h.lineage c ▸ ha)

theorem modify_alike (t : ClassTable) (c : ClassRef) {f : Class → Class} {epoch : Nat}
    (hlineage : ∀ k, (f k).lineage = k.lineage) (hfields : ∀ k, (f k).fields = k.fields) :
    t.Alike { t with classes := t.classes.modify c f, epoch } := by
  have hget : ∀ c', get { t with classes := t.classes.modify c f, epoch } c' =
      if c = c' ∧ c' < t.classes.size then f (t.get c') else t.get c' := t.get_modify c f
  refine ⟨Array.size_modify, fun c' => ?_, fun c' => ?_⟩
  · rw [hget]
    split
    · exact hlineage _
    · rfl
  · rw [hget]
    split
    · exact hfields _
    · rfl

theorem install_alike (t : ClassTable) (c : ClassRef) (i : Invokable) : t.Alike (t.install c i) :=
  t.modify_alike c (fun _ => rfl) fun _ => rfl

theorem register_alike (t : ClassTable) (c : ClassRef) : t.Alike (t.register c) :=
  ⟨rfl, fun _ => rfl, fun _ => rfl⟩

/-! ### New classes -/

theorem get_add_of_lt (t : ClassTable) (k : Class) {c : ClassRef} (hc : c < t.next) :
    (t.add k).get c = t.get c := by
  rw [get_add, if_neg hc.ne]

theorem add_extends (t : ClassTable) (k : Class) : t.Extends (t.add k) where
  next_le := (Nat.le_succ _).trans_eq (Array.size_push _).symm
  fields c hc := by simp only [t.get_add_of_lt k hc, List.prefix_rfl]

theorem Sound.next_eq (hs : t.Sound s) : t.next = s.classes :=
  hs.size

theorem Inheriting.add (hi : t.Inheriting) (hs : t.Sound s) (name : String) {super : ClassRef}
    (fields : List String) (hsuper : super < s.classes) :
    (t.add (t.make name (some super) fields)).Inheriting := by
  have hold : ∀ a < s.classes, (t.add (t.make name (some super) fields)).get a = t.get a :=
    fun a ha => t.get_add_of_lt _ (hs.next_eq ▸ ha)
  intro c a ha
  by_cases hc : c = t.next
  · have hnew : (t.add (t.make name (some super) fields)).get c =
      t.make name (some super) fields := by
      rw [get_add, if_pos hc]
    rw [hnew] at ha ⊢
    -- The new class has the fields of its superclass, and so those of the classes above that.
    rcases List.mem_cons.1 ha with rfl | ha
    · rw [hold a hsuper]
      exact List.prefix_append _ _
    · rw [hold a (hs.lineage super a ha)]
      exact (hi super a ha).trans (List.prefix_append _ _)
  · have hsame : (t.add (t.make name (some super) fields)).get c = t.get c := by
      rw [get_add, if_neg hc]
    rw [hsame] at ha ⊢
    rw [hold a (hs.lineage c a ha)]
    exact hi c a ha

/-- The metaclass of a new class is a subclass of one that there is. -/
theorem Inheriting.attach (hi : t.Inheriting) (hs : t.Sound s) (c : ClassRef) {root : ClassRef}
    (hroot : root < s.classes) : t.Extends (t.attach c root) ∧ (t.attach c root).Inheriting := by
  have hsuper : ((t.get c).superclass.bind t.metaclass?).getD root < s.classes := by
    cases hm : (t.get c).superclass.bind t.metaclass? with
    | none => exact hroot
    | some m =>
      obtain ⟨a, -, ha⟩ := Option.bind_eq_some_iff.1 hm
      exact hs.metaclass a m ha
  have halike : (t.add (t.make (t.name c ++ " class") (some _) [])).Alike (t.attach c root) :=
    modify_alike _ c (fun _ => rfl) fun _ => rfl
  exact ⟨(t.add_extends _).trans halike.extends_, halike.inheriting (hi.add hs _ [] hsuper)⟩

theorem Inheriting.define (hi : t.Inheriting) (hs : t.Sound s) (name : String) {super : ClassRef}
    (fields : List String) (hsuper : super < s.classes) (hroot : Core.class < s.classes) :
    t.Extends (t.define name super fields) ∧ (t.define name super fields).Inheriting := by
  have hadd := add_grown hs name (some super) fields fun _ he => Option.some.inj he ▸ hsuper
  obtain ⟨hext, hinh⟩ := (hi.add hs name fields hsuper).attach hadd.sound t.next
    (hroot.trans_le hadd.le.classes)
  have hregister := register_alike
    ((t.add (t.make name (some super) fields)).attach t.next Core.class) t.next
  exact ⟨((t.add_extends _).trans hext).trans hregister.extends_, hregister.inheriting hinh⟩

/-! ### New fields -/

theorem lineage_addField (t : ClassTable) (c : ClassRef) (name : String) (c' : ClassRef) :
    ((t.addField c name).get c').lineage = (t.get c').lineage := by
  rw [get_addField]
  split <;> rfl

theorem prefix_addField (t : ClassTable) (c : ClassRef) (name : String) (c' : ClassRef) :
    (t.get c').fields <+: ((t.addField c name).get c').fields := by
  rw [get_addField]
  split
  · exact List.prefix_append _ _
  · exact List.prefix_rfl

theorem addField_extends (t : ClassTable) (c : ClassRef) (name : String) :
    t.Extends (t.addField c name) :=
  ⟨Array.size_modify.ge, fun c' _ => t.prefix_addField c name c'⟩

/-- A field that is added to a class without subclasses. -/
theorem Inheriting.addField (hi : t.Inheriting) {c : ClassRef}
    (hc : ∀ k, c ∉ (t.get k).lineage) (name : String) : (t.addField c name).Inheriting := by
  intro k a ha
  rw [lineage_addField] at ha
  have hne : c ≠ a := fun h => hc k (h ▸ ha)
  rw [t.get_addField c name a, if_neg fun h => hne h.1]
  exact (hi k a ha).trans (t.prefix_addField c name k)

/-! ### Histories of a table -/

/-- What becomes of a table when classes are made, fields added and methods installed, one after
    another. Fields are added to classes without subclasses only. -/
inductive Grows (t : ClassTable) : ClassTable → Prop
  | refl : Grows t t
  | define {t' : ClassTable} (name : String) {super : ClassRef} (fields : List String) :
      Grows t t' → super < t'.next → Grows t (t'.define name super fields)
  | addField {t' : ClassTable} {c : ClassRef} (name : String) :
      Grows t t' → (∀ k, c ∉ (t'.get k).lineage) → Grows t (t'.addField c name)
  | install {t' : ClassTable} (c : ClassRef) (i : Invokable) :
      Grows t t' → Grows t (t'.install c i)

/-- A table with the classes of the library and whatever methods, in which every class has the
    fields of the classes above it first. -/
structure Orderly (t : ClassTable) : Prop where
  inheriting : t.Inheriting
  stock : ∃ s, t.Sound s ∧ s.written = Set.univ ∧ Core.class < s.classes

theorem Grown.stock {t₀ : ClassTable} {s₀ : Stock} (hg : t₀.Grown s₀ t s)
    (hw : s₀.written = Set.univ) (hroot : Core.class < s₀.classes) :
    ∃ s, t.Sound s ∧ s.written = Set.univ ∧ Core.class < s.classes :=
  ⟨s, hg.sound, hg.written.trans hw, hroot.trans_le hg.le.classes⟩

theorem Grows.orderly (hg : t.Grows t') (h : t.Orderly) : t'.Orderly ∧ t.Extends t' := by
  induction hg with
  | refl => exact ⟨h, .refl t⟩
  | define name fields _ hsuper ih =>
    obtain ⟨⟨hi, s, hs, hw, hroot⟩, hext⟩ := ih
    rw [hs.next_eq] at hsuper
    obtain ⟨hstep, hi'⟩ := hi.define hs name fields hsuper hroot
    exact ⟨⟨hi', (define_grown hs name fields hsuper hroot).stock hw hroot⟩, hext.trans hstep⟩
  | addField name _ hleaf ih =>
    obtain ⟨⟨hi, s, hs, hw, hroot⟩, hext⟩ := ih
    exact ⟨⟨hi.addField hleaf name, (addField_grown hs _ name).stock hw hroot⟩,
      hext.trans (addField_extends _ _ name)⟩
  | @install t' c i _ ih =>
    obtain ⟨⟨hi, s, hs, hw, hroot⟩, hext⟩ := ih
    have hknown : i.Sound s := by
      cases i with
      | method code => exact .inr (hw ▸ Set.mem_univ _)
      | primitive p => trivial
    have halike := install_alike t' c i
    exact ⟨⟨halike.inheriting hi, (install_grown hs c hknown).stock hw hroot⟩,
      hext.trans halike.extends_⟩

/-- The classes of the library have no fields. -/
theorem initial_fields (c : ClassRef) : (initial.get c).fields = [] := by
  have hnone : initial.classes.all (fun k => k.fields.isEmpty) := by decide +kernel
  refine getD_of_forall (p := fun k : Class => k.fields = []) (fun k hk => ?_) rfl c
  exact List.isEmpty_iff.1 (Array.all_eq_true_iff_forall_mem.1 hnone k hk)

theorem initial_orderly : initial.Orderly := by
  obtain ⟨s, hs, hclasses, -⟩ := initial_sound
  refine ⟨fun c a _ => ?_, { s with written := Set.univ }, ?_, rfl, ?_⟩
  · simp only [initial_fields, List.prefix_rfl]
  · refine { hs with methods := fun c sel i _ => ?_ }
    cases i with
    | method code => exact .inr (Set.mem_univ _)
    | primitive p => trivial
  · exact hclasses ▸ (by decide : Core.class < 28)

end ClassTable

/-! ### What a name denotes -/

/-- A name that denotes a field denotes that with its name, if its number fits into a byte. -/
theorem Scope.resolve_field {scopes : List Scope} {fields : List String} {slot level : UInt8}
    (h : resolve scopes fields name = .field slot level) (hfits : fields.length ≤ 256) :
    fields.idxOf? name = some slot.toNat := by
  unfold resolve at h
  dsimp only at h
  split at h
  · rename_i hp
    unfold pseudo? at hp
    split at hp <;> cases hp <;> cases h
  · split at h
    · rename_i hv
      subst h
      obtain ⟨_, _, hd | hd⟩ := visible?_slot hv <;> cases hd
    · split at h
      · rename_i i hi
        cases h
        have hlt : i < 256 := (List.idxOf?_eq_some_iff.1 hi).1.trans_le hfits
        rw [hi, UInt8.toNat_ofNat_of_lt' hlt]
      · cases h

/-- A field keeps its number when others come after it. -/
theorem idxOf?_of_prefix {fields fields' : List String} {i : Nat} (h : fields <+: fields')
    (hi : fields.idxOf? name = some i) : fields'.idxOf? name = some i := by
  obtain ⟨rest, rfl⟩ := h
  rw [List.idxOf?] at hi ⊢
  rw [List.findIdx?_append, hi]
  rfl

namespace ClassTable

/-- A method that was compiled for class `a` of table `t` finds its fields in the instances of class
    `c` of table `t'`. -/
structure Inherits (t t' : ClassTable) (a c : ClassRef) : Prop where
  /-- The fields of the class it was compiled for come first, those that it has by now. -/
  fields : (t'.get a).fields <+: (t'.get c).fields
  /-- What a name in the method denotes is the field of that name. -/
  names : ∀ scopes name slot level,
    Scope.resolve scopes (t.get a).fields name = .field slot level →
      (t.get a).fields.length ≤ 256 → (t'.get c).fields.idxOf? name = some slot.toNat

/-- The fields of a class have the same numbers in all its subclasses, and keep them, as long as
    none is added to a class that has subclasses. -/
theorem Grows.inherits {a c : ClassRef} (h : initial.Grows t) (hg : t.Grows t') (ha : a < t.next)
    (hc : c = a ∨ a ∈ (t'.get c).lineage) : t.Inherits t' a c := by
  obtain ⟨horderly, -⟩ := h.orderly initial_orderly
  obtain ⟨horderly', hext⟩ := hg.orderly horderly
  have hfields : (t'.get a).fields <+: (t'.get c).fields := by
    rcases hc with rfl | hc
    · exact List.prefix_rfl
    · exact horderly'.inheriting c a hc
  refine ⟨hfields, fun scopes name slot level hname hfits => ?_⟩
  exact idxOf?_of_prefix ((hext.fields a ha).trans hfields) (Scope.resolve_field hname hfits)

/-- A class with a field, in the table of the library. -/
def withCell : ClassTable :=
  initial.define "Cell" Core.object ["value"]

/-- A class below it has a field of its own, and then gets another one. -/
def withBox : ClassTable :=
  (withCell.define "Box" 28 ["lid"]).addField 30 "hinge"

theorem withBox_grows : withCell.Grows withBox := by
  have hleaf : (withCell.define "Box" 28 ["lid"]).classes.all (fun k => 30 ∉ k.lineage) := by
    decide +kernel
  refine (Grows.refl.define "Box" ["lid"] (by decide)).addField "hinge" fun k => ?_
  refine getD_of_forall (p := fun k : Class => 30 ∉ k.lineage) (fun k hk => ?_) (by decide) k
  exact of_decide_eq_true (Array.all_eq_true_iff_forall_mem.1 hleaf k hk)

/-- A method of the class that reads its field reads that of an instance of the class below. -/
theorem Grows.inherits_withBox : 28 < withCell.next ∧ 28 ∈ (withBox.get 30).lineage ∧
    Scope.resolve [⟨["self"], []⟩] (withCell.get 28).fields "value" = .field 0 0 ∧
    (withBox.get 30).fields.idxOf? "value" = some 0 := by
  have hgrows : initial.Grows withCell := Grows.refl.define "Cell" ["value"] (by decide +kernel)
  have hnext : 28 < withCell.next := by decide +kernel
  have hbelow : 28 ∈ (withBox.get 30).lineage := by decide +kernel
  have hname : Scope.resolve [⟨["self"], []⟩] (withCell.get 28).fields "value" = .field 0 0 := by
    decide +kernel
  have hfits : (withCell.get 28).fields.length ≤ 256 := by decide +kernel
  have h := Grows.inherits hgrows withBox_grows hnext (.inr hbelow)
  exact ⟨hnext, hbelow, hname, h.names _ _ _ _ hname hfits⟩

/-! ### Fields of classes with subclasses -/

/-- A field that is added to a class with subclasses. Methods that are compiled for the class from
    then on find it behind the other fields of the class, but it is not there in the instances of
    a subclass: they have what they had. -/
theorem addField_above {a c : ClassRef} (hc : c ≠ a) (ha : a < t.next)
    (hnew : name ∉ (t.get a).fields) :
    ((t.addField a name).get a).fields.idxOf? name = some (t.get a).fields.length ∧
      ((t.addField a name).get c).fields = (t.get c).fields := by
  have hown : (t.get a).fields.idxOf? name = none := List.idxOf?_eq_none_iff.2 hnew
  rw [List.idxOf?] at hown ⊢
  rw [get_addField, if_pos ⟨rfl, ha⟩, get_addField, if_neg fun h => hc h.1.symm,
    List.findIdx?_append, hown]
  simp

-- A field that the upper class gets next is behind the first one, where the lower class has a lid.
example : ((withBox.addField 28 "tag").get 28).fields = ["value", "tag"] ∧
    ((withBox.addField 28 "tag").get 30).fields = ["value", "lid", "hinge"] := by
  decide

end ClassTable

end Parley
