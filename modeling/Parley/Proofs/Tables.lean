import Mathlib.Logic.Function.Basic
import Parley.Proofs.Steps

/-!
# Changes of the class table

A host changes the class table between runs. Making a class or a layout adds to the stock;
installing a method starts a new epoch. Whatever is done, as long as the epoch stays, a lookup
in a class that was there finds what it found before (`ClassTable.Later`).

* `ClassTable.install_grown`, `ClassTable.addField_grown`, `ClassTable.define_grown`: what each
  change does to a table and its stock;
* `ClassTable.initial_sound`: the classes of the library are a table with a stock.
-/

namespace Parley

variable {s s' s'' : Stock} {t t' t'' : ClassTable}

/-! ### Growing stocks -/

/-- The layout of a class at a later time, when `n` layouts had been made before: the same one, or
    a newer one with no fewer fields. -/
def Layout.Later (l l' : Layout) (n : Nat) : Prop :=
  l' = l ∨ n ≤ l'.id ∧ l.fieldCount ≤ l'.fieldCount

theorem Layout.Later.trans {l l' l'' : Layout} {n n' : Nat} (h : l.Later l' n)
    (h' : l'.Later l'' n') (hn : n ≤ n') : l.Later l'' n := by
  rcases h' with rfl | ⟨hid', hcount'⟩
  · exact h
  · rcases h with rfl | ⟨_, hcount⟩
    · exact .inr ⟨hn.trans hid', hcount'⟩
    · exact .inr ⟨hn.trans hid', hcount.trans hcount'⟩

theorem Layout.Later.fieldCount_le {l l' : Layout} {n : Nat} (h : l.Later l' n) :
    l.fieldCount ≤ l'.fieldCount := by
  rcases h with rfl | h
  · exact le_rfl
  · exact h.2

/-- A stock with all that another one has; a layout stays that of its class. -/
structure Stock.Le (s s' : Stock) : Prop where
  classes : s.classes ≤ s'.classes
  layouts : s.layouts ≤ s'.layouts
  written : s.written ⊆ s'.written
  owner : ∀ l, l < s.layouts → s'.owner l = s.owner l
  layout : ∀ c, c < s.classes →
    (s.table.get c).layout.Later (s'.table.get c).layout s.layouts

theorem Stock.Le.refl (s : Stock) : s.Le s :=
  ⟨le_rfl, le_rfl, Set.Subset.rfl, fun _ _ => rfl, fun _ _ => .inl rfl⟩

theorem Stock.Le.trans (h : s.Le s') (h' : s'.Le s'') : s.Le s'' where
  classes := h.classes.trans h'.classes
  layouts := h.layouts.trans h'.layouts
  written := h.written.trans h'.written
  owner l hl := (h'.owner l (hl.trans_le h.layouts)).trans (h.owner l hl)
  layout c hc := (h.layout c hc).trans (h'.layout c (hc.trans_le h.classes)) h.layouts

/-- The stock with another table of the same classes. -/
def Stock.setTable (s : Stock) (t : ClassTable) : Stock :=
  { s with table := t }

/-- The stock with one more layout, made for a class. -/
def Stock.addLayout (s : Stock) (c : ClassRef) (t : ClassTable) : Stock :=
  { s with
    table := t
    layouts := s.layouts + 1
    owner := Function.update s.owner s.layouts c }

/-- The stock with one more class and its layout. -/
def Stock.addClass (s : Stock) (t : ClassTable) : Stock :=
  { s.addLayout s.classes t with classes := s.classes + 1 }

theorem Stock.le_setTable (s : Stock) {t : ClassTable}
    (ht : ∀ c, c < s.classes → (t.get c).layout = (s.table.get c).layout) : s.Le (s.setTable t) :=
  ⟨le_rfl, le_rfl, Set.Subset.rfl, fun _ _ => rfl, fun c hc => .inl (ht c hc)⟩

theorem Stock.le_addLayout (s : Stock) (c : ClassRef) {t : ClassTable}
    (ht : ∀ c, c < s.classes → (s.table.get c).layout.Later (t.get c).layout s.layouts) :
    s.Le (s.addLayout c t) :=
  ⟨le_rfl, Nat.le_succ _, Set.Subset.rfl, fun _ hl => Function.update_of_ne hl.ne _ _, ht⟩

theorem Stock.le_addClass (s : Stock) {t : ClassTable}
    (ht : ∀ c, c < s.classes → t.get c = s.table.get c) : s.Le (s.addClass t) :=
  ⟨Nat.le_succ _, Nat.le_succ _, Set.Subset.rfl, fun _ hl => Function.update_of_ne hl.ne _ _,
    fun c hc => .inl (congrArg Class.layout (ht c hc))⟩

/-- A table in which, as long as the epoch is the same, lookups in the first `k` classes find what
    they found in another one. -/
structure ClassTable.Later (t t' : ClassTable) (k : Nat) : Prop where
  epoch_le : t.epoch ≤ t'.epoch
  lookup : t'.epoch = t.epoch → ∀ c, c < k → ∀ sel, t'.lookup c sel = t.lookup c sel
  superclass : t'.epoch = t.epoch → ∀ c, c < k → (t'.get c).superclass = (t.get c).superclass

/-- A table and its stock that come of others by a change. -/
structure ClassTable.Grown (t : ClassTable) (s : Stock) (t' : ClassTable) (s' : Stock) : Prop where
  sound : t'.Sound s'
  le : s.Le s'
  later : t.Later t' s.classes
  written : s'.written = s.written

theorem Directory.mem_putIn {α : Type} {name : String} {a : α}
    {entries : List (String × α)} {e : String × α} (he : e ∈ Directory.putIn name a entries) :
    e ∈ entries ∨ e.2 = a := by
  induction entries with
  | nil =>
    rw [List.mem_singleton.1 he]
    exact .inr rfl
  | cons f rest ih =>
    obtain ⟨n, b⟩ := f
    rw [Directory.putIn] at he
    split at he
    · rcases List.mem_cons.1 he with rfl | he
      · exact .inr rfl
      · exact .inl (List.mem_cons_of_mem _ he)
    · rcases List.mem_cons.1 he with rfl | he
      · exact .inl List.mem_cons_self
      · exact (ih he).imp_left (List.mem_cons_of_mem _)

namespace ClassTable

theorem Grown.refl (h : t.Sound s) : t.Grown s t s :=
  ⟨h, .refl s, ⟨le_rfl, fun _ _ _ _ => rfl, fun _ _ _ => rfl⟩, rfl⟩

theorem Grown.trans (h : t.Grown s t' s') (h' : t'.Grown s' t'' s'') : t.Grown s t'' s'' where
  sound := h'.sound
  le := h.le.trans h'.le
  later := by
    -- Epochs only grow, so that one which is the same at the end was so throughout.
    have hepoch : t''.epoch = t.epoch → t''.epoch = t'.epoch ∧ t'.epoch = t.epoch := fun he => by
      have := h.later.epoch_le
      have := h'.later.epoch_le
      omega
    refine ⟨h.later.epoch_le.trans h'.later.epoch_le, fun he c hc sel => ?_, fun he c hc => ?_⟩
    · rw [h'.later.lookup (hepoch he).1 c (hc.trans_le h.le.classes),
        h.later.lookup (hepoch he).2 c hc]
    · rw [h'.later.superclass (hepoch he).1 c (hc.trans_le h.le.classes),
        h.later.superclass (hepoch he).2 c hc]
  written := h'.written.trans h.written

/-! ### Single changes -/

theorem get_modify (t : ClassTable) (c : ClassRef) (f : Class → Class) (c' : ClassRef) :
    (t.classes.modify c f).getD c' default =
      if c = c' ∧ c' < t.classes.size then f (t.get c') else t.get c' := by
  simp only [get, Array.getD_eq_getD_getElem?, Array.getElem?_modify]
  by_cases hc : c = c'
  · by_cases hlt : c' < t.classes.size <;> simp [hc, hlt]
  · simp [hc]

theorem get_add (t : ClassTable) (k : Class) (c : ClassRef) :
    (t.add k).get c = if c = t.next then k else t.get c := by
  simp only [get, add, next, Array.getD_eq_getD_getElem?, Array.getElem?_push]
  split <;> rfl

theorem get_addField (t : ClassTable) (c : ClassRef) (name : String) (c' : ClassRef) :
    (t.addField c name).get c' = if c = c' ∧ c' < t.next then
      { t.get c' with
        fields := (t.get c').fields ++ [name]
        layout := ⟨t.layouts, (t.get c').fields.length + 1⟩ }
    else t.get c' :=
  t.get_modify c _ c'

/-- A change of classes in nothing that lookups depend on. -/
theorem lookup_congr {c : ClassRef} (hl : (t'.get c).lineage = (t.get c).lineage)
    (ho : ∀ k ∈ c :: (t.get c).lineage, ∀ sel, t'.own? k sel = t.own? k sel) (sel : Selector) :
    t'.lookup c sel = t.lookup c sel := by
  rw [lookup, lookup, hl]
  generalize c :: (t.get c).lineage = ks at ho
  -- The search goes through the same classes and finds the same in each.
  induction ks with
  | nil => rfl
  | cons k ks ih =>
    rw [List.findSome?_cons, List.findSome?_cons, ho k List.mem_cons_self,
      ih fun j hj => ho j (List.mem_cons_of_mem _ hj)]

/-- A change of one class in nothing that lookups depend on, and in no layout. -/
theorem modify_grown (h : t.Sound s) (c : ClassRef) {f : Class → Class}
    (hlineage : ∀ k, (f k).lineage = k.lineage) (hlayout : ∀ k, (f k).layout = k.layout)
    (hfields : ∀ k, (f k).fields = k.fields) (hmethods : ∀ k, (f k).methods = k.methods)
    (hmeta : ∀ k m, (f k).metaclass = some m → k.metaclass = some m ∨ m < s.classes) :
    t.Grown s { t with classes := t.classes.modify c f }
      (s.setTable { t with classes := t.classes.modify c f }) := by
  have hsize : (t.classes.modify c f).size = s.classes := Array.size_modify.trans h.size
  let t' : ClassTable := { t with classes := t.classes.modify c f }
  -- Each class is the old one, or the old one changed.
  have hget : ∀ c', t'.get c' = f (t.get c') ∨ t'.get c' = t.get c' := fun c' => by
    rw [get, get_modify]
    split
    · exact .inl rfl
    · exact .inr rfl
  have hl : ∀ c', (t'.get c').lineage = (t.get c').lineage := fun c' => by
    rcases hget c' with hg | hg <;> rw [hg]
    exact hlineage _
  have hy : ∀ c', (t'.get c').layout = (t.get c').layout := fun c' => by
    rcases hget c' with hg | hg <;> rw [hg]
    exact hlayout _
  have ho : ∀ c' sel, t'.own? c' sel = t.own? c' sel := fun c' sel => by
    rw [own?, own?]
    rcases hget c' with hg | hg <;> rw [hg]
    rw [hmethods]
  have hs : ∀ c', (t'.get c').fields = (t.get c').fields := fun c' => by
    rcases hget c' with hg | hg <;> rw [hg]
    exact hfields _
  refine ⟨⟨rfl, hsize, h.layouts, fun c' a ha => h.lineage c' a (hl c' ▸ ha), fun c' m hm => ?_,
    h.registered, fun c' sel i hi => h.methods c' sel i (ho c' sel ▸ hi),
    fun c' hc' => hy c' ▸ h.owner c' hc', fun c' hc' => hy c' ▸ h.layout_lt c' hc',
    fun c' => (hy c').symm ▸ (hs c').symm ▸ h.shape c'⟩,
    s.le_setTable fun c' _ => (hy c').trans (h.table ▸ rfl),
    ⟨le_rfl, fun _ c' _ sel => lookup_congr (hl c') (fun k _ sel => ho k sel) sel,
      fun _ c' _ => ?_⟩, rfl⟩
  · rcases hget c' with hg | hg
    · rw [hg] at hm
      exact (hmeta _ m hm).elim (h.metaclass c' m) id
    · rw [hg] at hm
      exact h.metaclass c' m hm
  · rw [Class.superclass, Class.superclass, hl]

/-- Installing a method starts a new epoch. -/
theorem install_grown (h : t.Sound s) (c : ClassRef) {i : Invokable} (hi : i.Sound s) :
    t.Grown s (t.install c i) (s.setTable (t.install c i)) := by
  have hget : ∀ c', (t.install c i).get c' =
      if c = c' ∧ c' < t.classes.size then
        { t.get c' with methods := (t.get c').methods.put i.signature i }
      else t.get c' := fun c' => t.get_modify c _ c'
  have hy : ∀ c', ((t.install c i).get c').layout = (t.get c').layout := fun c' => by
    rw [hget]
    split <;> rfl
  have hs : ∀ c', ((t.install c i).get c').fields = (t.get c').fields := fun c' => by
    rw [hget]
    split <;> rfl
  -- In a new epoch nothing has to be found again.
  refine ⟨⟨rfl, ?_, h.layouts, fun c' a ha => h.lineage c' a ?_,
    fun c' m hm => h.metaclass c' m ?_, h.registered, fun c' sel j hj => ?_,
    fun c' hc' => hy c' ▸ h.owner c' hc', fun c' hc' => hy c' ▸ h.layout_lt c' hc',
    fun c' => (hy c').symm ▸ (hs c').symm ▸ h.shape c'⟩,
    s.le_setTable fun c' _ => (hy c').trans (h.table ▸ rfl),
    ⟨Nat.le_succ _, fun he => absurd he (Nat.succ_ne_self _),
      fun he => absurd he (Nat.succ_ne_self _)⟩, rfl⟩
  · exact Array.size_modify.trans h.size
  · rw [hget] at ha
    split at ha <;> exact ha
  · rw [hget] at hm
    split at hm <;> exact hm
  · rw [own?, hget] at hj
    split at hj
    · rw [Directory.get?_put] at hj
      split at hj
      · cases hj
        exact hi
      · exact h.methods c' sel j hj
    · exact h.methods c' sel j hj

/-- A class with a new field has a layout of its own. -/
theorem addField_grown (h : t.Sound s) (c : ClassRef) (name : String) :
    t.Grown s (t.addField c name) (s.addLayout c (t.addField c name)) := by
  have hget := t.get_addField c name
  have hl : ∀ c', ((t.addField c name).get c').lineage = (t.get c').lineage := fun c' => by
    rw [hget]
    split <;> rfl
  have ho : ∀ c' sel, (t.addField c name).own? c' sel = t.own? c' sel := fun c' sel => by
    rw [own?, own?, hget]
    split <;> rfl
  refine ⟨⟨rfl, ?_, congrArg (· + 1) h.layouts, fun c' a ha => h.lineage c' a (hl c' ▸ ha),
    fun c' m hm => h.metaclass c' m ?_, h.registered,
    fun c' sel i hi => h.methods c' sel i (ho c' sel ▸ hi), fun c' hc' => ?_, fun c' hc' => ?_,
    fun c' => ?_⟩, s.le_addLayout c fun c' _ => ?_,
    ⟨le_rfl, fun _ c' _ sel => lookup_congr (hl c') (fun k _ sel => ho k sel) sel,
      fun _ c' _ => by rw [Class.superclass, Class.superclass, hl]⟩, rfl⟩
  · exact Array.size_modify.trans h.size
  · rw [hget] at hm
    split at hm <;> exact hm
  · rw [hget]
    split
    -- The new layout is that of the class, and the next one to be numbered.
    · rename_i hcc
      rw [← hcc.1, Stock.addLayout, h.layouts]
      exact Function.update_self _ _ _
    · rw [Stock.addLayout]
      exact (Function.update_of_ne (h.layout_lt c' hc').ne _ _).trans (h.owner c' hc')
  · rw [hget, Stock.addLayout]
    split
    · exact h.layouts ▸ Nat.lt_succ_self _
    · exact (h.layout_lt c' hc').trans (Nat.lt_succ_self _)
  · rw [hget]
    split
    · simp
    · exact h.shape c'
  · rw [h.table, hget]
    split
    -- The layout is newer, and it has one field more.
    · exact .inr ⟨h.layouts.ge, (h.shape c').le.trans (Nat.le_succ _)⟩
    · exact .inl rfl

/-- A new class has a layout of its own and no methods. -/
theorem add_grown (h : t.Sound s) (name : String) (super : Option ClassRef) (fields : List String)
    (hsuper : ∀ c, super = some c → c < s.classes) :
    t.Grown s (t.add (t.make name super fields))
      (s.addClass (t.add (t.make name super fields))) := by
  have hget : ∀ c, (t.add (t.make name super fields)).get c =
      if c = s.classes then t.make name super fields else t.get c := fun c => by
    rw [get_add, next, h.size]
  have hold : ∀ c, c < s.classes → (t.add (t.make name super fields)).get c = t.get c :=
    fun c hc => by rw [hget, if_neg hc.ne]
  have ho : ∀ c, c < s.classes → ∀ sel,
      (t.add (t.make name super fields)).own? c sel = t.own? c sel := fun c hc sel => by
    rw [own?, own?, hold c hc]
  have hid : (t.make name super fields).layout.id = s.layouts := h.layouts
  -- What a class inherits from was there before it.
  have hlineage : ∀ a ∈ (t.make name super fields).lineage, a < s.classes := fun a ha => by
    cases super with
    | none => cases ha
    | some c =>
      rcases List.mem_cons.1 ha with rfl | ha
      · exact hsuper _ rfl
      · exact h.lineage c a ha
  refine ⟨⟨rfl, ?_, congrArg (· + 1) h.layouts, fun c a ha => ?_, fun c m hm => ?_,
    fun e he => (h.registered e he).trans (Nat.lt_succ_self _), fun c sel i hi => ?_,
    fun c hc => ?_, fun c hc => ?_, fun c => ?_⟩,
    s.le_addClass fun c hc => (hold c hc).trans (h.table ▸ rfl),
    ⟨le_rfl, fun _ c hc sel => ?_, fun _ c hc => ?_⟩, rfl⟩
  · exact (Array.size_push _).trans (congrArg (· + 1) h.size)
  · rw [hget] at ha
    split at ha
    · exact (hlineage a ha).trans (Nat.lt_succ_self _)
    · exact (h.lineage c a ha).trans (Nat.lt_succ_self _)
  · rw [hget] at hm
    split at hm
    · cases hm
    · exact (h.metaclass c m hm).trans (Nat.lt_succ_self _)
  · rw [own?, hget] at hi
    split at hi
    · cases hi
    · exact h.methods c sel i hi
  · rw [hget]
    split
    · rename_i heq
      rw [heq, hid]
      exact Function.update_self _ _ _
    · rename_i hne
      have hlt : c < s.classes := lt_of_le_of_ne (Nat.lt_succ_iff.1 hc) hne
      exact (Function.update_of_ne (h.layout_lt c hlt).ne _ _).trans (h.owner c hlt)
  · rw [hget]
    split
    · rw [hid]
      exact Nat.lt_succ_self _
    · rename_i hne
      have hlt : c < s.classes := lt_of_le_of_ne (Nat.lt_succ_iff.1 hc) hne
      exact (h.layout_lt c hlt).trans (Nat.lt_succ_self _)
  · rw [hget]
    split
    · rfl
    · exact h.shape c
  · refine lookup_congr (congrArg _ (hold c hc)) (fun k hk sel => ho k ?_ sel) sel
    rcases List.mem_cons.1 hk with rfl | hk
    · exact hc
    · exact h.lineage c k hk
  · rw [hold c hc]

/-- A class that gets its metaclass. -/
theorem attach_grown (h : t.Sound s) (c root : ClassRef) (hroot : root < s.classes) :
    t.Grown s (t.attach c root) (s.addClass (t.attach c root)) := by
  have hsuper : ((t.get c).superclass.bind t.metaclass?).getD root < s.classes := by
    cases hm : (t.get c).superclass.bind t.metaclass? with
    | none => exact hroot
    | some m =>
      obtain ⟨a, -, ha⟩ := Option.bind_eq_some_iff.1 hm
      exact h.metaclass a m ha
  have hadd := add_grown h (t.name c ++ " class") (some _) [] fun _ he =>
    Option.some.inj he ▸ hsuper
  refine hadd.trans
    (modify_grown hadd.sound c (fun _ => rfl) (fun _ => rfl) (fun _ => rfl) (fun _ => rfl) ?_)
  rintro k m ⟨⟩
  -- The metaclass is the class that was added last.
  right
  rw [next, h.size]
  exact Nat.lt_succ_self _

/-- A class that gets a name. -/
theorem register_grown (h : t.Sound s) {c : ClassRef} (hc : c < s.classes) :
    t.Grown s (t.register c) (s.setTable (t.register c)) :=
  ⟨{ h with
      table := rfl
      registered := fun e he => (Directory.mem_putIn he).elim (h.registered e) (· ▸ hc) },
    s.le_setTable fun _ _ => h.table ▸ rfl, ⟨le_rfl, fun _ _ _ _ => rfl, fun _ _ _ => rfl⟩, rfl⟩

/-- A class that is defined, with its metaclass. -/
theorem define_grown (h : t.Sound s) (name : String) {super : ClassRef} (fields : List String)
    (hsuper : super < s.classes) (hroot : Core.class < s.classes) :
    t.Grown s (t.define name super fields)
      ((s.addClass t).addClass (t.define name super fields)) := by
  have hadd := add_grown h name (some super) fields fun _ he => Option.some.inj he ▸ hsuper
  have hattach := hadd.trans (attach_grown hadd.sound t.next _ (hroot.trans (Nat.lt_succ_self _)))
  refine hattach.trans (register_grown hattach.sound ?_)
  rw [next, h.size]
  exact (Nat.lt_succ_self _).trans (Nat.lt_succ_self _)

/-! ### The library -/

/-- Classes that are defined one after another, each under one that is there by then. -/
theorem defineAll_grown (h : t.Sound s) (hroot : Core.class < s.classes)
    (entries : List (String × ClassRef))
    (he : ∀ i (hi : i < entries.length), entries[i].2 < s.classes + 2 * i) :
    ∃ s', t.Grown s (entries.foldl (fun t (name, super) => t.define name super []) t) s' ∧
      s'.classes = s.classes + 2 * entries.length ∧
        s'.layouts = s.layouts + 2 * entries.length := by
  induction entries generalizing t s with
  | nil => exact ⟨s, .refl h, rfl, rfl⟩
  | cons e rest ih =>
    have hd := define_grown h e.1 [] (by simpa using he 0 (Nat.succ_pos _)) hroot
    obtain ⟨s', hg, hclasses, hlayouts⟩ :=
      ih hd.sound (hroot.trans_le hd.le.classes) fun i hi => by
        have := he (i + 1) (Nat.succ_lt_succ hi)
        have hcount : s.classes + 2 * (i + 1) = s.classes + 2 + 2 * i := by omega
        exact lt_of_lt_of_eq this hcount
    refine ⟨s', hd.trans hg, hclasses.trans ?_, hlayouts.trans ?_⟩
    · show s.classes + 1 + 1 + 2 * rest.length = s.classes + 2 * (rest.length + 1)
      omega
    · show s.layouts + 1 + 1 + 2 * rest.length = s.layouts + 2 * (rest.length + 1)
      omega

/-- The classes of the library are a table with a stock of 28 classes and as many layouts. -/
theorem initial_sound : ∃ s, ClassTable.initial.Sound s ∧ s.classes = 28 ∧ s.layouts = 28 ∧
    s.owner 0 = Core.object ∧ s.written = ∅ := by
  let t₀ : ClassTable := ⟨#[], .empty, 0, 0⟩
  let s₀ : Stock := ⟨t₀, 0, 0, ∅, fun _ => 0⟩
  have h₀ : t₀.Sound s₀ :=
    ⟨rfl, rfl, rfl, by rintro c a ⟨⟩, by rintro c m ⟨⟩, by rintro e ⟨⟩, by rintro c sel i ⟨⟩,
      by rintro c ⟨⟩, by rintro c ⟨⟩, fun _ => rfl⟩
  -- Three classes have to be there before any can get a metaclass.
  have h₁ := (add_grown h₀ "Object" none [] (by rintro c ⟨⟩)).sound
  have h₂ := (add_grown h₁ "Class" (some Core.object) [] (by rintro c ⟨⟩; decide)).sound
  have h₃ := (add_grown h₂ "Metaclass" (some Core.class) [] (by rintro c ⟨⟩; decide)).sound
  have h₄ := (attach_grown h₃ Core.object Core.class (by decide)).sound
  have h₅ := (attach_grown h₄ Core.class Core.class (by decide)).sound
  have h₆ := (attach_grown h₅ Core.metaclass Core.class (by decide)).sound
  have h₇ := (register_grown h₆ (c := Core.object) (by decide)).sound
  have h₈ := (register_grown h₇ (c := Core.class) (by decide)).sound
  have h₉ := (register_grown h₈ (c := Core.metaclass) (by decide)).sound
  obtain ⟨s, hg, hclasses, hlayouts⟩ :=
    defineAll_grown h₉ (by decide) Core.subclasses (by decide)
  exact ⟨s, hg.sound, hclasses, hlayouts, hg.le.owner 0 (by decide), hg.written⟩

end ClassTable

end Parley
