import Parley.Proofs.Defining

/-!
# Lineages

The superclasses of a class are its superclass and the superclasses of that, up to `Object`
(`ClassTable.Rooted`). It is so in the table of the library, and whatever a host does to classes
keeps it so. Hence a lookup goes through the classes that a class is below, in an order that is
fixed for any two of them, and of classes right below `Object` it comes by one at most.

* `Machine.Reachable.rooted`: the tables that come about are rooted;
* `Rooted.ancestors_of_below`: where a lookup ends that comes by a class right below `Object`;
* `Rooted.ancestors_eq`: where any lookup ends.
-/

namespace Parley

namespace ClassTable

variable {t t' : ClassTable} {c k : ClassRef}

/-- A class and its superclasses, in the order of a lookup. -/
def ancestors (t : ClassTable) (c : ClassRef) : List ClassRef :=
  c :: (t.get c).lineage

/-- A table with the classes of the library, in which the superclasses of a class are its superclass
    and those of that, up to `Object`. -/
structure Rooted (t : ClassTable) : Prop where
  size : 28 ≤ t.next
  inside : ∀ c, ∀ k ∈ (t.get c).lineage, k < t.next
  metaclass : ∀ c m, (t.get c).metaclass = some m → m < t.next
  lineage : ∀ c k rest, (t.get c).lineage = k :: rest → (t.get k).lineage = rest
  object : ∀ c < t.next, Core.object ∈ t.ancestors c
  library : ∀ c < 28, (t.get c).lineage = (initial.get c).lineage

/-! ### Changes of a table -/

namespace Rooted

theorem congr (h : t.Rooted) (hnext : t'.next = t.next)
    (hlineage : ∀ c, (t'.get c).lineage = (t.get c).lineage)
    (hmetaclass : ∀ c m, (t'.get c).metaclass = some m → m < t.next) : t'.Rooted where
  size := hnext ▸ h.size
  inside c k hk := hnext ▸ h.inside c k (hlineage c ▸ hk)
  metaclass c m hm := hnext ▸ hmetaclass c m hm
  lineage c k rest hk := (hlineage k).trans (h.lineage c k rest (hlineage c ▸ hk))
  object c hc := by
    rw [ancestors, hlineage]
    exact h.object c (hnext ▸ hc)
  library c hc := (hlineage c).trans (h.library c hc)

/-- A class may be added below one that is there. -/
theorem add (h : t.Rooted) (name : String) {s : ClassRef} (hs : s < t.next)
    (fields : List String) : (t.add (t.make name (some s) fields)).Rooted := by
  have hnext : (t.add (t.make name (some s) fields)).next = t.next + 1 := Array.size_push ..
  -- The classes that were there stay as they are.
  have hget : ∀ {c}, c < t.next → (t.add (t.make name (some s) fields)).get c = t.get c :=
    fun hc => by rw [get_add, if_neg (Nat.ne_of_lt hc)]
  have hnew : (t.add (t.make name (some s) fields)).get t.next = t.make name (some s) fields := by
    rw [get_add, if_pos rfl]
  have hold : ∀ {c}, c ≠ t.next → (t.add (t.make name (some s) fields)).get c = t.get c :=
    fun hc => by rw [get_add, if_neg hc]
  refine ⟨hnext ▸ Nat.le_succ_of_le h.size, fun c k hk => ?_, fun c m hm => ?_,
    fun c k rest hk => ?_, fun c hc => ?_, fun c hc => ?_⟩
  · rw [hnext]
    by_cases hc : c = t.next
    · rw [hc, hnew] at hk
      rcases List.mem_cons.1 hk with rfl | hk
      · exact Nat.lt_succ_of_lt hs
      · exact Nat.lt_succ_of_lt (h.inside s k hk)
    · rw [hold hc] at hk
      exact Nat.lt_succ_of_lt (h.inside c k hk)
  · rw [hnext]
    by_cases hc : c = t.next
    · rw [hc, hnew] at hm
      cases hm
    · rw [hold hc] at hm
      exact Nat.lt_succ_of_lt (h.metaclass c m hm)
  · by_cases hc : c = t.next
    · rw [hc, hnew] at hk
      obtain ⟨rfl, rfl⟩ := List.cons.inj hk
      rw [hget hs]
    · rw [hold hc] at hk
      have hlt := h.inside c k (hk ▸ List.mem_cons_self ..)
      rw [hget hlt, h.lineage c k rest hk]
  · rw [ancestors]
    by_cases hc' : c = t.next
    · rw [hc', hnew]
      exact List.mem_cons_of_mem _ (h.object s hs)
    · rw [hold hc']
      exact h.object c (Nat.lt_of_le_of_ne (Nat.le_of_lt_succ (hc.trans_eq hnext)) hc')
  · rw [hget (hc.trans_le h.size), h.library c hc]

/-- A class may be given its metaclass. -/
theorem attach (h : t.Rooted) (c : ClassRef) : (t.attach c Core.class).Rooted := by
  unfold ClassTable.attach
  extract_lets super added
  have hsuper : super < t.next := by
    dsimp only [super]
    cases hm : (t.get c).superclass.bind t.metaclass? with
    | none => exact (show Core.class < 28 by decide).trans_le h.size
    | some m =>
      obtain ⟨s, -, hs⟩ := Option.bind_eq_some_iff.1 hm
      exact h.metaclass s m hs
  have hadded : added.Rooted := h.add (t.name c ++ " class") hsuper []
  have hnext : added.next = t.next + 1 := Array.size_push ..
  refine hadded.congr (Array.size_modify ..) (fun k => ?_) fun k m hm => ?_
  · rw [get, get_modify]
    split <;> rfl
  · rw [get, get_modify] at hm
    split at hm
    · cases hm
      rw [hnext]
      exact Nat.lt_succ_self _
    · exact hadded.metaclass k m hm

theorem define (h : t.Rooted) (name : String) {s : ClassRef} (hs : s < t.next)
    (fields : List String) : (t.define name s fields).Rooted :=
  ((h.add name hs fields).attach t.next).congr rfl (fun _ => rfl)
    ((h.add name hs fields).attach t.next).metaclass

theorem addField (h : t.Rooted) (c : ClassRef) (name : String) : (t.addField c name).Rooted := by
  refine h.congr (Array.size_modify ..) (fun k => ?_) fun k m hm => ?_
  · rw [get_addField]
    split <;> rfl
  · rw [get_addField] at hm
    split at hm <;> exact h.metaclass k m hm

theorem install (h : t.Rooted) (c : ClassRef) (i : Invokable) : (t.install c i).Rooted := by
  refine h.congr (Array.size_modify ..) (fun k => ?_) fun k m hm => ?_
  · rw [get_install]
    split <;> rfl
  · rw [get_install] at hm
    split at hm <;> exact h.metaclass k m hm

end Rooted

/-- The table of the library is rooted. -/
theorem initial_rooted : initial.Rooted := by
  obtain ⟨s, hs, hclasses, -⟩ := initial_sound
  have hnext : initial.next = 28 := hs.size.trans hclasses
  have hlineage : initial.classes.all (fun k => match k.lineage with
      | [] => true
      | s :: rest => decide ((initial.get s).lineage = rest)) := by decide +kernel
  refine ⟨hnext.ge, fun c k hk => ?_, fun c m hm => ?_, fun c k rest hk => ?_, fun c hc => ?_,
    fun _ _ => rfl⟩
  · exact hnext ▸ hclasses ▸ hs.lineage c k hk
  · exact hnext ▸ hclasses ▸ hs.metaclass c m hm
  · refine getD_of_forall (p := fun k : Class => ∀ s rest,
      k.lineage = s :: rest → (initial.get s).lineage = rest) (fun k hk s rest hs => ?_)
      (by rintro s rest ⟨⟩) c k rest hk
    have h := Array.all_eq_true_iff_forall_mem.1 hlineage k hk
    rw [hs] at h
    exact of_decide_eq_true h
  · have h : ∀ c < 28, Core.object ∈ initial.ancestors c := by decide
    exact h c (hnext ▸ hc)

/-! ### The order of a lookup -/

/-- A class is another one, or below it. -/
def Below (t : ClassTable) (c k : ClassRef) : Prop :=
  k ∈ t.ancestors c

/-- A lookup finds what the first class has that has anything. -/
theorem lookup_of_ancestors {pre post : List ClassRef} {s : Selector} {i : Invokable}
    (h : t.ancestors c = pre ++ k :: post) (hpre : ∀ j ∈ pre, t.own? j s = none)
    (hk : t.own? k s = some i) : t.lookup c s = some i := by
  have hnone : pre.findSome? (fun j => t.own? j s) = none := List.findSome?_eq_none_iff.2 hpre
  rw [lookup, ← ancestors, h, List.findSome?_append, hnone, List.findSome?_cons, hk]
  rfl

namespace Rooted

variable (h : t.Rooted)

include h

/-- Above a class that a lookup comes by there is what is above it. -/
theorem lineage_of_ancestors {p q : List ClassRef} (hc : t.ancestors c = p ++ k :: q) :
    (t.get k).lineage = q := by
  induction p generalizing c with
  | nil =>
    obtain ⟨rfl, rfl⟩ := List.cons.inj hc
    rfl
  | cons j p ih =>
    obtain ⟨rfl, hrest⟩ := List.cons.inj hc
    cases p with
    | nil => exact h.lineage c k q hrest
    | cons i p =>
      refine ih (c := i) ?_
      rw [ancestors, h.lineage c i _ hrest]
      rfl

/-- A lookup that comes by a class right below `Object` comes by no other such class. -/
theorem ancestors_of_below (hk : (t.get k).lineage = [Core.object]) (hb : t.Below c k) :
    ∃ pre, t.ancestors c = pre ++ [k, Core.object] ∧
      ∀ j ∈ pre, (t.get j).lineage ≠ [Core.object] ∧ j ≠ Core.object := by
  obtain ⟨pre, post, hsplit⟩ := List.append_of_mem hb
  obtain rfl := (h.lineage_of_ancestors hsplit).symm.trans hk
  refine ⟨pre, hsplit, fun j hj => ?_⟩
  obtain ⟨pre₁, pre₂, rfl⟩ := List.append_of_mem hj
  have hj := h.lineage_of_ancestors (k := j) (p := pre₁) (q := pre₂ ++ [k, Core.object])
    (by rw [hsplit]; simp)
  have hlength := congrArg List.length hj
  rw [List.length_append] at hlength
  refine ⟨fun hone => ?_, ?_⟩
  · rw [hone] at hlength
    simp at hlength
  · rintro rfl
    have hobject : (t.get Core.object).lineage = [] :=
      (h.library Core.object (by decide)).trans (by decide)
    rw [hobject] at hlength
    simp at hlength

/-- Any lookup ends with `Object`. -/
theorem ancestors_eq (hc : c < t.next) :
    ∃ pre, t.ancestors c = pre ++ [Core.object] ∧ Core.object ∉ pre := by
  have hobject : (t.get Core.object).lineage = [] :=
    (h.library Core.object (by decide)).trans (by decide)
  obtain ⟨pre, post, hsplit⟩ := List.append_of_mem (h.object c hc)
  obtain rfl := (h.lineage_of_ancestors hsplit).symm.trans hobject
  refine ⟨pre, hsplit, fun hmem => ?_⟩
  obtain ⟨pre₁, pre₂, rfl⟩ := List.append_of_mem hmem
  have hagain := h.lineage_of_ancestors (k := Core.object) (p := pre₁)
    (q := pre₂ ++ [Core.object]) (by rw [hsplit]; simp)
  rw [hobject] at hagain
  simp at hagain

end Rooted

end ClassTable

/-! ### Tables that come about -/

theorem World.Change.rooted {w w' : World} (hc : w.Change w') (h : w.classes.Rooted) :
    w'.classes.Rooted := by
  cases hc with
  | defineClass name fields hsuper => exact h.define name hsuper fields
  | addField c name =>
    exact (World.note_classes _ _).symm ▸ h.addField c name
  | compile m inlining _ => exact w.compile_classes _ m inlining ▸ h
  | install c => exact h.install c _
  | turn hclasses => exact hclasses ▸ h
  | _ => exact h

theorem Machine.Reachable.rooted {m : Machine} (hm : m.Reachable) : m.world.classes.Rooted := by
  induction hm with
  | bare => exact ClassTable.initial_rooted
  | step hm ih =>
    obtain ⟨s, hs⟩ := hm.sound
    have hclasses := (step_sound hs).world.classes.table.symm.trans hs.world.classes.table
    exact hclasses ▸ ih
  | change _ hc ih => exact hc.rooted ih
  | request _ _ ih => exact ih
  | @dispatch m c arguments hm hc ha ih =>
    obtain ⟨s, hs⟩ := hm.sound
    have hd := Chain.dispatch_dispatched hs.world (hs.world.held _ hc) arguments
    exact hd.agrees.classes ▸ ih

end Parley
