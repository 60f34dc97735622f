import Parley.Proofs.Bench
import Parley.Proofs.Mirrors

/-!
# Defining methods as sketched

Methods that are compiled to sketched codes, one after another, are found in the class that they are
defined in, and other lookups find what they found before (`ClassTable.Adds`). A world is the same
in everything but its classes and codes (`World.defineAll_sketched`).
-/

namespace Parley

/-! ### Tables -/

namespace ClassTable

variable {t t' t'' : ClassTable} {c : ClassRef} {i : Invokable} {s : Selector}
  {list list' : List (MethodTree × Sketch)}

theorem get_install (t : ClassTable) (c : ClassRef) (i : Invokable) (k : ClassRef) :
    (t.install c i).get k = if c = k ∧ k < t.classes.size then
      { t.get k with methods := (t.get k).methods.put i.signature i } else t.get k := by
  rw [install, get, get_modify]

theorem own?_install_of_ne (hs : s ≠ i.signature) (c k : ClassRef) :
    (t.install c i).own? k s = t.own? k s := by
  rw [own?, get_install]
  split
  · rw [Directory.get?_put, if_neg hs, own?]
  · rfl

theorem own?_install_self (hc : c < t.next) : (t.install c i).own? c i.signature = some i := by
  rw [own?, get_install, if_pos ⟨rfl, hc⟩, Directory.get?_put, if_pos rfl]

theorem lookup_of_own? (h : t.own? c s = some i) : t.lookup c s = some i := by
  rw [lookup, List.findSome?_cons, h]

/-- A class that is defined leaves those that were there as they were. -/
theorem get_define_of_lt {k : ClassRef} (hk : k < t.next) (name : String) (super : ClassRef)
    (fields : List String) : (t.define name super fields).get k = t.get k := by
  have hne : k ≠ t.next := hk.ne
  have hne' : k ≠ (t.add (t.make name (some super) fields)).next := by
    rw [ClassTable.next, add, Array.size_push]
    exact (hk.trans (Nat.lt_succ_self _)).ne
  rw [define, register, attach, get, get_modify, if_neg fun h => hne h.1.symm, get_add, if_neg hne',
    get_add, if_neg hne]

theorem next_add (t : ClassTable) (k : Class) : (t.add k).next = t.next + 1 :=
  Array.size_push _

/-- A class that was added last and gets its metaclass. -/
theorem get_attach_add (k : Class) (root : ClassRef) :
    ((t.add k).attach t.next root).get t.next = { k with metaclass := some (t.add k).next } := by
  have hlt : t.next < (t.add k).next := by
    rw [next_add]
    exact Nat.lt_succ_self _
  have hmake (k' : Class) : t.next < ((t.add k).add k').classes.size :=
    hlt.trans ((Nat.lt_succ_self _).trans_eq (next_add _ k').symm)
  rw [attach, get, get_modify, if_pos ⟨rfl, hmake _⟩, get_add, if_neg hlt.ne, get_add, if_pos rfl]

theorem fields_define_next (name : String) (super : ClassRef) (fields : List String) :
    ((t.define name super fields).get t.next).fields = (t.get super).fields ++ fields := by
  show (((t.add (t.make name (some super) fields)).attach t.next Core.class).get t.next).fields = _
  rw [get_attach_add]
  rfl

theorem next_define (name : String) (super : ClassRef) (fields : List String) :
    (t.define name super fields).next = t.next + 2 := by
  simp only [define, register, attach, ClassTable.next, add, Array.size_modify, Array.size_push]

theorem byName?_define (name : String) (super : ClassRef) (fields : List String) :
    (t.define name super fields).byName? name = some t.next := by
  rw [define, register, byName?, Directory.get?_put, ClassTable.name, get_attach_add]
  exact if_pos rfl

/-- What a table is of which nothing but methods of a class were changed, and these as listed. -/
structure Adds (t t' : ClassTable) (c : ClassRef) (list : List (MethodTree × Sketch)) : Prop where
  next : t'.next = t.next
  registry : t'.registry = t.registry
  lineage : ∀ k, (t'.get k).lineage = (t.get k).lineage
  metaclass : ∀ k, (t'.get k).metaclass = (t.get k).metaclass
  fields : ∀ k, (t'.get k).fields = (t.get k).fields
  other : ∀ k s, (∀ e ∈ list, s ≠ e.1.selector) → t'.own? k s = t.own? k s
  own : ∀ e ∈ list, ∃ code, t'.own? c e.1.selector = some (.method code) ∧ code.Follows e.2

theorem Adds.refl (t : ClassTable) (c : ClassRef) : t.Adds t c [] :=
  ⟨rfl, rfl, fun _ => rfl, fun _ => rfl, fun _ => rfl, fun _ _ _ => rfl, by rintro e ⟨⟩⟩

theorem Adds.lookup (h : t.Adds t' c list) (k : ClassRef) (hs : ∀ e ∈ list, s ≠ e.1.selector) :
    t'.lookup k s = t.lookup k s := by
  rw [ClassTable.lookup, ClassTable.lookup, h.lineage]
  exact congrArg (List.findSome? · _) (funext fun j => h.other j s hs)

theorem Adds.finds (h : t.Adds t' c list) {e : MethodTree × Sketch} (he : e ∈ list) :
    ∃ code, t'.lookup c e.1.selector = some (.method code) ∧ code.Follows e.2 := by
  obtain ⟨code, hcode, hfollows⟩ := h.own e he
  exact ⟨code, lookup_of_own? hcode, hfollows⟩

/-- One more method is installed first. -/
theorem Adds.cons {code : Code} {m : MethodTree} {k : Sketch} (hc : c < t.next)
    (hsignature : code.signature = m.selector) (hfollows : code.Follows k)
    (hnew : ∀ e ∈ list, m.selector ≠ e.1.selector)
    (h : (t.install c (.method code)).Adds t' c list) : t.Adds t' c ((m, k) :: list) := by
  have hget := t.get_install c (.method code)
  constructor
  · exact h.next.trans Array.size_modify
  · exact h.registry
  · intro j
    rw [h.lineage, hget]
    split <;> rfl
  · intro j
    rw [h.metaclass, hget]
    split <;> rfl
  · intro j
    rw [h.fields, hget]
    split <;> rfl
  · intro j s hs
    rw [h.other j s fun e he => hs e (List.mem_cons_of_mem _ he)]
    refine own?_install_of_ne ?_ c j
    rw [Invokable.signature, hsignature]
    exact hs _ List.mem_cons_self
  · intro e he
    obtain rfl | he := List.mem_cons.1 he
    · refine ⟨code, ?_, hfollows⟩
      rw [h.other c _ hnew, ← hsignature]
      exact own?_install_self hc
    · exact h.own e he

end ClassTable

/-! ### Worlds -/

namespace World

variable {w : World} {c : ClassRef}

/-- A method that is compiled is installed, and nothing else comes of it but codes and events. -/
theorem define_eq {m : MethodTree} {code : Code} {supply : Supply} {events : List Event}
    (h : m.lower c (w.classes.get c).fields w.settings.inlining w.supply =
      ⟨.ok code, supply, events⟩) :
    ∃ codes events, w.define c m = (.ok code, { w with
      classes := w.classes.install c (.method code), supply, codes, events }) := by
  refine ⟨code :: w.codes, if w.watched then events ++ w.events else w.events, ?_⟩
  rw [define, compile, h]
  cases w.watched <;> simp [install, adopt]

/-- Methods that are compiled as sketched are defined. -/
theorem defineAll_sketched {list : List (MethodTree × Sketch)} {inlining : Bool} {supply : Supply}
    (hc : c < w.classes.next) (hfields : (w.classes.get c).fields = [])
    (hinlining : w.settings.inlining = inlining)
    (hdistinct : (list.map fun e => e.1.selector).Nodup)
    (h : Workload.compilesAll c inlining list w.supply = some supply) :
    ∃ classes codes events, w.defineAll c (list.map Prod.fst) =
        (.ok (), { w with classes, supply, codes, events }) ∧
      w.classes.Adds classes c list := by
  induction list generalizing w with
  | nil =>
    cases h
    exact ⟨w.classes, w.codes, w.events, rfl, .refl _ _⟩
  | cons e list ih =>
    obtain ⟨m, k⟩ := e
    rw [List.map_cons, List.nodup_cons] at hdistinct
    rw [Workload.compilesAll] at h
    split at h
    · rename_i code supply₁ events hlower
      split at h
      · rename_i hshows
        rw [Bool.and_eq_true, beq_iff_eq] at hshows
        rw [MethodTree.lowerTo_eq, ← hfields, ← hinlining] at hlower
        obtain ⟨codes₁, events₁, hdefine⟩ := define_eq hlower
        have hget := w.classes.get_install c (.method code) c
        obtain ⟨classes, codes, events, hrest, hadds⟩ := ih (w := { w with
            classes := w.classes.install c (.method code), supply := supply₁, codes := codes₁,
            events := events₁ })
          (hc.trans_eq Array.size_modify.symm) (by
            show ((w.classes.install c (.method code)).get c).fields = []
            rw [hget]
            split <;> exact hfields) hinlining hdistinct.2 h
        refine ⟨classes, codes, events, ?_, hadds.cons hc hshows.2 hshows.1 fun e he heq => ?_⟩
        · rw [List.map_cons, defineAll, hdefine]
          exact hrest
        · exact hdistinct.1 (heq ▸ List.mem_map_of_mem he)
      · cases h
    · cases h

end World

end Parley
