import Parley.Proofs.Founding
import Parley.Proofs.Lineages

/-!
# What the library lists

The library lists primitives by class and selector, some with a shortcut next to them. A table that
has under a selector what is listed, and nothing else, stocks it: a new one does, and goes on to do
so until the selector is redefined for some class. What a lookup finds in it follows from the list
and from the superclasses of a class, and what becomes of a message follows from that.

* `ClassTable.boot_stocks`: a new table stocks the selectors of the library;
* `Stocks.performs`: what a lookup finds;
* `World.applies_of_performs`: a message is answered by the primitive that is found, whatever it is
  sent by.
-/

namespace Parley

/-! ### What the library lists -/

/-- What the library lists under a selector for a class. -/
def Library.listed? (c : ClassRef) (s : Selector) : Option (Builtin × Option Shortcut) :=
  (primitives.find? fun entry => entry.1 = c).bind fun entry =>
    (entry.2.find? fun primitive => primitive.1 = s).map (·.2)

theorem Library.mem_of_listed? {c : ClassRef} {s : Selector}
    {listing : Builtin × Option Shortcut} (h : listed? c s = some listing) :
    c ∈ primitives.map (·.1) := by
  obtain ⟨entry, hentry, -⟩ := Option.bind_eq_some_iff.1 h
  have hc := List.find?_some hentry
  exact List.mem_map.2 ⟨entry, List.mem_of_find?_eq_some hentry, of_decide_eq_true hc⟩

/-- A shortcut listed next to a primitive does what the primitive does. -/
theorem Library.builtin_of_listed? {c : ClassRef} {s : Selector} {b : Builtin}
    {op : Option Shortcut} (h : listed? c s = some (b, op)) : ∀ o ∈ op, b = o.builtin := by
  have hall : ∀ entry ∈ primitives, ∀ primitive ∈ entry.2, ∀ o ∈ primitive.2.2,
      primitive.2.1 = o.builtin := by decide
  obtain ⟨entry, hentry, hmap⟩ := Option.bind_eq_some_iff.1 h
  obtain ⟨primitive, hprimitive, heq⟩ := Option.map_eq_some_iff.1 hmap
  have hlisting := hall entry (List.mem_of_find?_eq_some hentry) primitive
    (List.mem_of_find?_eq_some hprimitive)
  rw [heq] at hlisting
  exact hlisting

/-- A table in which a selector is installed as in the library: for the same classes and as the same
    primitives. -/
structure ClassTable.Stocks (t : ClassTable) (s : Selector) : Prop where
  listed : ∀ c b op, Library.listed? c s = some (b, op) → ∃ p,
    t.own? c s = some (.primitive p) ∧ p.selector = s ∧ p.builtin = b ∧ p.shortcut = op
  only : ∀ c, Library.listed? c s = none → t.own? c s = none

namespace ClassTable

variable {t : ClassTable} {c k : ClassRef} {s : Selector}

/-- A lookup finds a primitive that does this; a shortcut that is listed next to it does so, too. -/
def Performs (t : ClassTable) (c : ClassRef) (s : Selector) (b : Builtin) : Prop :=
  ∃ p, t.lookup c s = some (.primitive p) ∧ p.selector = s ∧ p.builtin = b ∧
    ∀ op, p.shortcut = some op → b = op.builtin

theorem Stocks.performs (h : t.Stocks s) {pre post : List ClassRef} {b : Builtin}
    (hsplit : t.ancestors c = pre ++ k :: post) (hpre : ∀ j ∈ pre, Library.listed? j s = none)
    (hk : (Library.listed? k s).map (·.1) = some b) : t.Performs c s b := by
  obtain ⟨⟨b, op⟩, hlisted, rfl⟩ := Option.map_eq_some_iff.1 hk
  obtain ⟨p, hp, hs, hb, hshortcut⟩ := h.listed k b op hlisted
  exact ⟨p, lookup_of_ancestors hsplit (fun j hj => h.only j (hpre j hj)) hp, hs, hb,
    fun o ho => Library.builtin_of_listed? hlisted o (hshortcut.symm.trans ho)⟩

/-- A class below one right below `Object` has what that one has, if the library lists nothing but
    for such classes. -/
theorem Stocks.performs_below (h : t.Stocks s) (hr : t.Rooted) {b : Builtin}
    (honly : ∀ j, Library.listed? j s ≠ none →
      j = Core.object ∨ (t.get j).lineage = [Core.object])
    (hk : (t.get k).lineage = [Core.object]) (hb : t.Below c k)
    (hlisted : (Library.listed? k s).map (·.1) = some b) : t.Performs c s b := by
  obtain ⟨pre, hsplit, hpre⟩ := hr.ancestors_of_below hk hb
  refine h.performs hsplit (fun j hj => ?_) hlisted
  by_contra hne
  rcases honly j hne with hj' | hj'
  · exact (hpre j hj).2 hj'
  · exact (hpre j hj).1 hj'

/-- A class below none of the others has what `Object` has. -/
theorem Stocks.performs_object (h : t.Stocks s) (hr : t.Rooted) (hc : c < t.next) {b : Builtin}
    (honly : ∀ j, Library.listed? j s ≠ none → j = Core.object ∨ ¬t.Below c j)
    (hlisted : (Library.listed? Core.object s).map (·.1) = some b) : t.Performs c s b := by
  obtain ⟨pre, hsplit, hpre⟩ := hr.ancestors_eq hc
  refine h.performs hsplit (fun j hj => ?_) hlisted
  by_contra hne
  rcases honly j hne with rfl | hj'
  · exact hpre hj
  · exact hj' (by rw [Below, hsplit]; exact List.mem_append_left _ hj)

/-! ### A new world -/

/-- Whether a class has under a selector what the library lists there. -/
def lists (t : ClassTable) (s : Selector) (c : ClassRef) : Bool :=
  match Library.listed? c s with
  | none => (t.own? c s).isNone
  | some (b, op) =>
    match t.own? c s with
    | some (.primitive p) => p.selector == s && p.builtin == b && p.shortcut == op
    | _ => false

theorem stocks_of_lists (hnext : t.next = 28) (h : ∀ c < 28, t.lists s c = true) : t.Stocks s := by
  have hlibrary : ∀ c ∈ Library.primitives.map (·.1), c < 28 := by decide
  refine ⟨fun c b op hc => ?_, fun c hc => ?_⟩
  · have hlists := h c (hlibrary c (Library.mem_of_listed? hc))
    simp only [lists, hc] at hlists
    split at hlists
    · rename_i p hp
      simp only [Bool.and_eq_true, beq_iff_eq] at hlists
      exact ⟨p, hp, hlists.1.1, hlists.1.2, hlists.2⟩
    · cases hlists
  · by_cases hlt : c < 28
    · have hlists := h c hlt
      simp only [lists, hc] at hlists
      exact Option.isNone_iff_eq_none.1 hlists
    · have hge : t.classes.size ≤ c := hnext.le.trans (Nat.le_of_not_lt hlt)
      rw [own?, get, Array.getD_eq_getD_getElem?, Array.getElem?_eq_none hge]
      rfl

theorem Stocks.congr {t' : ClassTable} (h : t.Stocks s) (hown : ∀ c, t'.own? c s = t.own? c s) :
    t'.Stocks s where
  listed c b op hc := by
    rw [hown]
    exact h.listed c b op hc
  only c hc := (hown c).trans (h.only c hc)

/-- A new world has under a selector what the library lists, unless it is that of a loop. -/
theorem boot_stocks (settings : Settings) (sink : Sink) (watched : Bool)
    (hs : ∀ m ∈ Library.loops, s ≠ m.selector)
    (h : ∀ c < 28, World.furnished.classes.lists s c = true) :
    (World.boot settings .standard sink watched).classes.Stocks s := by
  have hstocks := stocks_of_lists World.furnished_classes.2.1 h
  obtain ⟨classes, supply, codes, events, heap, system, hboot, hadds, -⟩ :=
    World.boot_eq settings sink watched
  rw [hboot]
  refine hstocks.congr fun c => hadds.other c _ fun e he => hs e.1 ?_
  have hlist : Library.loops = (Workload.loopSketches settings.inlining).map Prod.fst := rfl
  rw [hlist]
  exact List.mem_map_of_mem he

end ClassTable

/-! ### Messages -/

namespace World

variable {w : World} {s : Selector} {arguments : List Value}

/-- A message to an object whose class has what the library lists is looked up, or calls the
    primitive that is listed, or comes to what that would come to. -/
theorem Fulfils.performed {b : Builtin}
    (h : w.classes.Performs (w.classOf (argument arguments 0)) s b) {job : Job}
    (hjob : w.Fulfils s arguments job) : job = .send s arguments ∨
      (∃ p : Primitive, job = .invoke (.primitive p) arguments ∧ p.selector = s ∧ p.builtin = b) ∨
        ∃ op : Shortcut, b = op.builtin ∧ (b.apply arguments w).1 = job := by
  obtain ⟨p, hp, hselector, rfl, hop⟩ := h
  have hfind : w.lookup (argument arguments 0) s = some (.primitive p) := hp
  cases hjob with
  | found =>
    rw [Machine.send, hfind]
    exact .inr (.inl ⟨p, rfl, hselector, rfl⟩)
  | lookup => exact .inl rfl
  | @shortcut p' op _ hp' hop' hjob =>
    obtain rfl : p = p' := by
      rw [hfind] at hp'
      cases hp'
      rfl
    obtain ⟨r, hr, rfl⟩ := Option.map_eq_some_iff.1 hjob
    exact .inr (.inr ⟨op, hop op hop', by rw [hop op hop', op.mirrors hr]⟩)

theorem send_of_performs {b : Builtin}
    (h : w.classes.Performs (w.classOf (argument arguments 0)) s b) : ∃ p : Primitive,
      Machine.send s arguments w = .invoke (.primitive p) arguments ∧ p.selector = s ∧
        p.builtin = b := by
  obtain ⟨p, hp, hselector, hb, -⟩ := h
  have hfind : w.lookup (argument arguments 0) s = some (.primitive p) := hp
  exact ⟨p, by rw [Machine.send, hfind], hselector, hb⟩

theorem step_performs {p : Primitive} (hs : arguments.length = p.selector.arity + 1)
    (k : List Pending) : Machine.step ⟨w, .invoke (.primitive p) arguments, k⟩ =
      ⟨(p.builtin.apply arguments w).2, (p.builtin.apply arguments w).1, k⟩ := by
  simp only [Machine.step, Machine.invoke, if_pos hs]
  rfl

/-- A message to an object whose class has what the library lists is answered by the primitive that
    is listed, whatever it is sent by: an instruction with any site or none, or a primitive. If it
    has a shortcut, it leaves the world as it is. -/
theorem applies_of_performs {b : Builtin}
    (h : w.classes.Performs (w.classOf (argument arguments 0)) s b)
    (hs : arguments.length = s.arity + 1)
    (hkeeps : ∀ op : Shortcut, b = op.builtin → (b.apply arguments w).2 = w) {job : Job}
    (hjob : w.Fulfils s arguments job)
    (k : List Pending) :
    ∃ n, Machine.step^[n] ⟨w, job, k⟩ =
      ⟨(b.apply arguments w).2, (b.apply arguments w).1, k⟩ := by
  rcases hjob.performed h with rfl | ⟨p, rfl, rfl, rfl⟩ | ⟨op, hop, rfl⟩
  · obtain ⟨p, hsend, rfl, rfl⟩ := send_of_performs h
    refine ⟨2, ?_⟩
    rw [Function.iterate_succ_apply]
    show Machine.step ⟨w, Machine.send p.selector arguments w, k⟩ = _
    rw [hsend, step_performs hs]
  · exact ⟨1, step_performs hs k⟩
  · exact ⟨0, by rw [hkeeps op hop]; rfl⟩

end World

end Parley
