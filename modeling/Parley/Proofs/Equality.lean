import Parley.Proofs.Listings

/-!
# Equality and inequality

Two values are asked whether they are equal by `=`, and whether they are not by `~=`. The library
lists both for `Object` and for `Integer`, but only `=` for `Double` and for `String`. So a double,
a string or a symbol is asked by two primitives that do not know of one another: its own for `=`,
and that of `Object` for `~=`, which is the negation of another equality.

* `World.Clash`: the values on which the two equalities differ;
* `Machine.Reachable.negates_iff`: both messages are answered by Booleans, whatever instruction
  sends them, and one is the negation of the other exactly if the values do not clash.
-/

namespace Parley

open Machine

namespace ClassTable

variable {t : ClassTable} {c k : ClassRef}

/-! ### The classes with an equality -/

/-- The classes that the library lists `=` for. -/
theorem listed_equal (c : ClassRef) (h : Library.listed? c "=" ≠ none) :
    c = Core.object ∨ c ∈ [Core.integer, Core.double, Core.string] := by
  obtain ⟨listing, hlisted⟩ := Option.ne_none_iff_exists'.1 h
  have hmem := Library.mem_of_listed? hlisted
  have hall : ∀ c ∈ Library.primitives.map (·.1), Library.listed? c "=" ≠ none →
      c = Core.object ∨ c ∈ [Core.integer, Core.double, Core.string] := by decide
  exact hall c hmem h

/-- Those that it lists `~=` for. -/
theorem listed_notEqual (c : ClassRef) (h : Library.listed? c "~=" ≠ none) :
    c = Core.object ∨ c = Core.integer := by
  obtain ⟨listing, hlisted⟩ := Option.ne_none_iff_exists'.1 h
  have hmem := Library.mem_of_listed? hlisted
  have hall : ∀ c ∈ Library.primitives.map (·.1), Library.listed? c "~=" ≠ none →
      c = Core.object ∨ c = Core.integer := by decide
  exact hall c hmem h

theorem Rooted.lineage_of_equal (hr : t.Rooted)
    (h : k ∈ [Core.integer, Core.double, Core.string]) : (t.get k).lineage = [Core.object] := by
  have hall : ∀ k ∈ [Core.integer, Core.double, Core.string],
      k < 28 ∧ (initial.get k).lineage = [Core.object] := by decide
  obtain ⟨hlt, hlineage⟩ := hall k h
  exact (hr.library k hlt).trans hlineage

/-- Of the classes right below `Object` a class is below one at most. -/
theorem Rooted.below_unique (hr : t.Rooted) {k' : ClassRef} (hk : (t.get k).lineage = [Core.object])
    (hk' : (t.get k').lineage = [Core.object]) (h : t.Below c k) (h' : t.Below c k') : k' = k := by
  obtain ⟨pre, hsplit, hpre⟩ := hr.ancestors_of_below hk h
  rw [Below, hsplit, List.mem_append, List.mem_cons, List.mem_singleton] at h'
  rcases h' with h' | rfl | rfl
  · exact absurd hk' (hpre k' h').1
  · rfl
  · have hobject := (hr.library Core.object (by decide)).symm.trans hk'
    exact absurd hobject (by decide)

/-- What `=` is for a class. -/
theorem Stocks.performs_equal (h : t.Stocks "=") (hr : t.Rooted) (hc : c < t.next) :
    (t.Below c Core.integer → t.Performs c "=" (.compare .eq)) ∧
    (t.Below c Core.double → t.Performs c "=" (.compare .eq)) ∧
    (t.Below c Core.string → t.Performs c "=" .sameText) ∧
    ((∀ k ∈ [Core.integer, Core.double, Core.string], ¬t.Below c k) → t.Performs c "=" .equal) := by
  have honly : ∀ j, Library.listed? j "=" ≠ none →
      j = Core.object ∨ (t.get j).lineage = [Core.object] := fun j hj =>
    (listed_equal j hj).imp_right hr.lineage_of_equal
  refine ⟨fun hb => ?_, fun hb => ?_, fun hb => ?_, fun hapart => ?_⟩
  · exact h.performs_below hr honly (hr.lineage_of_equal (by simp)) hb (by decide)
  · exact h.performs_below hr honly (hr.lineage_of_equal (by simp)) hb (by decide)
  · exact h.performs_below hr honly (hr.lineage_of_equal (by simp)) hb (by decide)
  · exact h.performs_object hr hc (fun j hj => (listed_equal j hj).imp_right (hapart j))
      (by decide)

/-- What `~=` is for a class. -/
theorem Stocks.performs_notEqual (h : t.Stocks "~=") (hr : t.Rooted) (hc : c < t.next) :
    (t.Below c Core.integer → t.Performs c "~=" (.compare .ne)) ∧
    (¬t.Below c Core.integer → t.Performs c "~=" .notEqual) := by
  have hinteger : (t.get Core.integer).lineage = [Core.object] := hr.lineage_of_equal (by simp)
  refine ⟨fun hb => ?_, fun hapart => ?_⟩
  · refine h.performs_below hr (fun j hj => ?_) hinteger hb (by decide)
    rcases listed_notEqual j hj with hj | rfl
    · exact .inl hj
    · exact .inr hinteger
  · refine h.performs_object hr hc (fun j hj => ?_) (by decide)
    rcases listed_notEqual j hj with hj | rfl
    · exact .inl hj
    · exact .inr hapart

end ClassTable

/-! ### Two equalities -/

/-- The values on which the equality of doubles, or that of strings, differs from that of
    objects. -/
inductive World.Clash (w : World) : Value → Value → Prop
  /-- A double next to an integer that is equal to it as a number. -/
  | number {d : Double} {b : Value} {i : Int} : b.integer? = some i →
      d.compare? (.ofInt i) = some .eq → Clash w (.double d) b
  /-- A string next to the symbol with its characters. -/
  | string (o : Owner) (s : String) : Clash w (.string o s) (.symbol s)
  /-- A symbol next to a string with its characters. -/
  | symbol (s : Selector) (o : Owner) : Clash w (.symbol s) (.string o s)
  /-- What is neither a number nor a text, but of a class below `Double` or `String`, next to
      itself. -/
  | itself {a : Value} : Number.double? a = none → a.chars? = none →
      w.classes.Below (w.classOf a) Core.double ∨ w.classes.Below (w.classOf a) Core.string →
        Clash w a a

namespace World

variable {w : World} {a b : Value}

/-- The class of a value of the library is below no other class with an equality. -/
theorem apart_of_kind (hr : w.classes.Rooted) {k j : ClassRef}
    (hk : w.classes.Below (w.classOf a) k) (hkind : k ∈ [Core.integer, Core.double, Core.string])
    (hkind' : j ∈ [Core.integer, Core.double, Core.string])
    (h : w.classes.Below (w.classOf a) j) : j = k :=
  hr.below_unique (hr.lineage_of_equal hkind) (hr.lineage_of_equal hkind') hk h

theorem below_of_integer? (h : a.integer? ≠ none) :
    w.classes.Below (w.classOf a) Core.integer := by
  cases a with
  | int | big => exact List.mem_cons_self ..
  | _ => exact absurd rfl h

theorem below_of_chars? (hr : w.classes.Rooted) (h : a.chars? ≠ none) :
    w.classes.Below (w.classOf a) Core.string := by
  cases a with
  | string => exact List.mem_cons_self ..
  | symbol =>
    have hlineage : (w.classes.get Core.symbol).lineage = [Core.string, Core.object] :=
      (hr.library Core.symbol (by decide)).trans (by decide)
    show Core.string ∈ Core.symbol :: (w.classes.get Core.symbol).lineage
    rw [hlineage]
    simp
  | _ => exact absurd rfl h

/-- What has no order is not equal. -/
theorem compare_eq_getD (a b : Value) :
    (Number.compare? .eq a b).getD false = decide (Number.order? a b = some .eq) := by
  rw [Number.compare?]
  cases Number.order? a b with
  | none => rfl
  | some o => cases o <;> rfl

/-- What is no number has no order. -/
theorem compare_ne_getD (a b : Value) :
    (Number.compare? .ne a b).getD true = !(Number.compare? .eq a b).getD false := by
  rw [Number.compare?, Number.compare?]
  cases Number.order? a b with
  | none => rfl
  | some o => cases o <;> rfl

theorem order?_of_double?_none (h : Number.double? a = none) : Number.order? a b = none := by
  cases a with
  | int | big | double => cases h
  | _ => cases b <;> rfl

/-- Outside of numbers and texts, equality is identity. -/
theorem equals_of_plain (h : Number.double? a = none) (hchars : a.chars? = none) :
    a.equals b = decide (a = b) := by
  cases a with
  | int | big | double => cases h
  | string | symbol => cases hchars
  | _ => rfl

/-- The equality of doubles agrees with that of objects unless the values clash. -/
theorem equals_iff_of_double (hr : w.classes.Rooted)
    (hb : w.classes.Below (w.classOf a) Core.double) :
    a.equals b = (Number.compare? .eq a b).getD false ↔ ¬w.Clash a b := by
  have hinteger : a.integer? = none := by
    by_contra h
    exact absurd (apart_of_kind hr hb (by simp) (by simp) (below_of_integer? h)) (by decide)
  have hchars : a.chars? = none := by
    by_contra h
    exact absurd (apart_of_kind hr hb (by simp) (by simp) (below_of_chars? hr h)) (by decide)
  rw [compare_eq_getD]
  cases hdouble : Number.double? a with
  | none =>
    rw [order?_of_double?_none hdouble, equals_of_plain hdouble hchars]
    show decide (a = b) = false ↔ _
    rw [decide_eq_false_iff_not, not_iff_not]
    constructor
    · rintro rfl
      exact .itself hdouble hchars (.inl hb)
    · intro h
      cases h with
      | number => cases hdouble
      | string | symbol => cases hchars
      | itself => rfl
  | some x =>
    cases a with
    | double d =>
      -- Next to an integer, objects know of no equality and doubles do.
      have hmixed : ∀ i, b.integer? = some i →
          (false = decide (d.compare? (.ofInt i) = some .eq) ↔ ¬w.Clash (.double d) b) := by
        intro i hi
        rw [eq_comm, decide_eq_false_iff_not, not_iff_not]
        constructor
        · exact .number hi
        · intro h
          cases h with
          | number hi' heq =>
            rw [hi, Option.some.injEq] at hi'
            exact hi' ▸ heq
          | itself => cases hi
      cases b with
      | int i => exact hmixed i.toInt rfl
      | big i => exact hmixed i rfl
      | double y =>
        refine iff_of_true rfl fun h => ?_
        cases h with
        | number hi => cases hi
        | itself hnone => cases hnone
      | _ =>
        refine iff_of_true rfl fun h => ?_
        cases h with
        | number hi => cases hi
    | int | big => cases hinteger
    | _ => cases hdouble

/-- The equality of strings agrees with that of objects unless the values clash. -/
theorem equals_iff_of_string (hr : w.classes.Rooted)
    (hb : w.classes.Below (w.classOf a) Core.string) :
    a.equals b = Collections.sameText a b ↔ ¬w.Clash a b := by
  have hinteger : a.integer? = none := by
    by_contra h
    exact absurd (apart_of_kind hr hb (by simp) (by simp) (below_of_integer? h)) (by decide)
  have hdouble : Number.double? a = none := by
    cases a with
    | int | big => cases hinteger
    | double d =>
      exact absurd (apart_of_kind (j := Core.double) hr hb (by simp) (by simp)
        (List.mem_cons_self ..)) (by decide)
    | _ => rfl
  cases hchars : a.chars? with
  | none =>
    have htext : Collections.sameText a b = false := by
      rw [Collections.sameText, hchars]
    rw [htext, equals_of_plain hdouble hchars, decide_eq_false_iff_not, not_iff_not]
    constructor
    · rintro rfl
      exact .itself hdouble hchars (.inr hb)
    · intro h
      cases h with
      | number => cases hdouble
      | string | symbol => cases hchars
      | itself => rfl
  | some s =>
    cases a with
    | string o t =>
      cases b with
      | string o' t' =>
        refine iff_of_true rfl fun h => ?_
        cases h with
        | itself _ hnone => cases hnone
      | symbol t' =>
        show false = decide (t = t') ↔ _
        rw [eq_comm, decide_eq_false_iff_not, not_iff_not]
        constructor
        · rintro rfl
          exact .string o t
        · intro h
          cases h
          rfl
      | _ =>
        refine iff_of_true rfl fun h => ?_
        cases h
    | symbol t =>
      cases b with
      | string o' t' =>
        show false = decide (t = t') ↔ _
        rw [eq_comm, decide_eq_false_iff_not, not_iff_not]
        constructor
        · rintro rfl
          exact .symbol t o'
        · intro h
          cases h
          rfl
      | symbol t' =>
        refine iff_of_true (by simp [Value.equals, Value.integer?, Value.same,
          Collections.sameText, Value.chars?]) fun h => ?_
        cases h with
        | itself _ hnone => cases hnone
      | _ =>
        refine iff_of_true rfl fun h => ?_
        cases h
    | _ => cases hchars

/-- Values clash only where = is not that of integers or of all objects. -/
theorem Clash.below (hr : w.classes.Rooted) (h : w.Clash a b) :
    w.classes.Below (w.classOf a) Core.double ∨ w.classes.Below (w.classOf a) Core.string := by
  cases h with
  | number => exact .inl (List.mem_cons_self ..)
  | string => exact .inr (below_of_chars? hr nofun)
  | symbol => exact .inr (below_of_chars? hr nofun)
  | itself _ _ h => exact h

/-! ### Messages -/

theorem apply_compare_eq (a b : Value) (w : World) : Builtin.apply (.compare .eq) [a, b] w =
    (.answer (.bool ((Number.compare? .eq a b).getD false)), w) := by
  show (Numbers.compare .eq a b, w) = _
  rw [Numbers.compare.eq_def]
  cases Number.compare? .eq a b <;> rfl

theorem apply_compare_ne (a b : Value) (w : World) : Builtin.apply (.compare .ne) [a, b] w =
    (.answer (.bool ((Number.compare? .ne a b).getD true)), w) := by
  show (Numbers.compare .ne a b, w) = _
  rw [Numbers.compare.eq_def]
  cases Number.compare? .ne a b <;> rfl

/-- A message is answered by a value, with nothing else done, whatever it is sent by: an instruction
    with any site or none, or a primitive. -/
def Yields (w : World) (s : Selector) (arguments : List Value) (v : Value) : Prop :=
  ∀ job, w.Fulfils s arguments job → ∀ k, ∃ n, step^[n] ⟨w, job, k⟩ = ⟨w, .answer v, k⟩

/-- A message is answered by what the primitive answers that it finds. -/
theorem yields_of_performs {s : Selector} {builtin : Builtin} {v : Value}
    (h : w.classes.Performs (w.classOf a) s builtin) (hs : s.arity = 1)
    (happly : builtin.apply [a, b] w = (.answer v, w)) : w.Yields s [a, b] v := by
  intro job hjob k
  obtain ⟨n, hn⟩ := applies_of_performs h (by rw [hs]; rfl) (fun _ _ => by rw [happly]) hjob k
  exact ⟨n, by rw [hn, happly]⟩

end World

namespace Machine

/-- In any machine whose `=` and `~=` are those of the library, both are answered by Booleans, for
    any two values. The one is the negation of the other exactly if the values do not clash. -/
theorem Reachable.negates_iff {m : Machine} (hm : m.Reachable)
    (hequal : m.world.classes.Stocks "=") (hnotEqual : m.world.classes.Stocks "~=") (a b : Value) :
    ∃ p q : Bool, m.world.Yields "=" [a, b] (.bool p) ∧ m.world.Yields "~=" [a, b] (.bool q) ∧
      (q = !p ↔ ¬m.world.Clash a b) := by
  obtain ⟨s, hs⟩ := hm.sound
  have hr := hm.rooted
  have hc : m.world.classOf a < m.world.classes.next :=
    hs.world.next_eq ▸ hs.world.classOf_lt a
  obtain ⟨hinteger, hdouble, hstring, hother⟩ := hequal.performs_equal hr hc
  obtain ⟨hinteger', hother'⟩ := hnotEqual.performs_notEqual hr hc
  have hone : Selector.arity "=" = 1 ∧ Selector.arity "~=" = 1 := by decide +kernel
  by_cases hb : m.world.classes.Below (m.world.classOf a) Core.integer
  · refine ⟨_, _, World.yields_of_performs (hinteger hb) hone.1 (World.apply_compare_eq a b _),
      World.yields_of_performs (hinteger' hb) hone.2 (World.apply_compare_ne a b _),
      iff_of_true (World.compare_ne_getD a b) fun hclash => ?_⟩
    rcases hclash.below hr with h | h
    · exact absurd (World.apart_of_kind hr hb (by simp) (by simp) h) (by decide)
    · exact absurd (World.apart_of_kind hr hb (by simp) (by simp) h) (by decide)
  · have hne := World.yields_of_performs (v := .bool (!a.equals b)) (b := b) (hother' hb) hone.2 rfl
    by_cases hb' : m.world.classes.Below (m.world.classOf a) Core.double
    · refine ⟨_, _, World.yields_of_performs (hdouble hb') hone.1 (World.apply_compare_eq a b _),
        hne, ?_⟩
      rw [← World.equals_iff_of_double hr hb', Bool.not_eq_eq_eq_not, Bool.not_not]
    · by_cases hb'' : m.world.classes.Below (m.world.classOf a) Core.string
      · refine ⟨_, _, World.yields_of_performs (v := .bool (Collections.sameText a b))
          (hstring hb'') hone.1 rfl, hne, ?_⟩
        rw [← World.equals_iff_of_string hr hb'', Bool.not_eq_eq_eq_not, Bool.not_not]
      · refine ⟨_, _, World.yields_of_performs (v := .bool (a.equals b)) (hother ?_) hone.1 rfl,
          hne, ?_⟩
        · simp [hb, hb', hb'']
        · exact iff_of_true rfl fun hclash => (hclash.below hr).elim hb' hb''

/-- In a new machine, one as a double is equal to the integer one, and also unequal. -/
theorem Reachable.negates_iff_one : ∃ m : Machine,
    m = ⟨.boot .standard .standard .kept false, .answer .nil, []⟩ ∧ m.Reachable ∧
    m.world.classes.Stocks "=" ∧ m.world.classes.Stocks "~=" ∧ ∃ p : Bool,
      m.world.Yields "=" [.double (.ofInt 1), .int 1] (.bool p) ∧
      m.world.Yields "~=" [.double (.ofInt 1), .int 1] (.bool p) := by
  have hlists : ∀ c < 28, World.furnished.classes.lists "=" c = true ∧
      World.furnished.classes.lists "~=" c = true := by decide +kernel
  have hloops : ∀ m ∈ Library.loops, "=" ≠ m.selector ∧ "~=" ≠ m.selector := by
    decide +kernel
  have hequal := ClassTable.boot_stocks .standard .kept false (fun m hm => (hloops m hm).1)
    fun c hc => (hlists c hc).1
  have hnotEqual := ClassTable.boot_stocks .standard .kept false (fun m hm => (hloops m hm).2)
    fun c hc => (hlists c hc).2
  have hm := Reachable.boot .standard .standard .kept false
  obtain ⟨p, q, hp, hq, hiff⟩ := hm.negates_iff hequal hnotEqual (.double (.ofInt 1)) (.int 1)
  have hclash : (World.boot .standard .standard .kept false).Clash (.double (.ofInt 1)) (.int 1) :=
    .number (i := 1) (by decide) (by decide +kernel)
  obtain rfl : p = q := by
    by_contra hne
    exact absurd hclash (hiff.1 (Bool.eq_not.2 (Ne.symm hne)))
  exact ⟨_, rfl, hm, hequal, hnotEqual, p, hp, hq⟩

end Machine

end Parley
