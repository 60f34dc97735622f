import Mathlib.Data.Finset.Card
import Mathlib.Logic.Relation
import Parley.Proofs.Listings

/-!
# Printing

The text of an array is made of the texts of its elements. So a value has a text exactly if no
array that holds itself, directly or through others, is come by in printing it (`World.Endless`):
the arrays that are come by get fewer with every level, as long as none is come by again.

Programs can make such arrays, with `at:put:`. Whoever prints one never comes back: the primitives
`printString`, `println` and `printString:`, and the handler that records a condition with the texts
of its receiver and its values (`Rendering`).

* `World.display?_eq_none`: what has no text;
* `World.display?_eq_some`: which text there is otherwise;
* `Machine.renders_iff`: what is asked to print comes to an end exactly if there is a text.
-/

namespace Parley

open Relation

/-- An array has another one among its elements. -/
def Heap.Holds (h : Heap) (a b : ArrayRef) : Prop :=
  .array b ∈ h.array a

namespace World

variable {w : World} {v : Value} {a b : ArrayRef} {n : Nat} {t : String}

/-! ### Values that are come by -/

/-- In printing a value an array is come by. -/
def Meets (w : World) (v : Value) (a : ArrayRef) : Prop :=
  ∃ b, v = .array b ∧ ReflTransGen w.heap.Holds b a

/-- In printing a value an array is come by that holds itself, directly or through others. -/
def Endless (w : World) (v : Value) : Prop :=
  ∃ a, w.Meets v a ∧ TransGen w.heap.Holds a a

theorem Meets.of_mem (hv : v ∈ w.heap.array a) (h : w.Meets v b) : w.Meets (.array a) b := by
  obtain ⟨c, rfl, hc⟩ := h
  exact ⟨a, rfl, .head hv hc⟩

theorem Endless.of_mem (hv : v ∈ w.heap.array a) (h : w.Endless v) : w.Endless (.array a) := by
  obtain ⟨b, hb, hcycle⟩ := h
  exact ⟨b, hb.of_mem hv, hcycle⟩

/-- Whoever comes by an array that holds itself does so in one of the elements, too. -/
theorem Endless.mem (h : w.Endless (.array a)) : ∃ v ∈ w.heap.array a, w.Endless v := by
  obtain ⟨b, ⟨_, ⟨⟩, hpath⟩, hcycle⟩ := h
  cases hpath.cases_head with
  | inl heq =>
    obtain rfl := heq
    obtain ⟨c, hc, hback⟩ := TransGen.head'_iff.1 hcycle
    exact ⟨.array c, hc, a, ⟨c, rfl, hback⟩, hcycle⟩
  | inr hstep =>
    obtain ⟨c, hc, hrest⟩ := hstep
    exact ⟨.array c, hc, b, ⟨c, rfl, hrest⟩, hcycle⟩

/-! ### Values with a text -/

theorem mapM_eq_none {f : Value → Option String} {l : List Value} :
    l.mapM f = none ↔ ∃ v ∈ l, f v = none := by
  induction l with
  | nil => simp
  | cons v l ih =>
    rw [List.mapM_cons]
    cases hv : f v with
    | none => simp [hv]
    | some t =>
      cases hl : l.mapM f with
      | none => simpa [hv, hl] using ih.1 hl
      | some ts =>
        have := mt ih.2 (by simp [hl])
        simpa [hv, hl] using this

/-- The text of an array lacks if that of an element does. -/
theorem displayIn?_array_eq_none :
    w.displayIn? (n + 1) (.array a) = none ↔ ∃ v ∈ w.heap.array a, w.displayIn? n v = none := by
  rw [displayIn?, Option.map_eq_none_iff, mapM_eq_none]
  simp only [Array.mem_toList_iff]

/-- However many levels are looked at, there is no text. -/
theorem Endless.displayIn? (h : w.Endless v) (n : Nat) : w.displayIn? n v = none := by
  induction n generalizing v with
  | zero =>
    obtain ⟨a, ⟨b, rfl, -⟩, -⟩ := h
    rfl
  | succ n ih =>
    obtain ⟨a, ⟨b, rfl, hpath⟩, hcycle⟩ := h
    obtain ⟨u, hu, hendless⟩ := Endless.mem ⟨a, ⟨b, rfl, hpath⟩, hcycle⟩
    exact displayIn?_array_eq_none.2 ⟨u, hu, ih hendless⟩

section

open Classical in
/-- The arrays that are come by in printing a value. -/
noncomputable def met (w : World) (v : Value) : Finset ArrayRef :=
  (Finset.range w.heap.arrays.size).filter (w.Meets v)

theorem mem_met : a ∈ w.met v ↔ a < w.heap.arrays.size ∧ w.Meets v a := by
  classical
  rw [met, Finset.mem_filter, Finset.mem_range]

theorem card_met_le : (w.met v).card ≤ w.heap.arrays.size := by
  classical
  exact (Finset.card_filter_le _ _).trans_eq (Finset.card_range _)

/-- An array that does not come by itself again leaves fewer for its elements. -/
theorem card_met_lt (h : ¬w.Endless (.array a)) (hv : v ∈ w.heap.array a) :
    (w.met v).card < (w.met (.array a)).card := by
  refine Finset.card_lt_card ((Finset.ssubset_iff_of_subset fun b hb => ?_).2 ⟨a, ?_, ?_⟩)
  · exact mem_met.2 ⟨(mem_met.1 hb).1, (mem_met.1 hb).2.of_mem hv⟩
  · refine mem_met.2 ⟨?_, a, rfl, .refl⟩
    by_contra hlt
    have hnone : w.heap.arrays[a]? = none := Array.getElem?_eq_none (Nat.le_of_not_lt hlt)
    rw [Heap.array, Array.getD_eq_getD_getElem?, hnone] at hv
    simp at hv
  · intro ha
    obtain ⟨-, b, rfl, hback⟩ := mem_met.1 ha
    exact h ⟨a, ⟨a, rfl, .refl⟩, TransGen.head' hv hback⟩

end

/-- What comes by no array that holds itself has a text within as many levels as there are arrays to
    come by, and one more. -/
theorem displayIn?_ne_none (h : ¬w.Endless v) (hn : (w.met v).card < n) :
    w.displayIn? n v ≠ none := by
  induction n generalizing v with
  | zero => exact absurd hn (Nat.not_lt_zero _)
  | succ n ih =>
    cases v with
    | array a =>
      intro hnone
      obtain ⟨u, hu, hunone⟩ := displayIn?_array_eq_none.1 hnone
      refine ih (fun hendless => h (hendless.of_mem hu)) ?_ hunone
      exact (card_met_lt h hu).trans_le (Nat.le_of_lt_succ hn)
    | _ => exact Option.some_ne_none _

/-- The values without a text are those that come by an array that holds itself. -/
theorem display?_eq_none : w.display? v = none ↔ w.Endless v := by
  constructor
  · intro hnone
    by_contra h
    exact displayIn?_ne_none h (Nat.lt_succ_of_le card_met_le) hnone
  · exact fun h => h.displayIn? _

/-! ### Texts -/

/-- The texts of values: that of an array is made of those of its elements. -/
inductive Spells (w : World) : List Value → List String → Prop
  | nil : Spells w [] []
  | plain {v : Value} {t : String} {vs : List Value} {ts : List String} :
      (∀ a, v ≠ .array a) → w.display? v = some t → Spells w vs ts → Spells w (v :: vs) (t :: ts)
  | array {a : ArrayRef} {inner : List String} {vs : List Value} {ts : List String} :
      Spells w (w.heap.array a).toList inner → Spells w vs ts →
        Spells w (.array a :: vs) (("#(" ++ Text.joined " " inner ++ ")") :: ts)

namespace Spells

theorem of_mapM {vs : List Value} {ts : List String}
    (hone : ∀ v t, w.displayIn? n v = some t → w.Spells [v] [t])
    (h : vs.mapM (w.displayIn? n) = some ts) : w.Spells vs ts := by
  induction vs generalizing ts with
  | nil =>
    cases h
    exact .nil
  | cons v vs ih =>
    rw [List.mapM_cons] at h
    obtain ⟨t, ht, h⟩ := Option.bind_eq_some_iff.1 h
    obtain ⟨rest, hrest, h⟩ := Option.bind_eq_some_iff.1 h
    cases h
    cases hone v t ht with
    | plain hv ht' => exact .plain hv ht' (ih hrest)
    | array hinner => exact .array hinner (ih hrest)

theorem of_displayIn? (h : w.displayIn? n v = some t) : w.Spells [v] [t] := by
  induction n generalizing v t with
  | zero =>
    cases v with
    | array => cases h
    | _ => exact .plain (by rintro a ⟨⟩) h .nil
  | succ n ih =>
    cases v with
    | array a =>
      rw [displayIn?] at h
      obtain ⟨inner, hinner, rfl⟩ := Option.map_eq_some_iff.1 h
      exact .array (of_mapM (fun v t => ih) hinner) .nil
    | _ => exact .plain (by rintro a ⟨⟩) h .nil

theorem unique {vs : List Value} {ts ts' : List String} (h : w.Spells vs ts)
    (h' : w.Spells vs ts') : ts' = ts := by
  induction h generalizing ts' with
  | nil =>
    cases h'
    rfl
  | plain hv ht _ ih =>
    cases h' with
    | plain _ ht' hrest' =>
      rw [ih hrest', Option.some.inj (ht'.symm.trans ht)]
    | array => exact absurd rfl (hv _)
  | array _ _ ihinner ih =>
    cases h' with
    | plain hv => exact absurd rfl (hv _)
    | array hinner' hrest' => rw [ihinner hinner', ih hrest']

theorem not_endless {vs : List Value} {ts : List String} (h : w.Spells vs ts) :
    ∀ v ∈ vs, ¬w.Endless v := by
  induction h with
  | nil => rintro v ⟨⟩
  | plain hv _ _ ih =>
    refine List.forall_mem_cons.2 ⟨?_, ih⟩
    rintro ⟨a, ⟨b, rfl, -⟩, -⟩
    exact hv b rfl
  | array _ _ ihinner ih =>
    refine List.forall_mem_cons.2 ⟨fun hendless => ?_, ih⟩
    obtain ⟨u, hu, hagain⟩ := hendless.mem
    exact ihinner u (Array.mem_toList_iff.2 hu) hagain

end Spells

/-- A text is that of a value if it is made as texts are. -/
theorem display?_eq_some : w.display? v = some t ↔ w.Spells [v] [t] := by
  constructor
  · exact Spells.of_displayIn?
  · intro h
    have hsome : w.display? v ≠ none :=
      mt display?_eq_none.1 (h.not_endless v (List.mem_singleton_self v))
    obtain ⟨t', ht'⟩ := Option.ne_none_iff_exists'.1 hsome
    rw [ht', ← List.cons.inj (h.unique (Spells.of_displayIn? ht')) |>.1]

/-! ### Worlds with the same texts -/

theorem displayIn?_congr {w' : World} (hheap : w'.heap = w.heap) (hclasses : w'.classes = w.classes)
    (n : Nat) : w'.displayIn? n = w.displayIn? n := by
  induction n with
  | zero =>
    funext v
    cases v <;> simp only [displayIn?, hheap, hclasses]
  | succ n ih =>
    funext v
    cases v <;> simp only [displayIn?, hheap, hclasses, ih]

theorem display?_congr {w' : World} (hheap : w'.heap = w.heap)
    (hclasses : w'.classes = w.classes) : w'.display? = w.display? := by
  funext v
  rw [display?, display?, hheap, displayIn?_congr hheap hclasses]

theorem conditionText?_congr {w' : World} (hheap : w'.heap = w.heap)
    (hclasses : w'.classes = w.classes) (c : Condition) :
    w'.conditionText? c = w.conditionText? c := by
  have hdebug : w'.debug? = w.debug? := by
    funext v
    cases v <;> simp only [debug?, display?_congr hheap hclasses]
  cases c <;> simp only [conditionText?, debugList?, hdebug, hheap]

/-! ### Listings -/

/-- In listings, too, the values without a text are those that come by an array that holds
    itself. -/
theorem debug?_eq_none : w.debug? v = none ↔ w.Endless v := by
  have hplain : ∀ {u : Value}, (∀ a, u ≠ .array a) → ¬w.Endless u := by
    rintro u hu ⟨a, ⟨b, rfl, -⟩, -⟩
    exact hu b rfl
  cases v with
  | string | big => exact iff_of_false (Option.some_ne_none _) (hplain (by rintro a ⟨⟩))
  | _ => exact display?_eq_none

end World

/-! ### Conditions -/

/-- The values that a condition is about, but for its receiver. -/
def Condition.values : Condition → List Value
  | .notUnderstood _ arguments => arguments
  | .escaped _ v => [v]
  | .unknownGlobal _ => []

theorem World.conditionText?_eq_none {w : World} {c : Condition} :
    w.conditionText? c = none ↔ ∃ v ∈ c.values, w.Endless v := by
  cases c with
  | notUnderstood selector arguments =>
    simp only [conditionText?, debugList?, Option.map_eq_none_iff, mapM_eq_none, debug?_eq_none,
      Condition.values]
  | escaped block v =>
    simp [conditionText?, debug?_eq_none, Condition.values]
  | unknownGlobal name => simp [conditionText?, Condition.values]

/-! ### What prints -/

/-- What a program or a host has printed. -/
inductive Rendering where
  /-- A value, as a new string. -/
  | text (v : Value)
  /-- A value, as a line of the output. -/
  | line (v : Value)
  /-- A value, by the object that stands for the system. -/
  | written (system v : Value)
  /-- The receiver and the values of a condition, for a handler that records them. -/
  | report (receiver : Value) (c : Condition)

namespace Rendering

/-- The values to print. -/
def values : Rendering → List Value
  | .text v | .line v | .written _ v => [v]
  | .report receiver c => receiver :: c.values

/-- A job asks for it: it sends a message for which the library lists what prints, or reports to a
    handler that records. -/
def Asked (w : World) (job : Job) : Rendering → Prop
  | .text v => w.classes.Performs (w.classOf v) "printString" .printString ∧
      w.Fulfils "printString" [v] job
  | .line v => w.classes.Performs (w.classOf v) "println" .println ∧ w.Fulfils "println" [v] job
  | .written system v => w.classes.Performs (w.classOf system) "printString:" .print ∧
      w.Fulfils "printString:" [system, v] job
  | .report receiver c => (∃ replies, w.handler = .scripted replies) ∧ job = .report receiver c

/-- What a handler does that has recorded a report. -/
def recorded (replies : List Reply) (report : Report) (receiver : Value) (c : Condition) (w : World)
    (k : List Pending) : Machine :=
  let w := { w with reports := report :: w.reports }
  match replies with
  | [] => ⟨w, .answer .nil, k⟩
  | reply :: rest =>
    let w := Handler.writeAll reply.writes { w with handler := .scripted rest }
    let (job, w, k) := Handler.react reply.reaction receiver c w k
    ⟨w, job, k⟩

/-- A machine has done it, with the texts of the values. -/
inductive Done (w : World) (k : List Pending) : Rendering → Machine → Prop
  | text {v : Value} {t : String} : w.Spells [v] [t] →
      Done w k (.text v) ⟨(w.newString t).2, .answer (w.newString t).1, k⟩
  | line {v : Value} {t : String} : w.Spells [v] [t] →
      Done w k (.line v) ⟨w.write (t ++ "\n"), .answer v, k⟩
  | written {system v : Value} {t : String} : w.Spells [v] [t] →
      Done w k (.written system v) ⟨w.write t, .answer system, k⟩
  | report {receiver : Value} {c : Condition} {shown text : String} {replies : List Reply} :
      w.handler = .scripted replies → w.Spells [receiver] [shown] → w.conditionText? c = some text →
        Done w k (.report receiver c) (recorded replies
          (.condition c.kind c.handlerSelector shown text) receiver c (Machine.noteCondition c w) k)

/-- A report is recorded if its receiver and its values have texts. -/
theorem step_report {w : World} {replies : List Reply} (hw : w.handler = .scripted replies)
    (receiver : Value) (c : Condition) (k : List Pending) :
    Machine.step ⟨w, .report receiver c, k⟩ =
      match w.display? receiver, w.conditionText? c with
      | some shown, some told => recorded replies
          (.condition c.kind c.handlerSelector shown told) receiver c (Machine.noteCondition c w) k
      | _, _ => ⟨Machine.noteCondition c w, .hang, k⟩ := by
  obtain ⟨hheap, hclasses, hhandler⟩ : (Machine.noteCondition c w).heap = w.heap ∧
      (Machine.noteCondition c w).classes = w.classes ∧
      (Machine.noteCondition c w).handler = w.handler := by
    cases c with
    | notUnderstood =>
      rw [Machine.noteCondition, World.note]
      split <;> exact ⟨rfl, rfl, rfl⟩
    | _ => exact ⟨rfl, rfl, rfl⟩
  have hdisplay := World.display?_congr hheap hclasses
  have htext := World.conditionText?_congr hheap hclasses c
  simp only [Machine.step, Handler.job, recorded, hhandler.trans hw, hdisplay, htext]
  cases w.display? receiver with
  | none => rfl
  | some shown =>
    cases w.conditionText? c with
    | none => rfl
    | some told => cases replies <;> rfl

end Rendering

namespace Machine

/-- A machine that hangs does so for ever. -/
theorem hangs (w : World) (k : List Pending) (n : Nat) : step^[n] ⟨w, .hang, k⟩ = ⟨w, .hang, k⟩ :=
  Function.iterate_fixed rfl n

/-- What comes to a machine with the text of a value, and hangs if there is none. -/
theorem done_or_hangs {w : World} {k : List Pending} {r : Rendering} {m : Machine} {v : Value}
    {f : String → Machine} (hvalues : r.values = [v])
    (hdone : ∀ t, w.Spells [v] [t] → r.Done w k (f t))
    (h : ∃ n, step^[n] m = match w.display? v with
      | some t => f t
      | none => ⟨w, .hang, k⟩) :
    ((∀ v ∈ r.values, ¬w.Endless v) → ∃ n, r.Done w k (step^[n] m)) ∧
    ((∃ v ∈ r.values, w.Endless v) → ∃ n w', step^[n] m = ⟨w', .hang, k⟩) := by
  obtain ⟨n, hn⟩ := h
  rw [hvalues, List.forall_mem_singleton]
  constructor
  · intro hends
    obtain ⟨t, ht⟩ := Option.ne_none_iff_exists'.1 (mt World.display?_eq_none.1 hends)
    rw [ht] at hn
    exact ⟨n, hn ▸ hdone t (World.display?_eq_some.1 ht)⟩
  · rintro ⟨u, hu, hendless⟩
    obtain rfl := List.mem_singleton.1 hu
    rw [World.display?_eq_none.2 hendless] at hn
    exact ⟨n, w, hn⟩

/-- What is asked to print has printed some steps later if no array that holds itself is come by in
    printing the values. Otherwise it hangs some steps later, and does so for ever. -/
theorem renders_iff {w : World} {job : Job} {r : Rendering} (h : r.Asked w job)
    (k : List Pending) :
    ((∀ v ∈ r.values, ¬w.Endless v) → ∃ n, r.Done w k (step^[n] ⟨w, job, k⟩)) ∧
    ((∃ v ∈ r.values, w.Endless v) → ∃ n w', ∀ i, step^[i + n] ⟨w, job, k⟩ = ⟨w', .hang, k⟩) := by
  -- It is enough to come to hang once.
  suffices hstops : ((∀ v ∈ r.values, ¬w.Endless v) → ∃ n, r.Done w k (step^[n] ⟨w, job, k⟩)) ∧
      ((∃ v ∈ r.values, w.Endless v) → ∃ n w', step^[n] ⟨w, job, k⟩ = ⟨w', .hang, k⟩) by
    refine ⟨hstops.1, fun hendless => ?_⟩
    obtain ⟨n, w', hn⟩ := hstops.2 hendless
    exact ⟨n, w', fun i => by rw [Function.iterate_add_apply, hn, hangs]⟩
  cases r with
  | text v =>
    obtain ⟨n, hn⟩ := World.applies_of_performs h.1 rfl (by rintro (_ | _) ⟨⟩) h.2 k
    refine done_or_hangs rfl (fun t => .text) ⟨n, hn.trans ?_⟩
    show Machine.mk (textAnswer v w).2 (textAnswer v w).1 k = _
    rw [textAnswer]
    cases w.display? v <;> rfl
  | line v =>
    obtain ⟨n, hn⟩ := World.applies_of_performs h.1 rfl (by rintro (_ | _) ⟨⟩) h.2 k
    refine done_or_hangs rfl (fun t => .line) ⟨n, hn.trans ?_⟩
    show Machine.mk (Objects.printing v "\n" v w).2 (Objects.printing v "\n" v w).1 k = _
    rw [Objects.printing]
    cases w.display? v <;> rfl
  | written system v =>
    obtain ⟨n, hn⟩ := World.applies_of_performs h.1 rfl (by rintro (_ | _) ⟨⟩) h.2 k
    refine done_or_hangs rfl (fun t => .written) ⟨n, hn.trans ?_⟩
    show Machine.mk (Objects.printing v "" system w).2 (Objects.printing v "" system w).1 k = _
    rw [Objects.printing]
    cases w.display? v <;> simp
  | report receiver c =>
    obtain ⟨⟨replies, hw⟩, rfl⟩ := h
    have hstep := Rendering.step_report hw receiver c k
    constructor
    · intro hends
      obtain ⟨shown, hshown⟩ := Option.ne_none_iff_exists'.1
        (mt World.display?_eq_none.1 (hends receiver (List.mem_cons_self ..)))
      have htold : w.conditionText? c ≠ none := by
        rw [Ne, World.conditionText?_eq_none]
        rintro ⟨v, hv, hendless⟩
        exact hends v (List.mem_cons_of_mem _ hv) hendless
      obtain ⟨told, htold⟩ := Option.ne_none_iff_exists'.1 htold
      rw [hshown, htold] at hstep
      refine ⟨1, ?_⟩
      rw [Function.iterate_one, hstep]
      exact .report hw (World.display?_eq_some.1 hshown) htold
    · intro hendless
      refine ⟨1, noteCondition c w, hstep.trans ?_⟩
      have hnone : w.display? receiver = none ∨ w.conditionText? c = none := by
        obtain ⟨v, hv, hv'⟩ := hendless
        rcases List.mem_cons.1 hv with rfl | hv
        · exact .inl (World.display?_eq_none.2 hv')
        · exact .inr (World.conditionText?_eq_none.2 ⟨v, hv, hv'⟩)
      cases hshown : w.display? receiver with
      | none => rfl
      | some shown =>
        rw [hnone.resolve_left (by rw [hshown]; exact Option.some_ne_none _)]

/-- A machine that comes about goes on to do so. -/
theorem Reachable.steps {m : Machine} (hm : m.Reachable) (n : Nat) :
    (Machine.step^[n] m).Reachable := by
  induction n with
  | zero => exact hm
  | succ n ih =>
    rw [Function.iterate_succ_apply']
    exact ih.step

/-- A program can have an array hold itself, as the last of its elements, wherever `at:put:` is that
    of the library. -/
theorem Reachable.knots {m : Machine} (hm : m.Reachable) (hs : m.world.classes.Stocks "at:put:")
    (items : List Value) (hitems : m.world.Covers items) {i : Int64}
    (hi : i.toInt = items.length + 1) :
    ∃ m' : Machine, ∃ a, m'.Reachable ∧ m'.world.classes = m.world.classes ∧
      m'.world.heap.array a = (items ++ [Value.array a]).toArray := by
  -- It makes an array with nil at the end.
  let a := m.world.heap.arrays.size
  let w := (m.world.newArray (items ++ [.nil])).2
  have hw : Reachable { m with world := w } :=
    hm.change (.newArray (List.forall_mem_append.2 ⟨hitems, List.forall_mem_singleton.2 trivial⟩))
  have harrays : w.heap.arrays[a]? = some (items ++ [Value.nil]).toArray := Array.getElem?_push_size
  have harray : w.heap.array a = (items ++ [Value.nil]).toArray := by
    rw [Heap.array, Array.getD_eq_getD_getElem?, harrays]
    rfl
  -- Then it writes the array into this place.
  have hperforms : w.classes.Performs (w.classOf (.array a)) "at:put:" .atPut :=
    ClassTable.Stocks.performs (k := Core.array) hs (List.nil_append _).symm (by rintro j ⟨⟩)
      (by decide)
  have harity : Selector.arity "at:put:" = 2 := by decide
  have hfulfils : w.Fulfils "at:put:" [.array a, .int i, .array a]
      (.send "at:put:" [.array a, .int i, .array a]) := .lookup
  obtain ⟨n, hn⟩ := World.applies_of_performs hperforms (by rw [harity]; rfl)
    (by rintro (_ | _) ⟨⟩) hfulfils []
  have hplace : place [.array a, .int i, .array a] 1 (w.heap.array a).size "at:put:" =
      .ok items.length := by
    have hfits : 1 ≤ i.toInt ∧ i.toInt ≤ ((w.heap.array a).size : Int) := by
      rw [harray, hi, List.size_toArray, List.length_append, List.length_singleton]
      omega
    have hsmall : smallInteger [.array a, .int i, .array a] 1 "at:put:" = .ok i := rfl
    simp only [place, hsmall, if_pos hfits]
    exact congrArg Except.ok (by omega)
  have happly : Builtin.apply .atPut [.array a, .int i, .array a] w =
      (.answer (.array a), { w with heap := w.heap.setElement a items.length (.array a) }) := by
    simp only [Builtin.apply, Collections.setElement, argument, List.getD_cons_succ,
      List.getD_cons_zero, hplace]
  rw [happly] at hn
  have hrequest : Reachable ⟨w, .send "at:put:" [.array a, .int i, .array a], []⟩ :=
    hw.request (by simp [World.Requests, World.Covers, Value.Within])
  have hstep := hrequest.steps n
  rw [hn] at hstep
  refine ⟨_, a, hstep, rfl, ?_⟩
  show (w.heap.arrays.modify a fun l => l.setIfInBounds items.length (.array a)).getD a #[] = _
  rw [Array.getD_eq_getD_getElem?, Array.getElem?_modify, if_pos rfl, harrays, Option.map_some,
    Option.getD_some, List.setIfInBounds_toArray, List.set_append_right _ _ le_rfl, Nat.sub_self]
  rfl

/-- In a new machine, too. Printing such an array never comes to an end. -/
theorem renders_iff_itself : ∃ m : Machine, ∃ a, m.Reachable ∧
    m.world.heap.array a = #[.array a] ∧ ∃ n w', ∀ i,
      step^[i + n] ⟨m.world, .send "printString" [.array a], []⟩ = ⟨w', .hang, []⟩ := by
  have hlists : ∀ c < 28, World.furnished.classes.lists "at:put:" c = true ∧
      World.furnished.classes.lists "printString" c = true := by decide +kernel
  have hloops : ∀ m ∈ Library.loops, "at:put:" ≠ m.selector ∧ "printString" ≠ m.selector := by
    decide +kernel
  obtain ⟨m, a, hm, hclasses, harray⟩ :=
    (Reachable.boot .standard .standard .kept false).knots
      (ClassTable.boot_stocks .standard .kept false (fun m hm => (hloops m hm).1)
        fun c hc => (hlists c hc).1) [] (by rintro v ⟨⟩) (i := 1) rfl
  have hprint := ClassTable.boot_stocks .standard .kept false (fun m hm => (hloops m hm).2)
    fun c hc => (hlists c hc).2
  refine ⟨m, a, hm, harray, (renders_iff (r := .text (.array a)) ⟨?_, .lookup⟩ []).2 ?_⟩
  · -- Arrays have the primitive of all objects.
    have hsplit : m.world.classes.ancestors Core.array = [Core.array] ++ [Core.object] := by
      rw [ClassTable.ancestors, hm.rooted.library Core.array (by decide)]
      decide +kernel
    exact (hclasses.symm ▸ hprint).performs hsplit
      (List.forall_mem_singleton.2 (by decide +kernel)) (by decide +kernel)
  · have hself : m.world.heap.Holds a a := by
      rw [Heap.Holds, harray]
      exact Array.mem_singleton.2 rfl
    exact ⟨.array a, List.mem_singleton_self _, a, ⟨a, rfl, .refl⟩, .single hself⟩

end Machine

end Parley
