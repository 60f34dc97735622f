import Parley.Proofs.Dispatch
import Parley.Proofs.Shortcuts

/-!
# The table of globals

No two cells have the same name, however cells come about (`Globals.Distinct`), and what is read
under a name is what was written under it last (`Globals.read?_write`).

Of all that a machine does, little touches the table: an instruction that reads a global makes a
cell for its name, a primitive writes, and a scripted handler writes before it reacts. So a step
does to the table what is in the list of its bindings (`Machine.step_becomes`), which is a matter of
the job alone.
-/

namespace Parley

/-! ### Cells -/

/-- Names with what is written under them, one after another. -/
abbrev Bindings := List (String × Value)

namespace Globals

variable {g : Globals} {name key : String} {c : CellRef} {v : Value}

/-- No two cells have the same name. -/
def Distinct (g : Globals) : Prop :=
  ∀ c < g.size, ∀ d < g.size, g.nameOf c = g.nameOf d → c = d

theorem nameOf_of_lt (h : c < g.size) : g.nameOf c = g[c].name := by
  simp only [nameOf, Array.getD_eq_getD_getElem?, Array.getElem?_eq_getElem h, Option.getD_some]

theorem nameOf_of_find? (h : g.find? name = some c) : c < g.size ∧ g.nameOf c = name := by
  rw [find?, Array.findIdx?_eq_some_iff_getElem] at h
  obtain ⟨hlt, hname, -⟩ := h
  exact ⟨hlt, (nameOf_of_lt hlt).trans (by simpa using hname)⟩

theorem find?_eq_none (h : g.find? name = none) (hc : c < g.size) : g.nameOf c ≠ name := by
  rw [find?, Array.findIdx?_eq_none_iff] at h
  rw [nameOf_of_lt hc]
  simpa using h _ (Array.getElem_mem hc)

theorem nameOf_push_of_lt (h : c < g.size) (cell : Cell) :
    Globals.nameOf (g.push cell) c = g.nameOf c := by
  have hlt : c < (g.push cell).size := Array.size_push cell ▸ Nat.lt_succ_of_lt h
  rw [nameOf_of_lt h, nameOf_of_lt hlt, Array.getElem_push_lt h]

theorem nameOf_push_size (cell : Cell) : Globals.nameOf (g.push cell) g.size = cell.name := by
  rw [nameOf_of_lt (by simp), Array.getElem_push_eq]

/-- A cell is made for a name that has none. -/
theorem Distinct.cell (h : g.Distinct) (name : String) : (g.cell name).2.Distinct := by
  rw [Globals.cell]
  split
  · exact h
  rename_i hnone
  intro c hc d hd hcd
  simp only [Array.size_push] at hc hd
  rcases Nat.lt_succ_iff_lt_or_eq.1 hc with hc | rfl <;>
    rcases Nat.lt_succ_iff_lt_or_eq.1 hd with hd | rfl
  · rw [nameOf_push_of_lt hc, nameOf_push_of_lt hd] at hcd
    exact h c hc d hd hcd
  · rw [nameOf_push_of_lt hc, nameOf_push_size] at hcd
    exact absurd hcd (find?_eq_none hnone hc)
  · rw [nameOf_push_of_lt hd, nameOf_push_size] at hcd
    exact absurd hcd.symm (find?_eq_none hnone hd)
  · rfl

/-- What is written into a cell leaves its name as it is. -/
theorem nameOf_modify (g : Globals) (c d : CellRef) (v : Value) :
    Globals.nameOf (g.modify c fun cell => { cell with value := some v }) d = g.nameOf d := by
  simp only [nameOf, Array.getD_eq_getD_getElem?, Array.getElem?_modify]
  split
  · cases g[d]? <;> rfl
  · rfl

theorem Distinct.write (h : g.Distinct) (name : String) (v : Value) :
    (g.write name v).Distinct := by
  have h' := h.cell name
  rw [Globals.write]
  dsimp only
  generalize g.cell name = r at h' ⊢
  obtain ⟨e, g'⟩ := r
  intro c hc d hd hcd
  rw [Array.size_modify] at hc hd
  rw [nameOf_modify, nameOf_modify] at hcd
  exact h' c hc d hd hcd

/-! ### Reading and writing -/

/-- A cell that was made for a name is empty. -/
theorem read?_cell (g : Globals) (name key : String) : (g.cell name).2.read? key = g.read? key := by
  rw [cell]
  split
  · rfl
  rename_i hnone
  rw [read?, read?, find?, Array.findIdx?_push, ← find?]
  cases hfind : g.find? key with
  | some c =>
    have hc := (nameOf_of_find? hfind).1
    rw [Option.some_or, Option.bind_some, Option.bind_some, get?, get?, Array.getElem?_push_lt hc,
      Array.getElem?_eq_getElem hc]
  | none =>
    simp only [Option.none_or, Option.bind_none]
    split
    · simp only [Option.bind_some, get?, Array.getElem?_push_size]
    · rfl

theorem find?_modify (g : Globals) (c : CellRef) (v : Value) (key : String) :
    Globals.find? (g.modify c fun cell => { cell with value := some v }) key = g.find? key := by
  rw [find?, find?]
  -- Cells are found by their names.
  have hnames : ∀ i (hi : i < (g.modify c fun cell => { cell with value := some v }).size)
      (hi' : i < g.size),
      (g.modify c fun cell => { cell with value := some v })[i].name = g[i].name := by
    intro i hi hi'
    rw [Array.getElem_modify]
    split <;> rfl
  refine Option.ext fun d => ?_
  rw [Array.findIdx?_eq_some_iff_getElem, Array.findIdx?_eq_some_iff_getElem]
  constructor
  · rintro ⟨hlt, hname, hearlier⟩
    have hlt' : d < g.size := Array.size_modify ▸ hlt
    refine ⟨hlt', hnames d hlt hlt' ▸ hname, fun j hj => ?_⟩
    exact hnames j (hj.trans hlt) (hj.trans hlt') ▸ hearlier j hj
  · rintro ⟨hlt', hname, hearlier⟩
    have hlt : d < (g.modify c fun cell => { cell with value := some v }).size :=
      Array.size_modify.symm ▸ hlt'
    refine ⟨hlt, (hnames d hlt hlt').symm ▸ hname, fun j hj => ?_⟩
    exact (hnames j (hj.trans hlt) (hj.trans hlt')).symm ▸ hearlier j hj

/-- What is read under a name is what was written under it last. -/
theorem read?_write (g : Globals) (name : String) (v : Value) (key : String) :
    (g.write name v).read? key = if key = name then some v else g.read? key := by
  have hself := g.find?_cell_self name
  have hread := g.read?_cell name key
  rw [write]
  dsimp only
  generalize g.cell name = r at hself hread ⊢
  obtain ⟨c, g'⟩ := r
  dsimp only at hself hread ⊢
  obtain ⟨hc, hname⟩ := nameOf_of_find? hself
  rw [read?, find?_modify]
  by_cases hkey : key = name
  · subst hkey
    rw [if_pos rfl, hself, Option.bind_some, get?, Array.getElem?_modify, if_pos rfl,
      Array.getElem?_eq_getElem hc]
    rfl
  · rw [if_neg hkey, ← hread, read?]
    cases hfind : g'.find? key with
    | none => rfl
    | some d =>
      -- Another name has another cell.
      have hne : c ≠ d := by
        rintro rfl
        exact hkey ((nameOf_of_find? hfind).2.symm.trans hname)
      rw [Option.bind_some, Option.bind_some, get?, get?, Array.getElem?_modify, if_neg hne]

/-- Writes values under names, one after another. -/
def writeAll (g : Globals) (bs : Bindings) : Globals :=
  bs.foldl (fun g b => g.write b.1 b.2) g

/-- What a table becomes by bindings. A name may also be mentioned that nothing is written under. -/
inductive Becomes (g : Globals) : Bindings → Globals → Prop
  | writes (bs : Bindings) : Becomes g bs (g.writeAll bs)
  | mentions (name : String) : Becomes g [] (g.cell name).2

/-- What writing keeps is kept by writing one thing after another. -/
theorem writeAll_induction {p : Globals → Prop} (hg : p g)
    (h : ∀ g name v, p g → p (g.write name v)) (bs : Bindings) : p (g.writeAll bs) := by
  induction bs generalizing g with
  | nil => exact hg
  | cons b bs ih => exact ih (h g b.1 b.2 hg)

theorem read?_writeAll (g : Globals) (bs : Bindings) (key : String) :
    (g.writeAll bs).read? key = (bs.reverse.lookup key).or (g.read? key) := by
  induction bs generalizing g with
  | nil => rfl
  | cons b bs ih =>
    rw [writeAll, List.foldl_cons, ← writeAll, ih, read?_write, List.reverse_cons,
      List.lookup_append, Option.or_assoc]
    congr 1
    rw [List.lookup_cons, List.lookup_nil]
    by_cases hkey : key = b.1
    · simp [hkey]
    · have hne : (key == b.1) = false := by simpa using hkey
      simp [hkey, hne]

variable {g' : Globals} {bs : Bindings}

theorem Becomes.same (h : g' = g) : g.Becomes [] g' :=
  h ▸ .writes []

theorem Becomes.distinct (h : g.Becomes bs g') (hg : g.Distinct) : g'.Distinct := by
  cases h with
  | writes => exact writeAll_induction hg (fun _ _ _ h => h.write _ _) _
  | mentions name => exact hg.cell name

/-- A name has its cell for good. -/
theorem Becomes.find? (h : g.Becomes bs g') (hc : g.find? name = some c) : g'.find? name =
    some c := by
  cases h with
  | writes =>
    exact writeAll_induction (p := fun g => g.find? name = some c) hc
      (fun _ _ _ h => find?_write h _ _) _
  | mentions name => exact find?_cell hc name

theorem Becomes.read? (h : g.Becomes bs g') (key : String) :
    g'.read? key = (bs.reverse.lookup key).or (g.read? key) := by
  cases h with
  | writes => exact read?_writeAll g bs key
  | mentions name => exact read?_cell g name key

end Globals

/-! ### What leaves the table as it is -/

variable {w : World} {arguments : List Value}

namespace World

@[simp] theorem write_globals (w : World) (s : String) : (w.write s).globals = w.globals := by
  unfold write
  split
  · rfl
  · split
    · rfl
    · exact note_globals _ _

@[simp] theorem migrate_globals (w : World) (v : Value) : (w.migrate v).globals = w.globals := by
  unfold migrate
  split <;> rfl

theorem compile_globals (w : World) (c : ClassRef) (m : MethodTree) (inlining : Bool) :
    (w.compile c m inlining).2.globals = w.globals := by
  unfold compile
  extract_lets l w₁ w₂
  have h₂ : w₂.globals = w.globals := by
    dsimp only [w₂]
    split <;> rfl
  split <;> exact h₂

theorem enter_globals (code : Code) (arguments : List Value) (context : Option FrameRef)
    (w : World) : (w.enter code arguments context).2.globals = w.globals := by
  unfold enter
  split <;> rfl

end World

mutual

theorem Recipe.make_globals (registers : Directory Value) :
    ∀ (r : Recipe) (w : World), (r.make registers w).2.globals = w.globals
  | .nil, _ | .bool _, _ | .int _, _ | .big _, _ | .double _, _ | .symbol _, _ => by rw [make]
  | .string _, _ => by
    rw [make]
    rfl
  | .array items, w => by
    have h := Recipe.makeAll_globals registers items w
    rw [make]
    split
    · rename_i hr
      rwa [hr] at h
    · rename_i hr
      rwa [hr] at h
  | .classNamed _, _ | .instanceOf _, _ | .register _, _ | .global _, _ => by
    rw [make]
    split <;> rfl

theorem Recipe.makeAll_globals (registers : Directory Value) :
    ∀ (rs : List Recipe) (w : World), (Recipe.makeAll registers rs w).2.globals = w.globals
  | [], _ => by rw [makeAll]
  | r :: rest, w => by
    have h := Recipe.make_globals registers r w
    rw [makeAll]
    split
    · rename_i hr
      rwa [hr] at h
    · rename_i v w₁ hr
      have h' := Recipe.makeAll_globals registers rest w₁
      rw [hr] at h
      split
      · rename_i hr'
        rw [hr'] at h'
        exact h'.trans h
      · rename_i hr'
        rw [hr'] at h'
        exact h'.trans h

end

/-! ### Primitives -/

/-- What a primitive writes. -/
def Builtin.bindings (b : Builtin) (arguments : List Value) : Bindings :=
  match b with
  | .globalPut =>
    match nameArgument arguments 1 "global:put:" with
    | .ok name => [(name, argument arguments 2)]
    | .error _ => []
  | _ => []

theorem textAnswer_globals (v : Value) (w : World) : (textAnswer v w).2.globals = w.globals := by
  rw [textAnswer]
  split <;> rfl

namespace Objects

theorem printing_globals (v : Value) (ending : String) (answer : Value) (w : World) :
    (printing v ending answer w).2.globals = w.globals := by
  rw [printing]
  split
  · exact w.write_globals _
  · rfl

theorem instVarAt_globals (arguments : List Value) (w : World) :
    (instVarAt arguments w).2.globals = w.globals := by
  unfold instVarAt
  split
  · split
    · rfl
    · split <;> rfl
  · rfl

theorem instVarAtPut_globals (arguments : List Value) (w : World) :
    (instVarAtPut arguments w).2.globals = w.globals := by
  unfold instVarAtPut
  split
  · dsimp only
    split
    · rfl
    · split <;> rfl
  · rfl

theorem new_globals (v : Value) (w : World) : (new v w).2.globals = w.globals := by
  unfold new
  split
  · dsimp only
    split <;> rfl
  · rfl

theorem globalPut_globals (arguments : List Value) (w : World) :
    (globalPut arguments w).2.globals =
      w.globals.writeAll (Builtin.globalPut.bindings arguments) := by
  rw [globalPut, Builtin.bindings]
  split
  · rename_i h
    rw [h]
    rfl
  · rename_i h
    rw [h]
    rfl

end Objects

namespace Numbers

theorem notePromotion_globals (op : Arith) (a b : Value) (w : World) :
    (notePromotion op a b w).globals = w.globals := by
  unfold notePromotion
  split
  · split
    · split
      · exact w.note_globals _
      · rfl
    · rfl
  · rfl

theorem arith_globals (op : Arith) (s : Selector) (a b : Value) (w : World) :
    (arith op s a b w).2.globals = w.globals := by
  rw [arith]
  split
  · exact notePromotion_globals _ _ _ _
  · rfl
  · split <;> rfl

theorem negated_globals (v : Value) (w : World) : (negated v w).2.globals = w.globals := by
  unfold negated
  split
  · rfl
  · exact arith_globals _ _ _ _ _

end Numbers

namespace Collections

theorem concat_globals (a b : Value) (w : World) : (concat a b w).2.globals = w.globals := by
  rw [concat]
  split <;> rfl

theorem setElement_globals (arguments : List Value) (w : World) :
    (setElement arguments w).2.globals = w.globals := by
  rw [setElement]
  split
  · split <;> rfl
  · rfl

theorem newArray_globals (arguments : List Value) (w : World) :
    (newArray arguments w).2.globals = w.globals := by
  rw [newArray]
  split
  · rfl
  · split <;> rfl

end Collections

/-- A primitive writes what is in its bindings, and nothing else. -/
theorem Builtin.apply_globals (b : Builtin) (arguments : List Value) (w : World) :
    (b.apply arguments w).2.globals = w.globals.writeAll (b.bindings arguments) := by
  cases b with
  | globalPut => exact Objects.globalPut_globals arguments w
  | printNewline =>
    show (w.write "\n").globals = w.globals
    exact w.write_globals "\n"
  | printString => exact textAnswer_globals (argument arguments 0) w
  | println => exact Objects.printing_globals (argument arguments 0) "\n" (argument arguments 0) w
  | print => exact Objects.printing_globals (argument arguments 1) "" (argument arguments 0) w
  | instVarAt => exact Objects.instVarAt_globals arguments w
  | instVarAtPut => exact Objects.instVarAtPut_globals arguments w
  | new => exact Objects.new_globals (argument arguments 0) w
  | arith op =>
    exact Numbers.arith_globals op op.selector (argument arguments 0) (argument arguments 1) w
  | negated => exact Numbers.negated_globals (argument arguments 0) w
  | concat => exact Collections.concat_globals (argument arguments 0) (argument arguments 1) w
  | atPut => exact Collections.setElement_globals arguments w
  | newArray => exact Collections.newArray_globals arguments w
  | _ => rfl

/-- No shortcut stands for the primitive that writes. -/
theorem Shortcut.apply?_globals {op : Shortcut} {done : Job × World}
    (h : op.apply? arguments w = some done) : done.2.globals = w.globals := by
  rw [← op.mirrors h, Builtin.apply_globals]
  cases op <;> rfl

/-! ### Sites -/

namespace Chain

theorem newEntry_globals (s : Selector) (receiver : Value) (w : World) :
    (newEntry s receiver w).2.globals = w.globals := by
  unfold newEntry
  dsimp only
  split
  · rfl
  · exact w.note_globals _

theorem specialize_globals (s : Selector) (entries : List Entry) (arguments : List Value)
    (w : World) : (specialize s entries arguments w).2.2.globals = w.globals := by
  unfold specialize
  extract_lets w₁ receiver w₂
  split
  · rfl
  · exact (World.note_globals _ _).trans (newEntry_globals _ _ _)
  · exact World.note_globals _ _
  · exact (World.note_globals _ _).trans (newEntry_globals _ _ _)

theorem dispatch_globals (c : Chain) (arguments : List Value) (w : World) :
    (c.dispatch arguments w).2.2.globals = w.globals := by
  unfold dispatch
  split
  · rfl
  · split
    · rfl
    · split
      · exact specialize_globals _ _ _ _
      · dsimp only
        split
        · exact w.migrate_globals _
        · exact (specialize_globals _ _ _ _).trans (w.migrate_globals _)

end Chain

theorem throughChain_globals (l : Location) (c : Chain) (arguments : List Value) (w : World) :
    (throughChain l c arguments w).2.globals = w.globals :=
  c.dispatch_globals arguments w

theorem missShortcut_globals (l : Location) (op : Shortcut) (s : Selector)
    (arguments : List Value) (w : World) :
    (missShortcut l op s arguments w).2.globals = w.globals := by
  unfold missShortcut
  exact (throughChain_globals _ _ _ _).trans (World.note_globals _ _)

theorem throughSite_globals (l : Location) (site : Site) (s : Selector) (arguments : List Value)
    (w : World) : (throughSite l site s arguments w).2.globals = w.globals := by
  unfold throughSite
  split
  · exact throughChain_globals _ _ _ _
  · split
    · split
      · rename_i h
        exact Shortcut.apply?_globals h
      · exact missShortcut_globals _ _ _ _ _
    · exact missShortcut_globals _ _ _ _ _
  · rfl

theorem sendFrom_globals (l : Location) (s : Selector) (arguments : List Value) (w : World) :
    (sendFrom l s arguments w).2.globals = w.globals := by
  rw [sendFrom]
  split
  · exact throughSite_globals _ _ _ _ _
  · exact (throughSite_globals _ _ _ _ _).trans (w.noteQuickened_globals _ _)

theorem bindSuper_globals (l : Location) (code : Code) (s : Selector) (arguments : List Value)
    (inProgress : List Node) (w : World) :
    (bindSuper l code s arguments inProgress w).2.globals = w.globals := by
  rw [bindSuper]
  split
  · rfl
  · exact w.noteQuickened_globals _ _

/-- To read a global makes a cell for its name at most. -/
theorem readGlobal_becomes (l : Location) (literal : Option (Literal Code)) (receiver : Value)
    (w : World) : w.globals.Becomes [] (readGlobal l literal receiver w).2.globals := by
  unfold readGlobal
  split
  · exact .same rfl
  · exact .same rfl
  · split
    · rename_i name
      dsimp only
      rw [World.specialize, World.noteQuickened_globals]
      exact .mentions name
    · exact .same rfl

/-! ### Activations -/

namespace Activation

variable (a : Activation)

theorem countLoops_globals (w : World) : (a.countLoops w).globals = w.globals := by
  unfold countLoops
  split
  · rfl
  · dsimp only
    split
    · exact World.note_globals _ _
    · rfl

theorem leave_globals (marker : Marker) (job : Job) (w : World) :
    (a.leave marker job w).2.globals = w.globals :=
  a.countLoops_globals w

theorem abandon_globals (u : Unwind) (w : World) : (a.abandon u w).2.globals = w.globals := by
  unfold abandon
  split
  · split <;> exact a.leave_globals _ _ _
  · exact a.leave_globals _ _ _

theorem failing_globals (f : Fault) (w : World) : (a.failing f w).2.globals = w.globals :=
  a.abandon_globals _ _

theorem underflow_globals (w : World) : (a.underflow w).2.globals = w.globals :=
  a.failing_globals _ _

theorem withTop_globals {go : Value → List Value → World → Job × World}
    (h : ∀ v rest, (go v rest w).2.globals = w.globals) :
    (a.withTop w go).2.globals = w.globals := by
  unfold withTop
  split
  · exact h _ _
  · exact a.failing_globals _ _

theorem pushVariable_globals (p : Place) (slot level : UInt8) (next : Nat) (w : World) :
    (a.pushVariable p slot level next w).2.globals = w.globals := by
  unfold pushVariable
  split
  · exact a.failing_globals _ _
  · split
    · split
      · rfl
      · exact a.failing_globals _ _
    · split
      · rfl
      · exact a.failing_globals _ _
    · split
      · split
        · rfl
        · exact a.failing_globals _ _
      · exact a.failing_globals _ _

theorem popVariable_globals (p : Place) (slot level : UInt8) (next : Nat) (v : Value)
    (rest : List Value) (w : World) :
    (a.popVariable p slot level next v rest w).2.globals = w.globals := by
  unfold popVariable
  split
  · exact a.failing_globals _ _
  · split
    · split
      · rfl
      · exact a.failing_globals _ _
    · split
      · rfl
      · exact a.failing_globals _ _
    · split
      · split
        · rfl
        · exact a.failing_globals _ _
      · exact a.failing_globals _ _

theorem pushClosure_globals (withContext : Bool) (index : UInt8) (next : Nat) (w : World) :
    (a.pushClosure withContext index next w).2.globals = w.globals := by
  unfold pushClosure
  split
  · rfl
  · exact a.failing_globals _ _

theorem returnNonLocal_globals (level : UInt8) (v : Value) (w : World) :
    (a.returnNonLocal level v w).2.globals = w.globals := by
  unfold returnNonLocal
  split
  · exact a.failing_globals _ _
  · dsimp only
    split
    · exact a.abandon_globals _ _
    · split
      · exact (a.abandon_globals _ _).trans (w.note_globals _)
      · exact a.failing_globals _ _

theorem step_globals (up : Bool) (v : Value) (rest : List Value) (next : Nat) (w : World) :
    (a.step up v rest next w).2.globals = w.globals := by
  unfold step
  split
  · exact Numbers.notePromotion_globals _ _ _ _
  · exact a.failing_globals _ _

theorem jump_globals (j : Jump) (wide : Bool) (next : Nat) (w : World) :
    (a.jump j wide next w).2.globals = w.globals := by
  unfold jump
  dsimp only
  split
  · rfl
  · rfl
  · split
    · split <;> rfl
    · exact a.failing_globals _ _
    · exact a.failing_globals _ _
  · split
    · split
      · rfl
      · rfl
      · exact a.failing_globals _ _
    · exact a.failing_globals _ _

end Activation

/-! ### Handlers -/

theorem Condition.handlerArguments_globals (c : Condition) (w : World) :
    (c.handlerArguments w).2.globals = w.globals := by
  cases c <;> rfl

namespace Handler

variable (receiver : Value) (c : Condition)

/-- What a reply writes. -/
def bindings : List (String × Recipe) → World → Bindings
  | [], _ => []
  | (name, r) :: rest, w =>
    match r.make .empty w with
    | (.ok v, w) => (name, v) :: bindings rest (w.writeGlobal name v)
    | (.error _, w) => bindings rest w

/-- What a handler writes when it is told of a condition. -/
def bindingsFor (w : World) : Bindings :=
  match w.handler with
  | .standard | .scripted [] => []
  | .scripted (reply :: rest) =>
    match w.display? receiver, w.conditionText? c with
    | some shown, some text =>
      let report := Report.condition c.kind c.handlerSelector shown text
      bindings reply.writes { w with reports := report :: w.reports, handler := .scripted rest }
    | _, _ => []

theorem standardJob_globals (w : World) : (standardJob receiver c w).2.globals = w.globals := by
  unfold standardJob
  split
  · exact c.handlerArguments_globals w
  · rfl

theorem writeAll_globals (writes : List (String × Recipe)) (w : World) :
    (writeAll writes w).globals = w.globals.writeAll (bindings writes w) := by
  induction writes generalizing w with
  | nil => rfl
  | cons write rest ih =>
    obtain ⟨name, r⟩ := write
    have hmake := Recipe.make_globals .empty r w
    rw [writeAll, bindings]
    cases hr : r.make .empty w with
    | mk made w' =>
      rw [hr] at hmake
      have hmake : w'.globals = w.globals := hmake
      cases made with
      | error e =>
        rw [← hmake]
        exact ih w'
      | ok v =>
        rw [← hmake]
        exact ih (w'.writeGlobal name v)

theorem react_globals (r : Reaction) (w : World) (k : List Pending) :
    (react r receiver c w k).2.1.globals = w.globals := by
  cases r with
  | restart | fail => rfl
  | standard => exact standardJob_globals receiver c w
  | call block arguments =>
    have hblock := Recipe.make_globals .empty block w
    rw [react]
    split
    · rename_i hr
      rwa [hr] at hblock
    · rename_i v w₁ hr
      have hall := Recipe.makeAll_globals .empty arguments w₁
      rw [hr] at hblock
      have hall := hall.trans hblock
      cases hr' : Recipe.makeAll .empty arguments w₁ with
      | mk made w₂ =>
        rw [hr'] at hall
        cases made with
        | error e => exact hall
        | ok vs => cases v <;> exact hall
  | send selector arguments other =>
    have hall := Recipe.makeAll_globals .empty arguments w
    rw [react]
    split
    · rename_i hr
      rwa [hr] at hall
    · rename_i vs w₁ hr
      rw [hr] at hall
      split
      · exact hall
      · rename_i r
        have hother := Recipe.make_globals .empty r w₁
        split
        all_goals
          rename_i hr'
          rw [hr'] at hother
          exact hother.trans hall
  | answer r =>
    have hmake := Recipe.make_globals .empty r w
    rw [react]
    split
    all_goals
      rename_i hr
      rwa [hr] at hmake

/-- A handler writes what is in its bindings, and nothing else. -/
theorem job_globals (w : World) (k : List Pending) :
    (job receiver c w k).2.1.globals = w.globals.writeAll (bindingsFor receiver c w) := by
  unfold job bindingsFor
  split
  · rename_i h
    rw [h]
    exact standardJob_globals receiver c w
  · rename_i replies h
    rw [h]
    cases replies with
    | nil =>
      split <;> rfl
    | cons reply rest =>
      dsimp only
      cases w.display? receiver with
      | none => rfl
      | some shown =>
        cases w.conditionText? c with
        | none => rfl
        | some text => exact (react_globals _ _ _ _ _).trans (writeAll_globals _ _)

end Handler

/-! ### Steps -/

namespace Machine

variable (k : List Pending)

/-- What a step writes, by the job of the machine. -/
def bindings (m : Machine) : Bindings :=
  match m.job with
  | .invoke (.primitive p) arguments =>
    if arguments.length = p.selector.arity + 1 then p.builtin.bindings arguments else []
  | .report receiver c => Handler.bindingsFor receiver c (noteCondition c m.world)
  | _ => []

theorem after_failing_globals (a : Activation) (f : Fault) (w : World) :
    (after k (a.failing f w)).world.globals = w.globals :=
  a.failing_globals f w

theorem sendInstruction_globals (a : Activation) (toSuper : Bool) (index : UInt8) (next : Nat)
    (w : World) : (sendInstruction a toSuper index next w k).world.globals = w.globals := by
  unfold sendInstruction
  split
  · dsimp only
    split
    · exact a.underflow_globals w
    · split
      · split
        · rfl
        · exact bindSuper_globals _ _ _ _ _ _
      · exact sendFrom_globals _ _ _ _
  · exact after_failing_globals k a _ w

/-- Of the instructions only one touches the table. -/
theorem instruction_becomes (a : Activation) (op : Opcode) (w : World) :
    w.globals.Becomes [] (instruction a op w k).world.globals := by
  cases op with
  | pushGlobal => exact readGlobal_becomes _ _ _ _
  | halt => exact .same (a.leave_globals .returnedNormally (.answer (a.stack.headD .nil)) w)
  | returnSelf =>
    exact .same (a.leave_globals .returnedNormally (.answer (w.heap.frame a.frame).receiver) w)
  | dup => exact .same (a.withTop_globals fun _ _ => rfl)
  | drop => exact .same (a.withTop_globals fun _ _ => rfl)
  | dupSecond =>
    unfold instruction
    dsimp only
    split
    · exact .same rfl
    · exact .same (a.underflow_globals w)
  | push place => exact .same (a.pushVariable_globals _ _ _ _ _)
  | pushBlock withContext => exact .same (a.pushClosure_globals _ _ _ _)
  | pushConstant =>
    unfold instruction
    dsimp only
    split
    · exact .same rfl
    · exact .same rfl
    · exact .same (after_failing_globals k a _ w)
  | pushSelf | pushNil | pushZero | pushOne => exact .same rfl
  | pop place => exact .same (a.withTop_globals fun _ _ => a.popVariable_globals _ _ _ _ _ _ _)
  | send toSuper => exact .same (sendInstruction_globals _ _ _ _ _ _)
  | returnLocal => exact .same (a.withTop_globals fun _ _ => a.leave_globals _ _ _)
  | returnNonLocal => exact .same (a.withTop_globals fun _ _ => a.returnNonLocal_globals _ _ _)
  | step up => exact .same (a.withTop_globals fun _ _ => a.step_globals _ _ _ _ _)
  | jump j wide => exact .same (a.jump_globals _ _ _ _)
  | quickened _ => exact .same (after_failing_globals k a _ w)

theorem execute_becomes (a : Activation) (w : World) :
    w.globals.Becomes [] (execute a w k).world.globals := by
  unfold execute
  split
  · exact .same (after_failing_globals k a _ w)
  · split
    · exact .same (after_failing_globals k a _ w)
    · exact instruction_becomes k a _ w

theorem settle_globals (a : Activation) (u : Unwind) (w : World) :
    (settle a u w k).world.globals = w.globals := by
  unfold settle
  split
  · exact World.note_globals _ _
  · rfl
  · exact a.abandon_globals _ _

theorem unwindInto_globals (top : Pending) (u : Unwind) (w : World) :
    (unwindInto top u w k).world.globals = w.globals := by
  unfold unwindInto
  split
  · exact settle_globals _ _ _ _
  · exact Activation.abandon_globals _ _ _
  · rfl
  · rfl
  · rfl
  · split <;> rfl

theorem resume_globals (top : Pending) (v : Value) (w : World) :
    (resume top v w k).world.globals = w.globals := by
  unfold resume
  split <;> rfl

theorem invoke_primitive_globals (p : Primitive) (arguments : List Value) (w : World) :
    (invoke (.primitive p) arguments w).2.globals =
      w.globals.writeAll (bindings ⟨w, .invoke (.primitive p) arguments, k⟩) := by
  rw [invoke]
  show _ = w.globals.writeAll
    (if arguments.length = p.selector.arity + 1 then p.builtin.bindings arguments else [])
  split
  · exact Builtin.apply_globals _ _ _
  · rfl

theorem invoke_method_globals (c : Code) (arguments : List Value) (w : World) :
    (invoke (.method c) arguments w).2.globals = w.globals := by
  rw [invoke]
  split
  · exact World.enter_globals _ _ _ _
  · rfl

theorem evaluate_globals (b : BlockRef) (arguments : List Value) (w : World) :
    (evaluate b arguments w).2.globals = w.globals := by
  unfold evaluate
  dsimp only
  split
  · exact World.enter_globals _ _ _ _
  · rfl

theorem noteCondition_globals (c : Condition) (w : World) :
    (noteCondition c w).globals = w.globals := by
  unfold noteCondition
  split
  · exact World.note_globals _ _
  · rfl

/-- A step writes what is in the bindings of the machine, and nothing else. -/
theorem step_becomes (m : Machine) : m.world.globals.Becomes m.bindings m.step.world.globals := by
  obtain ⟨w, job, k⟩ := m
  cases job with
  | execute a => exact execute_becomes k a w
  | send _ _ | hang => exact .same rfl
  | invoke i arguments =>
    cases i with
    | primitive p => exact (invoke_primitive_globals k p arguments w).symm ▸ .writes _
    | method c => exact .same (invoke_method_globals c arguments w)
  | evaluate b arguments => exact .same (evaluate_globals b arguments w)
  | count next limit body result =>
    rw [step]
    split <;> exact .same rfl
  | cycle left body result =>
    cases left <;> exact .same rfl
  | report receiver c =>
    have hjob := Handler.job_globals receiver c (noteCondition c w) k
    rw [noteCondition_globals] at hjob
    exact hjob.symm ▸ .writes _
  | answer v =>
    cases k with
    | nil => exact .same rfl
    | cons top k => exact .same (resume_globals k top v w)
  | unwind u =>
    cases k with
    | nil => exact .same rfl
    | cons top k => exact .same (unwindInto_globals k top u w)

end Machine

end Parley
