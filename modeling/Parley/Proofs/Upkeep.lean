import Parley.Proofs.Shortcuts
import Parley.Proofs.Stock

/-!
# Primitives refer to the stock

Whatever a primitive, a shortcut, a recipe or a handler does, what comes of it refers to nothing
that was not there: given values of a stock, it leaves a job and a world of the same stock.

* `Builtin.apply_upheld`, `Shortcut.apply?_upheld`: primitives and shortcuts;
* `Recipe.make_upheld`: recipes;
* `Handler.job_upheld`: handlers.
-/

namespace Parley

variable {s : Stock} {w : World} {v : Value} {vs arguments : List Value}

/-! ### Values -/

namespace Stock.Covers

theorem nil : s.Covers [] := by
  intro v hv
  cases hv

theorem cons (hv : v.Within s.classes) (hvs : s.Covers vs) : s.Covers (v :: vs) := by
  intro u hu
  rcases List.mem_cons.1 hu with rfl | hu
  · exact hv
  · exact hvs u hu

theorem tail (h : s.Covers (v :: vs)) : s.Covers vs :=
  fun u hu => h u (List.mem_cons_of_mem _ hu)

theorem head (h : s.Covers (v :: vs)) : v.Within s.classes :=
  h v List.mem_cons_self

theorem drop (h : s.Covers vs) (n : Nat) : s.Covers (vs.drop n) :=
  fun u hu => h u (List.mem_of_mem_drop hu)

theorem take (h : s.Covers vs) (n : Nat) : s.Covers (vs.take n) :=
  fun u hu => h u (List.mem_of_mem_take hu)

theorem reverse (h : s.Covers vs) : s.Covers vs.reverse :=
  fun u hu => h u (List.mem_reverse.1 hu)

theorem argument (h : s.Covers vs) (i : Nat) : (argument vs i).Within s.classes := by
  rw [Parley.argument, List.getD_eq_getElem?_getD]
  cases hi : vs[i]? with
  | none => trivial
  | some v => exact h v (List.mem_of_getElem? hi)

end Stock.Covers

theorem Number.reduce_within (i : Int) : (Number.reduce i).Within s.classes := by
  rw [Number.reduce]
  split <;> trivial

theorem Number.integer_within {op : Arith} {a b : Value} (h : Number.integer op a b = .value v) :
    v.Within s.classes := by
  unfold Number.integer at h
  split at h
  · split at h
    · cases h
    · split at h
      · cases h
        trivial
      · cases h
        exact reduce_within _
  · split at h
    · split at h
      · cases h
      · cases h
        exact reduce_within _
    · cases h

theorem Number.double_within {op : Arith} {a b : Value} (h : Number.double op a b = .value v) :
    v.Within s.classes := by
  rw [Number.double] at h
  split at h
  · cases h
    trivial
  · cases h

theorem Number.step_within {up : Bool} {u : Value} (h : Number.step up u = .value v) :
    v.Within s.classes := by
  unfold Number.step at h
  dsimp only at h
  split at h
  · exact integer_within h
  · exact integer_within h
  · cases h
    trivial
  · cases h

/-! ### Globals -/

namespace Globals

variable {g : Globals} {key : String} {c : CellRef}

theorem find?_push (h : g.find? key = some c) (cell : Cell) :
    Globals.find? (g.push cell) key = some c := by
  rw [find?, Array.findIdx?_push]
  rw [find?] at h
  rw [h]
  rfl

theorem find?_cell_self (g : Globals) (name : String) :
    Globals.find? (g.cell name).2 name = some (g.cell name).1 := by
  rw [cell]
  split
  · assumption
  · rename_i hnone
    rw [find?, Array.findIdx?_push]
    rw [find?] at hnone
    simp [hnone]

/-- The cell of a name stays its cell when another name gets one. -/
theorem find?_cell (h : g.find? key = some c) (name : String) :
    Globals.find? (g.cell name).2 key = some c := by
  rw [Globals.cell]
  split
  · exact h
  · exact find?_push h _

/-- The cell of a name stays its cell when something is written. -/
theorem find?_write (h : g.find? key = some c) (name : String) (v : Value) :
    Globals.find? (g.write name v) key = some c := by
  have h' := find?_cell h name
  rw [Globals.write]
  dsimp only
  generalize g.cell name = r at h' ⊢
  obtain ⟨c', g'⟩ := r
  let f : Cell → Cell := fun cell => { cell with value := some v }
  -- A write changes what is in a cell, and cells are found by their names.
  have hnames : ∀ j (hj : j < (g'.modify c' f).size) (hj' : j < g'.size),
      (g'.modify c' f)[j].name = g'[j].name := by
    intro j hj hj'
    rw [Array.getElem_modify]
    split <;> rfl
  rw [find?, Array.findIdx?_eq_some_iff_getElem] at h' ⊢
  obtain ⟨hlt, hname, hearlier⟩ := h'
  have hlt' : c < (g'.modify c' f).size := Array.size_modify.symm ▸ hlt
  refine ⟨hlt', ?_, fun j hj => ?_⟩
  · rw [hnames c hlt' hlt]
    exact hname
  · rw [hnames j (hj.trans hlt') (hj.trans hlt)]
    exact hearlier j hj

end Globals

/-! ### Worlds -/

namespace World.Sound

/-- A world that differs in nothing that refers to the stock. -/
theorem congr {w' : World} (h : w.Sound s) (hc : w'.classes = w.classes) (hh : w'.heap = w.heap)
    (hg : w'.globals = w.globals) (hs : w'.sites = w.sites) (hd : w'.held = w.held)
    (ho : w'.codes = w.codes) (hn : w.supply.code ≤ w'.supply.code) : w'.Sound s where
  stock := h.stock
  classes := hc ▸ h.classes
  heap := hh ▸ h.heap
  globals := hg ▸ h.globals
  sites := by
    rw [hs, hc]
    exact h.sites
  cells := by
    rw [hs, hg]
    exact h.cells
  held := by
    rw [hd, hc]
    exact h.held
  written := ho ▸ h.written
  numbered c hc := (h.numbered c hc).trans_le hn

theorem setHeap (h : w.Sound s) {heap : Heap} (hh : heap.Sound s) :
    World.Sound { w with heap } s :=
  { h with heap := hh }

theorem count (h : w.Sound s) (f : Statistics → Statistics) : (w.count f).Sound s :=
  { h with }

theorem note (h : w.Sound s) (e : Event) : (w.note e).Sound s := by
  rw [World.note]
  split
  · exact { h with }
  · exact h

theorem write (h : w.Sound s) (text : String) : (w.write text).Sound s := by
  rw [World.write]
  split
  · exact { h with }
  · split
    · exact h
    · extract_lets w'
      have h' : w'.Sound s := { h with }
      exact h'.note _

theorem newString (h : w.Sound s) (text : String) : (w.newString text).2.Sound s :=
  { h with }

theorem newArray (h : w.Sound s) (hv : s.Covers vs) : (w.newArray vs).2.Sound s :=
  h.setHeap (h.heap.newArray fun v hv' => hv v (List.mem_toArray.1 hv'))

theorem newInstance (h : w.Sound s) {c : ClassRef} (hc : c < s.classes) :
    (w.newInstance c).2.Sound s :=
  h.setHeap (h.heap.newInstance h.classes hc)

/-- A cell that is made for a name is empty, and the cells of other names stay theirs. -/
theorem cell (h : w.Sound s) (name : String) :
    World.Sound { w with globals := (w.globals.cell name).2 } s := by
  refine { h with
    globals := ?_
    cells := fun l cell hl code key hcode hid hread => ?_ }
  · show ∀ c ∈ (w.globals.cell name).2, _
    rw [Globals.cell]
    split
    · exact h.globals
    · exact forall_mem_push h.globals (by rintro v ⟨⟩)
  · exact Globals.find?_cell (h.cells l cell hl code key hcode hid hread) name

theorem writeGlobal (h : w.Sound s) (name : String) (hv : v.Within s.classes) :
    (w.writeGlobal name v).Sound s := by
  have hcell := h.cell name
  refine { h with
    globals := fun c hc => ?_
    cells := fun l cell hl code key hcode hid hread => ?_ }
  · simp only [World.writeGlobal, Globals.write] at hc
    -- Only the cell of the name has another value.
    refine of_mem_modify (p := fun c : Cell => ∀ v, c.value = some v → v.Within s.classes) hc
      hcell.globals ?_
    rintro _ _ _ _ ⟨⟩
    exact hv
  · exact Globals.find?_write (h.cells l cell hl code key hcode hid hread) name v

theorem read? (h : w.Sound s) {name : String} (hv : w.globals.read? name = some v) :
    v.Within s.classes := by
  obtain ⟨c, -, hc⟩ := Option.bind_eq_some_iff.1 hv
  rw [Globals.get?] at hc
  split at hc
  · rename_i cell hcell
    exact h.globals cell (Array.mem_of_getElem? hcell) v hc
  · cases hc

/-- The class of a value is one of the stock. -/
theorem classOf_lt (h : w.Sound s) (v : Value) : w.classOf v < s.classes := by
  -- All values but instances and classes are of a class of the library.
  have hcore : ∀ {c}, c < 28 → c < s.classes := fun hc => lt_of_lt_of_le hc h.stock.library
  cases v with
  | nil => exact hcore (show Core.nil < 28 by decide)
  | bool b =>
    cases b with
    | false => exact hcore (show Core.false < 28 by decide)
    | true => exact hcore (show Core.true < 28 by decide)
  | int i => exact hcore (show Core.integer < 28 by decide)
  | big i => exact hcore (show Core.integer < 28 by decide)
  | double d => exact hcore (show Core.double < 28 by decide)
  | string owner text => exact hcore (show Core.string < 28 by decide)
  | symbol text => exact hcore (show Core.symbol < 28 by decide)
  | array a => exact hcore (show Core.array < 28 by decide)
  | block b => exact hcore (show Core.block < 28 by decide)
  | object o => exact (h.heap.instance_ h.stock o).cls
  | classRef c =>
    rw [classOf]
    cases hm : w.classes.metaclass? c with
    | none => exact hcore (show Core.metaclass < 28 by decide)
    | some m => exact h.classes.metaclass c m hm

/-- A method that a lookup finds is a code of the stock. -/
theorem lookup (h : w.classes.Sound s) {c : ClassRef} {selector : Selector} {i : Invokable}
    (hi : w.classes.lookup c selector = some i) : i.Sound s := by
  obtain ⟨k, -, hk⟩ := List.exists_of_findSome?_eq_some hi
  exact h.methods k selector i hk

end World.Sound

/-! ### Outcomes -/

/-- A job and a world that refer to the stock. -/
def Stock.Upholds (s : Stock) (r : Job × World) : Prop :=
  r.1.Sound s ∧ r.2.Sound s

theorem Job.fail_sound (f : Fault) : (Job.fail f).Sound s :=
  trivial

theorem orFail_sound {r : Except Fault Job} (h : ∀ job, r = .ok job → job.Sound s) :
    (orFail r).Sound s := by
  unfold orFail
  split
  · exact h _ rfl
  · exact Job.fail_sound _

theorem textAnswer_upheld (h : w.Sound s) (v : Value) : s.Upholds (textAnswer v w) := by
  rw [textAnswer]
  split
  · rename_i text _
    exact ⟨trivial, h.newString text⟩
  · exact ⟨trivial, h⟩

namespace Performing

/-- What is performed is made of things that there are. -/
theorem job_sound {r : Except Fault Message} (h : ∀ m, r = .ok m → s.Covers m.arguments)
    (w : World) : (job r w).Sound s := by
  cases r with
  | error f => trivial
  | ok m =>
    rw [job]
    split
    · trivial
    · exact h m rfl

theorem message_covers {selector : Selector} {m : Message} (hv : v.Within s.classes)
    (ha : s.Covers arguments) (hm : message selector v arguments = .ok m) :
    s.Covers m.arguments := by
  rw [message] at hm
  split at hm
  · cases hm
    exact ha.cons hv
  · cases hm

theorem listed_covers {m : Message} (ha : s.Covers arguments)
    (hm : listed arguments = .ok m) : s.Covers m.arguments := by
  rw [listed] at hm
  split at hm
  · cases hm
  · exact message_covers (ha.argument 0) (ha.drop 2) hm

theorem spread_covers {m : Message} (h : w.Sound s) (ha : s.Covers arguments)
    (hm : spread arguments w = .ok m) : s.Covers m.arguments := by
  rw [spread] at hm
  split at hm
  · cases hm
  · split at hm
    · refine message_covers (ha.argument 0) (fun v hv => ?_) hm
      exact h.heap.array _ v (Array.mem_toList_iff.1 hv)
    · cases hm

end Performing

namespace Objects

theorem printing_upheld (h : w.Sound s) (hv : v.Within s.classes) (u : Value) (ending : String) :
    s.Upholds (printing u ending v w) := by
  rw [printing]
  split
  · exact ⟨hv, h.write _⟩
  · exact ⟨trivial, h⟩

theorem respondsTo_sound : (respondsTo arguments w).Sound s := by
  refine orFail_sound fun job hj => ?_
  cases hn : nameArgument arguments 1 "respondsTo:" with
  | error f => simp [hn, bind, Except.bind] at hj
  | ok selector =>
    simp only [hn, bind, Except.bind] at hj
    cases hj
    trivial

theorem instVarAt_upheld (h : w.Sound s) : s.Upholds (instVarAt arguments w) := by
  rw [instVarAt]
  split
  · rename_i o _
    split
    · exact ⟨trivial, h⟩
    · rename_i i _
      have hr := h.heap.readField h.stock h.classes o i
      split
      · rename_i v heap hv
        rw [hv] at hr
        exact ⟨hr.2 v rfl, h.setHeap hr.1⟩
      · rename_i heap hv
        rw [hv] at hr
        exact ⟨trivial, h.setHeap hr.1⟩
  · exact ⟨trivial, h⟩

theorem instVarAtPut_upheld (h : w.Sound s) (ha : s.Covers arguments) :
    s.Upholds (instVarAtPut arguments w) := by
  rw [instVarAtPut]
  split
  · rename_i o _
    extract_lets w'
    have h' : w'.Sound s := h.setHeap (h.heap.updateLayout h.classes o)
    split
    · exact ⟨trivial, h'⟩
    · rename_i i _
      have hr := h'.heap.writeField h'.classes o i (ha.argument 2)
      dsimp only
      split
      · rename_i heap hv
        rw [hv] at hr
        exact ⟨ha.argument 2, h'.setHeap hr⟩
      · rename_i heap hv
        rw [hv] at hr
        exact ⟨trivial, h'.setHeap hr⟩
  · exact ⟨trivial, h⟩

theorem new_upheld (h : w.Sound s) (hv : v.Within s.classes) : s.Upholds (new v w) := by
  unfold new
  split
  · rename_i c
    dsimp only
    split
    · exact ⟨trivial, h.newArray .nil⟩
    · exact ⟨trivial, h.newInstance hv⟩
  · exact ⟨trivial, h⟩

theorem className_sound (v : Value) (w : World) : (className v w).Sound s := by
  unfold className
  split <;> trivial

theorem superclass_sound (h : w.Sound s) (v : Value) : (superclass v w).Sound s := by
  unfold superclass
  split
  · rename_i c
    cases hs : (w.classes.get c).superclass with
    | none => trivial
    | some a => exact h.classes.lineage c a (List.mem_of_mem_head? hs)
  · trivial

theorem global_sound (h : w.Sound s) : (global arguments w).Sound s := by
  refine orFail_sound fun job hj => ?_
  cases hn : nameArgument arguments 1 "global:" with
  | error f => simp [hn, bind, Except.bind] at hj
  | ok name =>
    simp only [hn, bind, Except.bind] at hj
    cases hj
    cases hr : w.globals.read? name with
    | none => trivial
    | some v => exact h.read? hr

theorem globalPut_upheld (h : w.Sound s) (ha : s.Covers arguments) :
    s.Upholds (globalPut arguments w) := by
  rw [globalPut]
  split
  · exact ⟨trivial, h⟩
  · exact ⟨ha.argument 2, h.writeGlobal _ (ha.argument 2)⟩

theorem hasGlobal_sound : (hasGlobal arguments w).Sound s := by
  refine orFail_sound fun job hj => ?_
  cases hn : nameArgument arguments 1 "hasGlobal:" with
  | error f => simp [hn, bind, Except.bind] at hj
  | ok name =>
    simp only [hn, bind, Except.bind] at hj
    cases hj
    trivial

theorem refuse_sound (v : Value) (w : World) : (refuse v w).Sound s := by
  rw [refuse]
  split <;> trivial

end Objects

namespace Numbers

theorem notePromotion_sound (h : w.Sound s) (op : Arith) (a b : Value) :
    (notePromotion op a b w).Sound s := by
  unfold notePromotion
  split
  · split
    · split
      · exact h.note _
      · exact h
    · exact h
  · exact h

theorem arith_upheld (h : w.Sound s) (op : Arith) (selector : Selector) (a b : Value) :
    s.Upholds (arith op selector a b w) := by
  rw [arith]
  split
  · rename_i hv
    exact ⟨Number.integer_within hv, notePromotion_sound h op a b⟩
  · exact ⟨trivial, h⟩
  · split
    · rename_i hv
      exact ⟨Number.double_within hv, h⟩
    · exact ⟨trivial, h⟩

theorem quotient_sound (a b : Value) : (quotient a b).Sound s := by
  rw [quotient]
  split
  · rename_i hv
    exact Number.double_within hv
  · trivial

theorem compare_sound (c : Comparison) (a b : Value) : (compare c a b).Sound s := by
  unfold compare
  split
  · trivial
  · split <;> trivial

theorem negated_upheld (h : w.Sound s) (v : Value) : s.Upholds (negated v w) := by
  unfold negated
  split
  · exact ⟨trivial, h⟩
  · exact arith_upheld h _ _ _ _

theorem asDouble_sound (v : Value) : (asDouble v).Sound s := by
  rw [asDouble]
  split <;> trivial

theorem toDo_sound (ha : s.Covers arguments) : (toDo arguments).Sound s := by
  refine orFail_sound fun job hj => ?_
  cases h₀ : smallInteger arguments 0 "to:do:" with
  | error f => simp [h₀, bind, Except.bind] at hj
  | ok start =>
    cases h₁ : smallInteger arguments 1 "to:do:" with
    | error f => simp [h₀, h₁, bind, Except.bind] at hj
    | ok limit =>
      cases h₂ : blockArgument arguments 2 "to:do:" with
      | error f => simp [h₀, h₁, h₂, bind, Except.bind] at hj
      | ok body =>
        simp only [h₀, h₁, h₂, bind, Except.bind] at hj
        cases hj
        exact ha.argument 0

theorem timesRepeat_sound (ha : s.Covers arguments) : (timesRepeat arguments).Sound s := by
  refine orFail_sound fun job hj => ?_
  cases h₀ : smallInteger arguments 0 "timesRepeat:" with
  | error f => simp [h₀, bind, Except.bind] at hj
  | ok count =>
    cases h₁ : blockArgument arguments 1 "timesRepeat:" with
    | error f => simp [h₀, h₁, bind, Except.bind] at hj
    | ok body =>
      simp only [h₀, h₁, bind, Except.bind] at hj
      cases hj
      exact ha.argument 0

end Numbers

namespace Collections

theorem concat_upheld (h : w.Sound s) (a b : Value) : s.Upholds (concat a b w) := by
  rw [concat]
  split
  · rename_i t u _ _
    exact ⟨trivial, h.newString (t ++ u)⟩
  · exact ⟨trivial, h⟩

theorem length_sound (v : Value) (w : World) : (length v w).Sound s := by
  unfold length
  split
  · trivial
  · split <;> trivial

theorem asSymbol_sound (v : Value) : (asSymbol v).Sound s := by
  rw [asSymbol]
  split <;> trivial

theorem asString_within (hv : v.Within s.classes) : (asString v).Within s.classes := by
  unfold asString
  split
  · trivial
  · exact hv

theorem element_sound (h : w.Sound s) : (element arguments w).Sound s := by
  rw [element]
  split
  · dsimp only
    split
    · exact getD_of_forall (p := fun v : Value => v.Within s.classes) (h.heap.array _)
        (show Value.Within s.classes .nil from trivial) _
    · trivial
  · trivial

theorem setElement_upheld (h : w.Sound s) (ha : s.Covers arguments) :
    s.Upholds (setElement arguments w) := by
  rw [setElement]
  split
  · split
    · exact ⟨ha.argument 2, h.setHeap (h.heap.setElement _ _ (ha.argument 2))⟩
    · exact ⟨trivial, h⟩
  · exact ⟨trivial, h⟩

theorem newArray_upheld (h : w.Sound s) : s.Upholds (newArray arguments w) := by
  rw [newArray]
  split
  · exact ⟨trivial, h⟩
  · split
    · exact ⟨trivial, h⟩
    · refine ⟨trivial, h.newArray fun v hv => ?_⟩
      rw [List.eq_of_mem_replicate hv]
      trivial

end Collections

namespace Blocks

theorem valueOf_sound (hv : v.Within s.classes) : (valueOf v).Sound s := by
  unfold valueOf
  split
  · exact .nil
  · exact hv

theorem withTruth_sound {go : Bool → Job} (h : ∀ b, (go b).Sound s) (v : Value) :
    (withTruth v go).Sound s := by
  unfold withTruth
  split
  · exact h _
  · trivial

theorem value_sound (ha : s.Covers arguments) : (value arguments).Sound s := by
  rw [value]
  split
  · exact ha.drop 1
  · trivial

theorem parameterCount_sound (v : Value) (w : World) : (parameterCount v w).Sound s := by
  unfold parameterCount
  split <;> trivial

end Blocks

/-- A primitive leaves a job and a world of the stock. -/
theorem Builtin.apply_upheld (h : w.Sound s) (ha : s.Covers arguments) (b : Builtin) :
    s.Upholds (b.apply arguments w) := by
  have h₀ := ha.argument 0
  have h₁ := ha.argument 1
  have h₂ := ha.argument 2
  -- The primitives that choose between blocks do so by a conditional.
  have hif : ∀ {p : Prop} [Decidable p] {x y : Job}, x.Sound s → y.Sound s →
      (if p then x else y).Sound s := by
    intro p _ x y hx hy
    split <;> assumption
  have hvalue : ∀ {p : Prop} [Decidable p] {x y : Value}, x.Within s.classes → y.Within s.classes →
      (if p then x else y).Within s.classes := by
    intro p _ x y hx hy
    split <;> assumption
  unfold Builtin.apply
  dsimp only
  cases b with
  | identical => exact ⟨trivial, h⟩
  | equal => exact ⟨trivial, h⟩
  | notEqual => exact ⟨trivial, h⟩
  | classOf => exact ⟨h.classOf_lt _, h⟩
  | isNil => exact ⟨trivial, h⟩
  | notNil => exact ⟨trivial, h⟩
  | yourself => exact ⟨h₀, h⟩
  | printString => exact textAnswer_upheld h _
  | println => exact Objects.printing_upheld h h₀ _ _
  | hashcode => exact ⟨trivial, h⟩
  | perform => exact ⟨Performing.job_sound (fun _ => Performing.listed_covers ha) w, h⟩
  | performWithArguments =>
    exact ⟨Performing.job_sound (fun _ => Performing.spread_covers h ha) w, h⟩
  | respondsTo => exact ⟨Objects.respondsTo_sound, h⟩
  | instVarAt => exact Objects.instVarAt_upheld h
  | instVarAtPut => exact Objects.instVarAtPut_upheld h ha
  | new => exact Objects.new_upheld h h₀
  | className => exact ⟨Objects.className_sound _ _, h⟩
  | superclass => exact ⟨Objects.superclass_sound h _, h⟩
  | global => exact ⟨Objects.global_sound h, h⟩
  | globalPut => exact Objects.globalPut_upheld h ha
  | hasGlobal => exact ⟨Objects.hasGlobal_sound, h⟩
  | print => exact Objects.printing_upheld h h₀ _ _
  | printNewline => exact ⟨h₀, h.write "\n"⟩
  | ticks => exact ⟨trivial, h⟩
  | arith op => exact Numbers.arith_upheld h _ _ _ _
  | quotient => exact ⟨Numbers.quotient_sound _ _, h⟩
  | compare c => exact ⟨Numbers.compare_sound _ _ _, h⟩
  | negated => exact Numbers.negated_upheld h _
  | asDouble => exact ⟨Numbers.asDouble_sound _, h⟩
  | toDo => exact ⟨Numbers.toDo_sound ha, h⟩
  | timesRepeat => exact ⟨Numbers.timesRepeat_sound ha, h⟩
  | concat => exact Collections.concat_upheld h _ _
  | length => exact ⟨Collections.length_sound _ _, h⟩
  | sameText => exact ⟨trivial, h⟩
  | asSymbol => exact ⟨Collections.asSymbol_sound _, h⟩
  | asString => exact ⟨Collections.asString_within h₀, h⟩
  | at_ => exact ⟨Collections.element_sound h, h⟩
  | atPut => exact Collections.setElement_upheld h ha
  | newArray => exact Collections.newArray_upheld h
  | not =>
    refine ⟨Blocks.withTruth_sound (fun _ => ?_) _, h⟩
    exact trivial
  | and =>
    refine ⟨Blocks.withTruth_sound (fun _ => ?_) _, h⟩
    exact hvalue h₁ trivial
  | or =>
    refine ⟨Blocks.withTruth_sound (fun _ => ?_) _, h⟩
    exact hvalue trivial h₁
  | andThen =>
    refine ⟨Blocks.withTruth_sound (fun _ => ?_) _, h⟩
    exact hif (Blocks.valueOf_sound h₁) trivial
  | orElse =>
    refine ⟨Blocks.withTruth_sound (fun _ => ?_) _, h⟩
    exact hif trivial (Blocks.valueOf_sound h₁)
  | ifTrue =>
    refine ⟨Blocks.withTruth_sound (fun _ => ?_) _, h⟩
    exact hif (Blocks.valueOf_sound h₁) trivial
  | ifFalse =>
    refine ⟨Blocks.withTruth_sound (fun _ => ?_) _, h⟩
    exact hif trivial (Blocks.valueOf_sound h₁)
  | ifTrueIfFalse =>
    refine ⟨Blocks.withTruth_sound (fun _ => ?_) _, h⟩
    exact Blocks.valueOf_sound (hvalue h₁ h₂)
  | ifFalseIfTrue =>
    refine ⟨Blocks.withTruth_sound (fun _ => ?_) _, h⟩
    exact Blocks.valueOf_sound (hvalue h₂ h₁)
  | blockValue => exact ⟨Blocks.value_sound ha, h⟩
  | numArgs => exact ⟨Blocks.parameterCount_sound _ _, h⟩
  | restart => exact ⟨trivial, h⟩
  | replay => exact ⟨trivial, h⟩
  | collect => exact ⟨trivial, h.newArray ha⟩
  | refuse => exact ⟨Objects.refuse_sound _ _, h⟩

/-- So does a shortcut, where it is made for the operands. -/
theorem Shortcut.apply?_upheld (h : w.Sound s) (ha : s.Covers arguments) {op : Shortcut}
    {r : Job × World} (hr : op.apply? arguments w = some r) : s.Upholds r := by
  rw [← op.mirrors hr]
  exact Builtin.apply_upheld h ha _

/-! ### Recipes -/

theorem Directory.exists_of_getIn {α : Type} {name : String} {entries : List (String × α)} {a : α}
    (h : Directory.getIn name entries = some a) : ∃ e ∈ entries, e.2 = a := by
  induction entries with
  | nil => cases h
  | cons e rest ih =>
    obtain ⟨n, b⟩ := e
    rw [Directory.getIn] at h
    split at h
    · cases h
      exact ⟨_, List.mem_cons_self, rfl⟩
    · obtain ⟨e, he, hea⟩ := ih h
      exact ⟨e, List.mem_cons_of_mem _ he, hea⟩

theorem ClassTable.Sound.byName?_lt {t : ClassTable} (h : t.Sound s) {name : String} {c : ClassRef}
    (hc : t.byName? name = some c) : c < s.classes := by
  obtain ⟨e, he, rfl⟩ := Directory.exists_of_getIn hc
  exact h.registered e he

theorem ClassTable.Sound.named?_lt {t : ClassTable} (h : t.Sound s) {name : String} {c : ClassRef}
    (hc : t.named? name = some c) : c < s.classes := by
  rw [ClassTable.named?] at hc
  split at hc
  · rename_i hname
    cases hc
    exact h.byName?_lt hname
  · split at hc
    · obtain ⟨k, -, hk⟩ := Option.bind_eq_some_iff.1 hc
      exact h.metaclass k c hk
    · cases hc

mutual

/-- A recipe that uses values of the stock makes a value of it. -/
theorem Recipe.make_upheld {registers : Directory Value}
    (hr : ∀ e ∈ registers.entries, e.2.Within s.classes) (r : Recipe) {w : World}
    (h : w.Sound s) : (r.make registers w).2.Sound s ∧
      ∀ v, (r.make registers w).1 = .ok v → v.Within s.classes := by
  match r with
  | .nil | .bool _ | .big _ | .double _ | .symbol _ =>
    rw [Recipe.make]
    refine ⟨h, ?_⟩
    rintro _ ⟨⟩
    trivial
  | .int i =>
    rw [Recipe.make]
    refine ⟨h, ?_⟩
    rintro _ ⟨⟩
    exact Number.reduce_within i
  | .string text =>
    rw [Recipe.make]
    refine ⟨h.newString text, ?_⟩
    rintro _ ⟨⟩
    trivial
  | .array items =>
    rw [Recipe.make]
    have hi := Recipe.makeAll_upheld hr items h
    split
    · rename_i hm
      rw [hm] at hi
      exact ⟨hi.1, by rintro _ ⟨⟩⟩
    · rename_i vs w' hm
      rw [hm] at hi
      refine ⟨hi.1.newArray (hi.2 vs rfl), ?_⟩
      rintro _ ⟨⟩
      trivial
  | .classNamed name =>
    rw [Recipe.make]
    split
    · rename_i c hc
      refine ⟨h, ?_⟩
      rintro _ ⟨⟩
      exact h.classes.named?_lt hc
    · exact ⟨h, by rintro _ ⟨⟩⟩
  | .instanceOf name =>
    rw [Recipe.make]
    split
    · rename_i c hc
      refine ⟨h.newInstance (h.classes.named?_lt hc), ?_⟩
      rintro _ ⟨⟩
      trivial
    · exact ⟨h, by rintro _ ⟨⟩⟩
  | .register name =>
    rw [Recipe.make]
    split
    · rename_i v hv
      obtain ⟨e, he, rfl⟩ := Directory.exists_of_getIn hv
      refine ⟨h, ?_⟩
      rintro _ ⟨⟩
      exact hr e he
    · exact ⟨h, by rintro _ ⟨⟩⟩
  | .global name =>
    rw [Recipe.make]
    split
    · rename_i v hv
      refine ⟨h, ?_⟩
      rintro _ ⟨⟩
      exact h.read? hv
    · exact ⟨h, by rintro _ ⟨⟩⟩

theorem Recipe.makeAll_upheld {registers : Directory Value}
    (hr : ∀ e ∈ registers.entries, e.2.Within s.classes) (rs : List Recipe) {w : World}
    (h : w.Sound s) : (Recipe.makeAll registers rs w).2.Sound s ∧
      ∀ vs, (Recipe.makeAll registers rs w).1 = .ok vs → s.Covers vs := by
  match rs with
  | [] =>
    rw [Recipe.makeAll]
    refine ⟨h, ?_⟩
    rintro _ ⟨⟩
    exact .nil
  | r :: rest =>
    rw [Recipe.makeAll]
    have hv := Recipe.make_upheld hr r h
    split
    · rename_i hm
      rw [hm] at hv
      exact ⟨hv.1, by rintro _ ⟨⟩⟩
    · rename_i v w' hm
      rw [hm] at hv
      have hvs := Recipe.makeAll_upheld hr rest hv.1
      split
      · rename_i hm'
        rw [hm'] at hvs
        exact ⟨hvs.1, by rintro _ ⟨⟩⟩
      · rename_i vs w'' hm'
        rw [hm'] at hvs
        refine ⟨hvs.1, ?_⟩
        rintro _ ⟨⟩
        exact (hvs.2 vs rfl).cons (hv.2 v rfl)

end

/-! ### Handlers -/

namespace Handler

variable {receiver : Value} {c : Condition}

/-- What a handler leaves: a job, a world and pending things of the stock. -/
def Upholds (s : Stock) (r : Job × World × List Pending) : Prop :=
  r.1.Sound s ∧ r.2.1.Sound s ∧ ∀ p ∈ r.2.2, p.Sound s

theorem standardJob_upheld (h : w.Sound s) (hr : receiver.Within s.classes) (hc : c.Sound s) :
    s.Upholds (standardJob receiver c w) := by
  rw [standardJob]
  split
  · rename_i i hi
    have hs : i.Sound s := World.Sound.lookup h.classes hi
    cases c with
    | notUnderstood selector arguments =>
      -- The arguments are passed on in an array, which is made for the occasion.
      have ha : s.Covers [.symbol selector, (w.newArray arguments).1] :=
        .cons trivial (.cons trivial .nil)
      exact ⟨⟨hs, ha.cons hr⟩, h.newArray hc⟩
    | escaped block v => exact ⟨⟨hs, .cons hr (.cons trivial .nil)⟩, h⟩
    | unknownGlobal name => exact ⟨⟨hs, .cons hr (.cons trivial .nil)⟩, h⟩
  · exact ⟨trivial, h⟩

/-- The recipes of a script use no registers. -/
theorem empty_within : ∀ e ∈ (Directory.empty : Directory Value).entries, e.2.Within s.classes := by
  rintro e ⟨⟩

theorem writeAll_sound (writes : List (String × Recipe)) (h : w.Sound s) :
    (writeAll writes w).Sound s := by
  induction writes generalizing w with
  | nil => exact h
  | cons entry rest ih =>
    obtain ⟨name, r⟩ := entry
    rw [writeAll]
    have hm := r.make_upheld empty_within h
    split
    · rename_i v w' hr
      rw [hr] at hm
      exact ih (hm.1.writeGlobal name (hm.2 v rfl))
    · rename_i hr
      rw [hr] at hm
      exact ih hm.1

theorem react_upheld (r : Reaction) (h : w.Sound s) (hr : receiver.Within s.classes)
    (hc : c.Sound s) {k : List Pending} (hk : ∀ p ∈ k, p.Sound s) :
    Upholds s (react r receiver c w k) := by
  -- A handler that has something sent waits for it on top of what was pending.
  have hpush : ∀ {p}, Pending.Sound s p → ∀ q ∈ p :: k, q.Sound s := by
    intro p hp q hq
    rcases List.mem_cons.1 hq with rfl | hq
    · exact hp
    · exact hk q hq
  unfold react
  split
  · exact ⟨trivial, h, hk⟩
  · exact ⟨trivial, h, hk⟩
  · have hj := standardJob_upheld h hr hc
    exact ⟨hj.1, hj.2, hk⟩
  · rename_i block arguments
    have hb := block.make_upheld empty_within h
    split
    · rename_i hm
      rw [hm] at hb
      exact ⟨trivial, hb.1, hk⟩
    · rename_i v w' hm
      rw [hm] at hb
      have ha := Recipe.makeAll_upheld empty_within arguments hb.1
      split
      · rename_i hm'
        rw [hm'] at ha
        exact ⟨trivial, ha.1, hk⟩
      · rename_i vs w'' b hm'
        rw [hm'] at ha
        exact ⟨ha.2 vs rfl, ha.1, hpush trivial⟩
      · rename_i hm' _
        rw [hm'] at ha
        exact ⟨trivial, ha.1, hk⟩
  · rename_i selector arguments other
    have ha := Recipe.makeAll_upheld empty_within arguments h
    split
    · rename_i hm
      rw [hm] at ha
      exact ⟨trivial, ha.1, hk⟩
    · rename_i vs w' hm
      rw [hm] at ha
      split
      · exact ⟨(ha.2 vs rfl).cons hr, ha.1, hpush trivial⟩
      · rename_i r
        have hv := r.make_upheld empty_within ha.1
        split
        · rename_i hm'
          rw [hm'] at hv
          exact ⟨trivial, hv.1, hk⟩
        · rename_i v w'' hm'
          rw [hm'] at hv
          exact ⟨(ha.2 vs rfl).cons (hv.2 v rfl), hv.1, hpush trivial⟩
  · rename_i r
    have hv := r.make_upheld empty_within h
    split
    · rename_i hm
      rw [hm] at hv
      exact ⟨trivial, hv.1, hk⟩
    · rename_i v w' hm
      rw [hm] at hv
      exact ⟨hv.2 v rfl, hv.1, hk⟩

/-- A handler that is told of a condition of the stock keeps to it. -/
theorem job_upheld (h : w.Sound s) (hr : receiver.Within s.classes) (hc : c.Sound s)
    {k : List Pending} (hk : ∀ p ∈ k, p.Sound s) : Upholds s (job receiver c w k) := by
  rw [job]
  split
  · have hj := standardJob_upheld h hr hc
    exact ⟨hj.1, hj.2, hk⟩
  · rename_i replies _
    split
    · extract_lets report w'
      have h' : w'.Sound s := { h with }
      split
      · exact ⟨trivial, h', hk⟩
      · rename_i reply rest _ _ _ _
        -- What a handler writes into globals is there before it reacts.
        extract_lets w''
        have h'' : w''.Sound s := writeAll_sound _ { h' with }
        exact react_upheld _ h'' hr hc hk
    · exact ⟨trivial, h, hk⟩

end Handler

end Parley
