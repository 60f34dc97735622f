import Parley.Library.Install
import Parley.Proofs.UpToDate

/-!
# Plain worlds

Much of a world is there only to be fast, or to be looked at by a host: what call sites remember,
how many entries they may have, which instances have caught up with their classes, the events and
the counters. A world without all that is *plain* (`World.plain`). This module shows that what a
program can do to a world does not depend on it: in the plain world a primitive comes to the same
job, and leaves what it leaves in the world itself, made plain.

* `Builtin.apply_plain`: primitives;
* `Recipe.make_plain`: recipes;
* `Handler.job_plain`: handlers.

There is one exception: the primitive that reads a field by its number asks how many fields the
instance has before it catches up. It is told apart by `World.Lags`.
-/

namespace Parley

variable {s : Stock} {w : World} {arguments : List Value}

/-! ### Plain worlds -/

/-- A world in which no instruction is specialized and no entry ever will be made, all instances
    have the layouts of their classes, and nothing is counted or reported. -/
def World.plain (w : World) : World :=
  { w with
    settings := { w.settings with cacheSize := 0, eager := false }
    heap := w.heap.current w.classes
    sites := ∅
    watched := false
    events := []
    thread := { w.thread with statistics := .zero } }

/-- What comes of something, with the world made plain. -/
def plainly {α : Type} (r : α × World) : α × World :=
  (r.1, r.2.plain)

namespace World

@[simp] theorem plain_classes (w : World) : w.plain.classes = w.classes :=
  rfl

@[simp] theorem plain_globals (w : World) : w.plain.globals = w.globals :=
  rfl

@[simp] theorem plain_heap (w : World) : w.plain.heap = w.heap.current w.classes :=
  rfl

@[simp] theorem plain_plain (w : World) : w.plain.plain = w.plain := by
  simp [plain]

@[simp] theorem plain_count (w : World) (f : Statistics → Statistics) :
    (w.count f).plain = w.plain :=
  rfl

@[simp] theorem plain_note (w : World) (e : Event) : (w.note e).plain = w.plain := by
  rw [note]
  split <;> rfl

@[simp] theorem plain_noteQuickened (w : World) (message : String)
    (fields : List (String × String)) : (w.noteQuickened message fields).plain = w.plain := by
  rw [noteQuickened, plain_note, plain_count]

@[simp] theorem plain_specialize (w : World) (l : Location) (site : Site) :
    (w.specialize l site).plain = w.plain :=
  rfl

theorem plain_setHeap (w : World) (h : Heap) :
    World.plain { w with heap := h } = { w.plain with heap := h.current w.classes } :=
  rfl

/-- Bringing an instance up to date is not seen in a plain world. -/
@[simp] theorem plain_migrate (w : World) (v : Value) : (w.migrate v).plain = w.plain := by
  cases v with
  | object o => rw [migrate, plain_setHeap, Heap.updateLayout_current, ← plain_heap]
  | _ => rfl

/-- In a plain world there is nothing to bring up to date. -/
@[simp] theorem migrate_plain (w : World) (v : Value) : w.plain.migrate v = w.plain := by
  cases v with
  | object o =>
    rw [migrate, plain_heap, plain_classes, Heap.current_updateLayout]
    rfl
  | _ => rfl

/-! ### Looking at values -/

@[simp] theorem classOf_plain (w : World) (v : Value) : w.plain.classOf v = w.classOf v := by
  cases v with
  | object o => exact w.heap.current_instance_cls w.classes o
  | bool b => cases b <;> rfl
  | _ => rfl

@[simp] theorem lookup_plain (w : World) (v : Value) (selector : Selector) :
    w.plain.lookup v selector = w.lookup v selector := by
  rw [lookup, lookup, classOf_plain, plain_classes]

theorem displayIn?_plain (w : World) (levels : Nat) (v : Value) :
    w.plain.displayIn? levels v = w.displayIn? levels v := by
  induction levels generalizing v with
  | zero =>
    cases v with
    | object o => simp only [displayIn?, plain_heap, Heap.current_instance_cls, plain_classes]
    | _ => rfl
  | succ levels ih =>
    have hlevels : w.plain.displayIn? levels = w.displayIn? levels := by
      -- The elements of an array are shown one level deeper, each in the same way.
      funext v
      exact ih v
    cases v with
    | array a => simp only [displayIn?, hlevels, plain_heap, Heap.current_array]
    | object o => simp only [displayIn?, plain_heap, Heap.current_instance_cls, plain_classes]
    | _ => rfl

@[simp] theorem display?_plain (w : World) (v : Value) : w.plain.display? v = w.display? v :=
  w.displayIn?_plain _ v

@[simp] theorem debug?_plain (w : World) (v : Value) : w.plain.debug? v = w.debug? v := by
  cases v with
  | string owner text => rfl
  | big i => rfl
  | _ => exact w.display?_plain _

theorem debugList?_plain (w : World) (vs : List Value) :
    w.plain.debugList? vs = w.debugList? vs := by
  have hdebug : w.plain.debug? = w.debug? := by
    funext v
    exact w.debug?_plain v
  rw [debugList?, debugList?, hdebug]

@[simp] theorem conditionText?_plain (w : World) (c : Condition) :
    w.plain.conditionText? c = w.conditionText? c := by
  cases c with
  | notUnderstood selector arguments => rw [conditionText?, conditionText?, debugList?_plain]
  | escaped block v =>
    simp only [conditionText?, debug?_plain, plain_heap, Heap.current_closure]
  | unknownGlobal name => rfl

/-! ### Making things -/

theorem newInstance_plain (w : World) (c : ClassRef) :
    w.plain.newInstance c = plainly (w.newInstance c) := by
  rw [newInstance, plain_heap, plain_classes, Heap.newInstance_current]
  rfl

theorem write_plain (w : World) (text : String) : w.plain.write text = (w.write text).plain := by
  have hsink : w.plain.sink = w.sink := rfl
  cases hs : w.sink with
  | kept =>
    simp only [write, hsink, hs]
    rfl
  | full behind =>
    simp only [write, hsink, hs]
    split
    · rfl
    · rw [plain_note]
      rfl

end World

/-! ### Primitives -/

theorem textAnswer_plain (v : Value) (w : World) :
    textAnswer v w.plain = plainly (textAnswer v w) := by
  rw [textAnswer, textAnswer, World.display?_plain]
  split <;> rfl

theorem Numbers.plain_notePromotion (op : Arith) (a b : Value) (w : World) :
    (notePromotion op a b w).plain = w.plain := by
  unfold notePromotion
  split
  · split
    · split
      · exact w.plain_note _
      · rfl
    · rfl
  · rfl

theorem Numbers.arith_plain (op : Arith) (selector : Selector) (a b : Value) (w : World) :
    arith op selector a b w.plain = plainly (arith op selector a b w) := by
  rw [arith, arith]
  split
  · rw [plainly, plain_notePromotion]
    rfl
  · rfl
  · split <;> rfl

theorem Numbers.negated_plain (v : Value) (w : World) :
    negated v w.plain = plainly (negated v w) := by
  unfold negated
  split
  · rfl
  · exact arith_plain .sub "negated" (.int 0) _ w

theorem Collections.concat_plain (a b : Value) (w : World) :
    concat a b w.plain = plainly (concat a b w) := by
  rw [concat, concat]
  split <;> rfl

theorem Collections.setElement_plain (arguments : List Value) (w : World) :
    setElement arguments w.plain = plainly (setElement arguments w) := by
  rw [setElement, setElement]
  split
  · simp only [World.plain_heap, Heap.current_array]
    split <;> rfl
  · rfl

theorem Collections.newArray_plain (arguments : List Value) (w : World) :
    newArray arguments w.plain = plainly (newArray arguments w) := by
  rw [newArray, newArray]
  split
  · rfl
  · split <;> rfl

namespace Performing

theorem spread_plain (arguments : List Value) (w : World) :
    spread arguments w.plain = spread arguments w := by
  simp only [spread, World.plain_heap, Heap.current_array]

theorem next?_plain (w : World) : next? w.plain = next? w := by
  funext m
  simp only [next?, World.lookup_plain, spread_plain]

theorem goesOn_plain (w : World) (n : Nat) (m : Message) : goesOn w.plain n m = goesOn w n m := by
  induction n generalizing m with
  | zero => rfl
  | succ n ih => simp only [goesOn, next?_plain, ih]

theorem isUnending_plain (w : World) (m : Message) : isUnending w.plain m = isUnending w m := by
  simp only [isUnending, next?_plain, goesOn_plain]
  rfl

theorem job_plain (r : Except Fault Message) (w : World) : job r w.plain = job r w := by
  cases r with
  | error f => rfl
  | ok m => rw [job, job, isUnending_plain]

end Performing

namespace Objects

theorem printing_plain (v : Value) (ending : String) (answer : Value) (w : World) :
    printing v ending answer w.plain = plainly (printing v ending answer w) := by
  rw [printing, printing, World.display?_plain]
  split
  · rw [World.write_plain]
    rfl
  · rfl

theorem respondsTo_plain (arguments : List Value) (w : World) :
    respondsTo arguments w.plain = respondsTo arguments w := by
  simp only [respondsTo, World.lookup_plain]

theorem noField_plain (index : Nat) (o : ObjectRef) (w : World) :
    noField index o w.plain = noField index o w := by
  simp only [noField, World.plain_classes, World.plain_heap, Heap.current_instance_cls]

theorem new_plain (v : Value) (w : World) : new v w.plain = plainly (new v w) := by
  cases v with
  | classRef c =>
    rw [new, new]
    by_cases hc : c = Core.array
    · rw [if_pos hc, if_pos hc]
      rfl
    · rw [if_neg hc, if_neg hc, World.newInstance_plain]
      rfl
  | _ => rfl

theorem refuse_plain (v : Value) (w : World) : refuse v w.plain = refuse v w := by
  rw [refuse, refuse, World.display?_plain]

theorem globalPut_plain (arguments : List Value) (w : World) :
    globalPut arguments w.plain = plainly (globalPut arguments w) := by
  rw [globalPut, globalPut]
  split <;> rfl

end Objects

/-- The arguments of `instVarAt:` for an instance that is behind its class and has no field of the
    number given yet. -/
def World.Lags (w : World) (arguments : List Value) : Prop :=
  ∃ o i, argument arguments 0 = .object o ∧ argument arguments 1 = .int i ∧
    w.isOutdated (.object o) ∧
      ¬ (1 ≤ i.toInt ∧ i.toInt ≤ (w.heap.instance_ o).layout.fieldCount)

/-- An index into an instance that does not lag is the same when the instance is up to date. -/
theorem World.Sound.place_plain (h : w.Sound s) {o : ObjectRef}
    (ho : argument arguments 0 = .object o) (hlags : ¬ w.Lags arguments) :
    place arguments 1 (w.plain.heap.instance_ o).layout.fieldCount "instVarAt:" =
      place arguments 1 (w.heap.instance_ o).layout.fieldCount "instVarAt:" := by
  by_cases hold : w.isOutdated (.object o) = true
  · have hle := h.heap.fieldCount_le_current h.stock h.classes o
    rw [place, place]
    cases hindex : smallInteger arguments 1 "instVarAt:" with
    | error f => rfl
    | ok i =>
      have hi : argument arguments 1 = .int i := by
        rw [smallInteger] at hindex
        split at hindex
        · rename_i j hj
          cases hindex
          exact hj
        · cases hindex
      have hrange : 1 ≤ i.toInt ∧ i.toInt ≤ (w.heap.instance_ o).layout.fieldCount := by
        by_contra hout
        exact hlags ⟨o, i, ho, hi, hold, hout⟩
      have hrange' : 1 ≤ i.toInt ∧ i.toInt ≤ (w.plain.heap.instance_ o).layout.fieldCount :=
        ⟨hrange.1, hrange.2.trans (by exact_mod_cast hle)⟩
      dsimp only
      rw [if_pos hrange, if_pos hrange']
  · have hid : (w.heap.instance_ o).layout.id =
        (w.classes.get (w.heap.instance_ o).cls).layout.id := by
      simpa [isOutdated] using hold
    rw [plain_heap, Heap.current_instance_of_eq hid]

/-- Reading a field by its number, of an instance that does not lag. -/
theorem Objects.instVarAt_plain (h : w.Sound s) (hlags : ¬ w.Lags arguments) :
    instVarAt arguments w.plain = plainly (instVarAt arguments w) := by
  have hread := fun o j => h.heap.readField_current h.stock h.classes o j
  unfold instVarAt
  split
  · rename_i o ho
    rw [h.place_plain ho hlags]
    split
    · rfl
    · rename_i j _
      rw [World.plain_heap, World.plain_classes, hread]
      cases hr : w.heap.readField w.classes o j with
      | mk v heap =>
        cases v with
        | some v => rfl
        | none =>
          show (Job.fail (noField j o (World.plain { w with heap })), _) = _
          rw [noField_plain]
          rfl
  · rfl

/-- A field that an instance gets only when it catches up with its class tells whether it has: the
    primitive fails before that, and answers the field afterwards. -/
theorem Objects.instVarAt_tells (h : w.Sound s) {o : ObjectRef} {i : Int64}
    (ho : argument arguments 0 = .object o) (hi : argument arguments 1 = .int i)
    (hout : (w.heap.instance_ o).layout.fieldCount < i.toInt)
    (hin : i.toInt ≤ ((w.migrate (.object o)).heap.instance_ o).layout.fieldCount) :
    (∃ f, (instVarAt arguments w).1 = .fail f) ∧
      ∃ v, (instVarAt arguments (w.migrate (.object o))).1 = .answer v := by
  have hsmall : smallInteger arguments 1 "instVarAt:" = .ok i := by
    rw [smallInteger, hi]
  constructor
  · have hplace : place arguments 1 (w.heap.instance_ o).layout.fieldCount "instVarAt:" =
        .error (.indexOutOfBounds i.toInt (argument arguments 0).typeName
          (w.heap.instance_ o).layout.fieldCount) := by
      rw [place, hsmall]
      exact if_neg (by omega)
    rw [instVarAt]
    rw [ho]
    dsimp only
    rw [hplace]
    exact ⟨_, rfl⟩
  · have h' := h.migrate (.object o)
    generalize w.migrate (.object o) = w' at hin h' ⊢
    have hsize := (h'.heap.instance_ h'.stock o).size
    have hplace : place arguments 1 (w'.heap.instance_ o).layout.fieldCount "instVarAt:" =
        .ok (i.toInt.toNat - 1) := by
      rw [place, hsmall]
      exact if_pos (by omega)
    have hfield : i.toInt.toNat - 1 < (w'.heap.instance_ o).fields.size := by omega
    rw [instVarAt]
    rw [ho]
    dsimp only
    rw [hplace]
    dsimp only
    rw [Heap.readField, Array.getElem?_eq_getElem hfield]
    exact ⟨_, rfl⟩

/-- What `instVarAt:put:` does once the instance is up to date. -/
def Objects.putField (o : ObjectRef) (arguments : List Value) (w : World) : Job × World :=
  match place arguments 1 (w.heap.instance_ o).layout.fieldCount "instVarAt:put:" with
  | .error f => (.fail f, w)
  | .ok j =>
    match w.heap.writeField w.classes o j (argument arguments 2) with
    | (true, heap) => (.answer (argument arguments 2), { w with heap })
    | (false, heap) => (.fail (noField j o { w with heap }), { w with heap })

theorem Objects.instVarAtPut_eq {o : ObjectRef} (ho : argument arguments 0 = .object o)
    (w : World) : instVarAtPut arguments w = putField o arguments (w.migrate (.object o)) := by
  cases hr : place arguments 1 ((w.heap.updateLayout w.classes o).2.instance_ o).layout.fieldCount
      "instVarAt:put:" with
  | error f => simp only [instVarAtPut, putField, World.migrate, ho, hr]
  | ok j =>
    cases hw : (w.heap.updateLayout w.classes o).2.writeField w.classes o j
        (argument arguments 2) with
    | mk done heap =>
      cases done with
      | true => simp only [instVarAtPut, putField, World.migrate, ho, hr, hw]
      | false => simp only [instVarAtPut, putField, World.migrate, ho, hr, hw]

theorem Objects.putField_plain (h : w.Sound s) {o : ObjectRef}
    (hsame : w.plain.heap.instance_ o = w.heap.instance_ o) :
    putField o arguments w.plain = plainly (putField o arguments w) := by
  rw [putField, putField, hsame]
  split
  · rfl
  · rename_i j _
    rw [World.plain_heap, World.plain_classes, h.heap.writeField_current h.stock h.classes o j]
    cases hr : w.heap.writeField w.classes o j (argument arguments 2) with
    | mk done heap =>
      cases done with
      | true => rfl
      | false =>
        show (Job.fail (noField j o (World.plain { w with heap })), _) = _
        rw [noField_plain]
        rfl

/-- Writing a field by its number brings the instance up to date first. -/
theorem Objects.instVarAtPut_plain (h : w.Sound s) :
    instVarAtPut arguments w.plain = plainly (instVarAtPut arguments w) := by
  cases ho : argument arguments 0 with
  | object o =>
    -- After the first step of the primitive, both worlds hold the same instance.
    have hsame : (w.migrate (.object o)).plain.heap.instance_ o =
        (w.migrate (.object o)).heap.instance_ o := by
      rw [World.plain_migrate]
      exact (w.heap.updateLayout_instance w.classes o).symm
    rw [instVarAtPut_eq ho, instVarAtPut_eq ho, ← putField_plain (h.migrate _) hsame,
      World.plain_migrate, World.migrate_plain]
  | _ =>
    simp only [instVarAtPut, ho]
    rfl

/-- A primitive does the same in a plain world, unless it lags. -/
theorem Builtin.apply_plain (h : w.Sound s) (b : Builtin)
    (hlags : b = .instVarAt → ¬ w.Lags arguments) :
    b.apply arguments w.plain = plainly (b.apply arguments w) := by
  unfold Builtin.apply
  dsimp only
  cases b with
  | classOf => rw [World.classOf_plain]; rfl
  | printString => exact textAnswer_plain _ w
  | println => exact Objects.printing_plain _ _ _ w
  | perform => rw [Objects.perform, Performing.job_plain]; rfl
  | performWithArguments =>
    rw [Objects.performWithArguments, Performing.job_plain, Performing.spread_plain]; rfl
  | respondsTo => rw [Objects.respondsTo_plain]; rfl
  | instVarAt => exact Objects.instVarAt_plain h (hlags rfl)
  | instVarAtPut => exact Objects.instVarAtPut_plain h
  | new => exact Objects.new_plain _ w
  | globalPut => exact Objects.globalPut_plain _ w
  | print => exact Objects.printing_plain _ _ _ w
  | printNewline => rw [World.write_plain]; rfl
  | arith op => exact Numbers.arith_plain _ _ _ _ w
  | negated => exact Numbers.negated_plain _ w
  | concat => exact Collections.concat_plain _ _ w
  | atPut => exact Collections.setElement_plain _ w
  | newArray => exact Collections.newArray_plain _ w
  | refuse => rw [Objects.refuse_plain]; rfl
  | _ => rfl

/-! ### Recipes -/

mutual

/-- A recipe makes the same value in a plain world. -/
theorem Recipe.make_plain (registers : Directory Value) (r : Recipe) (w : World) :
    r.make registers w.plain = plainly (r.make registers w) := by
  match r with
  | .nil | .bool _ | .int _ | .big _ | .double _ | .string _ | .symbol _ =>
    rw [Recipe.make, Recipe.make]
    rfl
  | .array items =>
    rw [Recipe.make, Recipe.make, Recipe.makeAll_plain registers items w]
    cases hr : Recipe.makeAll registers items w with
    | mk made w' =>
      cases made with
      | error e => rfl
      | ok vs => rfl
  | .classNamed name =>
    rw [Recipe.make, Recipe.make, World.plain_classes]
    split <;> rfl
  | .register name =>
    rw [Recipe.make, Recipe.make]
    split <;> rfl
  | .global name =>
    rw [Recipe.make, Recipe.make, World.plain_globals]
    split <;> rfl
  | .instanceOf name =>
    rw [Recipe.make, Recipe.make, World.plain_classes]
    split
    · rw [World.newInstance_plain]
      rfl
    · rfl

theorem Recipe.makeAll_plain (registers : Directory Value) (rs : List Recipe) (w : World) :
    Recipe.makeAll registers rs w.plain = plainly (Recipe.makeAll registers rs w) := by
  match rs with
  | [] =>
    rw [Recipe.makeAll, Recipe.makeAll]
    rfl
  | r :: rest =>
    rw [Recipe.makeAll, Recipe.makeAll, Recipe.make_plain registers r w]
    cases hr : r.make registers w with
    | mk made w' =>
      cases made with
      | error e => rfl
      | ok v =>
        dsimp only [plainly]
        rw [Recipe.makeAll_plain registers rest w']
        cases hr' : Recipe.makeAll registers rest w' with
        | mk made' w'' =>
          cases made' with
          | error e => rfl
          | ok vs => rfl

end

/-! ### Handlers -/

theorem Condition.fault_plain (c : Condition) (receiver : Value) (w : World) :
    c.fault receiver w.plain = c.fault receiver w := by
  simp only [Condition.fault, World.classOf_plain, World.plain_classes, World.plain_heap,
    Heap.current_closure]

namespace Handler

variable {receiver : Value} {c : Condition}

theorem standardJob_plain (receiver : Value) (c : Condition) (w : World) :
    standardJob receiver c w.plain = plainly (standardJob receiver c w) := by
  rw [standardJob, standardJob, World.lookup_plain]
  split
  · cases c <;> rfl
  · rw [Condition.fault_plain]
    rfl

theorem writeAll_plain (writes : List (String × Recipe)) (w : World) :
    writeAll writes w.plain = (writeAll writes w).plain := by
  induction writes generalizing w with
  | nil => rfl
  | cons entry rest ih =>
    obtain ⟨name, r⟩ := entry
    rw [writeAll, writeAll, r.make_plain]
    cases hr : r.make .empty w with
    | mk made w' =>
      cases made with
      | error e => exact ih w'
      | ok v => exact ih (w'.writeGlobal name v)

/-- What a handler leaves, with the world made plain. -/
def plainly (r : Job × World × List Pending) : Job × World × List Pending :=
  (r.1, r.2.1.plain, r.2.2)

theorem react_plain (r : Reaction) (receiver : Value) (c : Condition) (w : World)
    (k : List Pending) : react r receiver c w.plain k = plainly (react r receiver c w k) := by
  cases r with
  | restart => rfl
  | fail text => rfl
  | standard =>
    rw [react, react, standardJob_plain]
    rfl
  | call block arguments =>
    rw [react, react, block.make_plain]
    cases hr : block.make .empty w with
    | mk made w' =>
      cases made with
      | error e => rfl
      | ok v =>
        -- The first recipe leaves plain worlds to the second one.
        dsimp only [Parley.plainly]
        rw [Recipe.makeAll_plain]
        cases hr' : Recipe.makeAll .empty arguments w' with
        | mk made' w'' =>
          cases made' with
          | error e => rfl
          | ok vs => cases v <;> rfl
  | send selector arguments other =>
    rw [react, react, Recipe.makeAll_plain]
    cases hr : Recipe.makeAll .empty arguments w with
    | mk made w' =>
      cases made with
      | error e => rfl
      | ok vs =>
        cases other with
        | none => rfl
        | some r =>
          dsimp only [Parley.plainly]
          rw [r.make_plain]
          cases hr' : r.make .empty w' with
          | mk made' w'' => cases made' <;> rfl
  | answer r =>
    rw [react, react, r.make_plain]
    cases hr : r.make .empty w with
    | mk made w' => cases made <;> rfl

/-- A handler does the same in a plain world. -/
theorem job_plain (receiver : Value) (c : Condition) (w : World) (k : List Pending) :
    job receiver c w.plain k = plainly (job receiver c w k) := by
  have hhandler : w.plain.handler = w.handler := rfl
  unfold job
  rw [hhandler]
  cases w.handler with
  | standard =>
    dsimp only
    rw [standardJob_plain]
    rfl
  | scripted replies =>
    dsimp only
    rw [World.display?_plain, World.conditionText?_plain]
    split
    · rename_i shown text _ _
      cases replies with
      | nil => rfl
      | cons reply rest =>
        -- The report and the rest of the script are the same in both worlds.
        let w₁ : World := { w with
          reports := .condition c.kind c.handlerSelector shown text :: w.reports
          handler := .scripted rest }
        show react _ _ _ (writeAll reply.writes w₁.plain) k =
          plainly (react _ _ _ (writeAll reply.writes w₁) k)
        rw [writeAll_plain, react_plain]
    · rfl

end Handler

end Parley
