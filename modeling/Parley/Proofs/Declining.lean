import Parley.Proofs.Tuning

/-!
# What comes of a message to a shortcut

A call site that is bound to a shortcut asks the shortcut first, and calls no primitive if it
accepts the operands. If it declines them, the site gives the shortcut up and sends the message
through a new dispatch chain. Neither is seen in what comes of the message, for any primitive that
the library lists with a shortcut, in any world and for any operands (`Shortcut.stands_for`):

* a shortcut that accepts its operands leaves the machine as one step of the primitive does;
* a shortcut that declines them has done nothing. The primitive then comes to an outcome in a few
  steps, whatever is pending, and leaves the world as it was (`Job.Idle`); the new chain
  reaches that outcome in a world that differs in records only (`World.Rerecords`).
-/

namespace Parley

open Machine

variable {w w' : World} {s : Selector} {arguments : List Value} {p : Primitive} {op : Shortcut}

/-! ### Records -/

/-- The second world is the first one, but for what its instructions are specialized to, its events
    and its counters. -/
def World.Rerecords (w w' : World) : Prop :=
  w' = { w with
    sites := w'.sites
    events := w'.events
    thread := { w.thread with statistics := w'.thread.statistics } }

namespace World

@[refl] theorem Rerecords.refl (w : World) : w.Rerecords w :=
  rfl

theorem Rerecords.trans {w'' : World} (h : w.Rerecords w') (h' : w'.Rerecords w'') :
    w.Rerecords w'' := by
  rw [Rerecords] at h h' ⊢
  rw [h', h]

theorem rerecords_count (w : World) (f : Statistics → Statistics) : w.Rerecords (w.count f) :=
  rfl

theorem rerecords_note (w : World) (e : Event) : w.Rerecords (w.note e) := by
  rw [note]
  split <;> rfl

theorem rerecords_specialize (w : World) (l : Location) (site : Site) :
    w.Rerecords (w.specialize l site) :=
  rfl

/-- A lookup does not read records. -/
theorem Rerecords.lookup (h : w.Rerecords w') (v : Value) (s : Selector) :
    w'.lookup v s = w.lookup v s := by
  rw [h]
  cases v with
  | bool b => cases b <;> rfl
  | _ => rfl

theorem Rerecords.heap (h : w.Rerecords w') : w'.heap = w.heap := by
  rw [h]

end World

/-! ### Operands that a shortcut declines -/

/-- A machine comes to a job within some steps, with the same things pending, and leaves the world
    as it is. -/
def Machine.ComesTo (w : World) (j j' : Job) : Prop :=
  ∃ n, ∀ k, step^[n] ⟨w, j, k⟩ = ⟨w, j', k⟩

theorem Machine.ComesTo.refl (w : World) (j : Job) : ComesTo w j j :=
  ⟨0, fun _ => rfl⟩

theorem Machine.ComesTo.step {j j₁ j' : Job} (hstep : ∀ k, step ⟨w, j, k⟩ = ⟨w, j₁, k⟩)
    (h : ComesTo w j₁ j') : ComesTo w j j' := by
  obtain ⟨n, h⟩ := h
  refine ⟨n + 1, fun k => ?_⟩
  rw [Function.iterate_succ_apply, hstep, h]

/-- An answer or an unwind. -/
inductive Job.IsOutcome : Job → Prop
  | answer (v : Value) : IsOutcome (.answer v)
  | unwind (u : Unwind) : IsOutcome (.unwind u)

/-- A job that executes nothing: an outcome already, or to give a block the wrong number of
    arguments. -/
inductive Job.Idle (heap : Heap) : Job → Prop
  | outcome {j : Job} : j.IsOutcome → Idle heap j
  | evaluate {b : BlockRef} {arguments : List Value} :
      (heap.closure b).parameterCount ≠ arguments.length → Idle heap (.evaluate b arguments)
  | count {next limit : Int} {body : BlockRef} {result : Value} :
      (heap.closure body).parameterCount ≠ 1 → Idle heap (.count next limit body result)

/-- A block that is given the wrong number of arguments fails. -/
theorem Machine.step_misfit {b : BlockRef}
    (h : (w.heap.closure b).parameterCount ≠ arguments.length) (k : List Pending) :
    step ⟨w, .evaluate b arguments, k⟩ =
      ⟨w, .fail (.blockArity (w.heap.closure b).parameterCount arguments.length), k⟩ := by
  simp only [step, evaluate, if_neg h]
  rfl

/-- What an idle job comes to depends on nothing but the blocks that there are. -/
theorem Job.Idle.comesTo {heap : Heap} {j : Job} (h : j.Idle heap) : ∃ outcome : Job,
    outcome.IsOutcome ∧ ∀ w : World, w.heap = heap → ComesTo w j outcome := by
  cases h with
  | outcome hj => exact ⟨j, hj, fun w _ => .refl w j⟩
  | @evaluate b arguments hmisfit =>
    refine ⟨.fail (.blockArity (heap.closure b).parameterCount arguments.length), .unwind _, ?_⟩
    rintro w rfl
    exact .step (step_misfit hmisfit) (.refl ..)
  | @count next limit body result hmisfit =>
    by_cases hlimit : next ≤ limit
    · refine ⟨.fail (.blockArity (heap.closure body).parameterCount 1), .unwind _, ?_⟩
      rintro w rfl
      refine ⟨3, fun k => ?_⟩
      have hstart : step ⟨w, .count next limit body result, k⟩ =
          ⟨w, .evaluate body [Number.reduce next], .counting (next + 1) limit body result ::
            k⟩ := by
        simp only [step, if_pos hlimit]
      have hmisfit : (w.heap.closure body).parameterCount ≠ [Number.reduce next].length := hmisfit
      -- The fault then passes what is pending of the loop.
      rw [Function.iterate_succ_apply, hstart, Function.iterate_succ_apply, step_misfit hmisfit]
      rfl
    · refine ⟨.answer result, .answer _, fun w _ => .step (fun k => ?_) (.refl ..)⟩
      simp only [step, if_neg hlimit]

theorem Numbers.isOutcome_compare (c : Comparison) (a b : Value) :
    (Numbers.compare c a b).IsOutcome := by
  rw [Numbers.compare.eq_def]
  cases Number.compare? c a b with
  | some truth => exact .answer _
  | none =>
    cases c with
    | eq | ne => exact .answer _
    | _ => exact .unwind _

/-- An operation that is not one on integers leaves the world alone. -/
theorem Numbers.isOutcome_arith {op : Arith} {a b : Value}
    (h : Number.integer op a b = .inapplicable) (selector : Selector) :
    ∃ job : Job, job.IsOutcome ∧ ∀ w, Numbers.arith op selector a b w = (job, w) := by
  cases hdouble : Number.double op a b with
  | value v =>
    refine ⟨.answer v, .answer v, fun w => ?_⟩
    simp only [Numbers.arith, h, hdouble]
  | _ =>
    refine ⟨.fail (misfit a selector "a number" b), .unwind _, fun w => ?_⟩
    simp only [Numbers.arith, h, hdouble]

theorem Blocks.isOutcome_not (v : Value) :
    (Blocks.withTruth v fun b => .answer (.bool !b)).IsOutcome := by
  cases v with
  | bool b => exact .answer _
  | _ => exact .unwind _

/-- The receiver is a block only if it is one for another number of arguments. -/
theorem Blocks.idle_value {heap : Heap} (h : ∀ b, argument arguments 0 = .block b →
    (heap.closure b).parameterCount ≠ arguments.length - 1) :
    (Blocks.value arguments).Idle heap := by
  rw [Blocks.value]
  split
  · rename_i b hb
    refine .evaluate ?_
    rw [List.length_drop]
    exact h b hb
  · exact .outcome (.unwind _)

/-- The body is a block only if it is one for another number of arguments. -/
theorem Numbers.idle_toDo {heap : Heap} (h : ∀ start limit body,
    argument arguments 0 = .int start → argument arguments 1 = .int limit →
      argument arguments 2 = .block body → (heap.closure body).parameterCount ≠ 1) :
    (Numbers.toDo arguments).Idle heap := by
  rw [Numbers.toDo, smallInteger, smallInteger, blockArgument]
  split
  · rename_i start hstart
    split
    · rename_i limit hlimit
      split
      · rename_i body hbody
        exact .count (h start limit body hstart hlimit hbody)
      · exact .outcome (.unwind _)
    · exact .outcome (.unwind _)
  · exact .outcome (.unwind _)

/-- A primitive whose shortcut declines the operands leaves a job that executes nothing, the same
    one in every world, and does nothing else. -/
theorem Shortcut.idle_of_declines (h : op.apply? arguments w = none) :
    ∃ job : Job, job.Idle w.heap ∧ ∀ w', op.builtin.apply arguments w' = (job, w') := by
  unfold Shortcut.apply? at h
  cases op with
  | arith op =>
    have hinteger : Number.integer op (argument arguments 0) (argument arguments 1) =
        .inapplicable := by
      dsimp only at h
      split at h
      · cases h
      · cases h
      · assumption
    obtain ⟨job, hjob, harith⟩ := Numbers.isOutcome_arith hinteger op.selector
    exact ⟨job, .outcome hjob, harith⟩
  | compare c => exact ⟨_, .outcome (Numbers.isOutcome_compare c _ _), fun _ => rfl⟩
  | identical | isNil | notNil => cases h
  | not => exact ⟨_, .outcome (Blocks.isOutcome_not _), fun _ => rfl⟩
  | blockValue n =>
    refine ⟨_, Blocks.idle_value fun b hb hcount => ?_, fun _ => rfl⟩
    simp [hb, hcount] at h
  | count =>
    refine ⟨_, Numbers.idle_toDo fun start limit body hstart hlimit hbody hcount => ?_,
      fun _ => rfl⟩
    simp [hstart, hlimit, hbody, hcount] at h

/-! ### The new dispatch chain -/

/-- A new chain looks the message up itself, or has it looked up. -/
theorem Chain.dispatch_new {i : Invokable}
    (hfind : w.lookup (argument arguments 0) s = some i) : ∃ job c w',
      (Chain.new s).dispatch arguments w = (job, c, w') ∧ w.Rerecords w' ∧
        (job = .invoke i arguments ∨ job = .send s arguments) := by
  have hreceiver : arguments.headD .nil = argument arguments 0 := by
    cases arguments <;> rfl
  have hdispatch : (Chain.new s).dispatch arguments w = specialize s [] arguments w := rfl
  rw [hdispatch, specialize, hreceiver]
  generalize hv : w.count _ = v
  have hwv : w.Rerecords v := hv ▸ w.rerecords_count _
  by_cases hsize : v.settings.cacheSize = 0
  · have hmiss : miss [] (v.guardOf (argument arguments 0)) v.classes.epoch
        v.settings.cacheSize = .full := by
      simp [miss, hit?, hsize]
    rw [hmiss]
    exact ⟨_, _, _, rfl, hwv.trans ((v.rerecords_note _).trans (World.rerecords_count _ _)),
      .inr rfl⟩
  · have hmiss : miss [] (v.guardOf (argument arguments 0)) v.classes.epoch
        v.settings.cacheSize = .grow := by
      simp [miss, hit?, hsize]
    have hentry : newEntry s (argument arguments 0) v =
        (⟨v.guardOf (argument arguments 0), v.classes.epoch, .invoke i⟩, v) := by
      rw [newEntry, hwv.lookup, hfind]
    rw [hmiss, hentry]
    exact ⟨_, _, _, rfl, hwv.trans (v.rerecords_note _), .inl rfl⟩

/-- A site that gives up its shortcut calls what a lookup finds, at once or by one more step. -/
theorem Shortcut.miss_reaches {i : Invokable} (hfind : w.lookup (argument arguments 0) s = some i)
    (op : Shortcut) (l : Location) : ∃ w' n, w.Rerecords w' ∧
      ∀ k, step^[n] (after k (missShortcut l op s arguments w)) = ⟨w', .invoke i arguments, k⟩ := by
  rw [missShortcut]
  generalize hv : World.note _ _ = v
  have hwv : w.Rerecords v := hv ▸ (w.rerecords_count _).trans (World.rerecords_note _ _)
  have hfind' : v.lookup (argument arguments 0) s = some i := by
    rw [hwv.lookup, hfind]
  obtain ⟨job, c, w', hdispatch, hw, hjob⟩ := Chain.dispatch_new hfind'
  have hw' : w.Rerecords (w'.specialize l (.chain c)) :=
    (hwv.trans hw).trans (w'.rerecords_specialize l _)
  rw [throughChain, hdispatch]
  rcases hjob with rfl | rfl
  · exact ⟨_, 0, hw', fun k => rfl⟩
  · refine ⟨_, 1, hw', fun k => ?_⟩
    show step ⟨_, .send s arguments, k⟩ = _
    simp only [step, send, hw'.lookup, hfind]

/-! ### Standing for a primitive -/

/-- A shortcut stands for the primitive that the library lists it with, in any world in which the
    receiver finds the primitive. If it accepts the operands, it leaves what the primitive does. If
    it declines them, the primitive comes to an outcome and leaves the world as it is; the site that
    gives the shortcut up reaches the same outcome, and changes nothing but records. -/
theorem Shortcut.stands_for {settings : Settings} {handler : Handler} {sink : Sink} {watched : Bool}
    {c : ClassRef}
    (hlisted : (World.boot settings handler sink watched).classes.own? c s = some (.primitive p))
    (hop : p.shortcut = some op) (hlength : arguments.length = s.arity + 1)
    (hfind : w.lookup (argument arguments 0) s = some (.primitive p)) :
    (∀ r, op.apply? arguments w = some r →
      ∀ k, step ⟨w, .invoke (.primitive p) arguments, k⟩ = after k r) ∧
    (∀ _ : op.apply? arguments w = none, ∃ outcome : Job, outcome.IsOutcome ∧
      (∃ n, ∀ k, step^[n] ⟨w, .invoke (.primitive p) arguments, k⟩ = ⟨w, outcome, k⟩) ∧
      ∀ l, ∃ w' n, w.Rerecords w' ∧
        ∀ k, step^[n] (after k (missShortcut l op s arguments w)) = ⟨w', outcome, k⟩) := by
  obtain ⟨hselector, hbuiltin⟩ := World.boot_mirrored settings handler sink watched c s p hlisted
  have hinvoke : ∀ w k, step ⟨w, .invoke (.primitive p) arguments, k⟩ =
      after k (op.builtin.apply arguments w) := by
    intro w k
    simp only [step, invoke, if_pos (hselector ▸ hlength), hbuiltin op hop]
  refine ⟨fun r hr k => ?_, fun hdeclines => ?_⟩
  · rw [hinvoke, op.mirrors hr]
  · obtain ⟨job, hidle, happly⟩ := op.idle_of_declines hdeclines
    obtain ⟨outcome, houtcome, hcomes⟩ := hidle.comesTo
    have hprimitive : ∀ w' : World, w'.heap = w.heap →
        ComesTo w' (.invoke (.primitive p) arguments) outcome := fun w' hheap =>
      .step (fun k => by rw [hinvoke, happly]; rfl) (hcomes w' hheap)
    refine ⟨outcome, houtcome, hprimitive w rfl, fun l => ?_⟩
    obtain ⟨w', m, hw, hmiss⟩ := op.miss_reaches hfind l
    obtain ⟨n, hn⟩ := hprimitive w' hw.heap
    refine ⟨w', n + m, hw, fun k => ?_⟩
    rw [Function.iterate_add_apply, hmiss, hn]

/-- In a new world, integers have a primitive for sums that is listed with its shortcut. -/
theorem World.boot_sum : ∃ p,
    (boot .standard .standard .kept false).classes.own? Core.integer "+" = some (.primitive p) ∧
      p.shortcut = some (.arith .add) := by
  have hshortcut : ((boot .standard .standard .kept false).classes.own? Core.integer "+").bind
      Invokable.shortcut? = some (.arith .add) := by
    rw [ClassTable.own?, boot_get _ _ _ _ (by decide)]
    decide +kernel
  obtain ⟨i, hi, hop⟩ := Option.bind_eq_some_iff.1 hshortcut
  cases i with
  | method code => cases hop
  | primitive p => exact ⟨p, hi, hop⟩

/-- Three plus four is left to the shortcut. Three plus nil is not, and is a fault. -/
theorem Shortcut.stands_for_sum : ∃ w p, w = World.boot .standard .standard .kept false ∧
    (∀ k, (step ⟨w, .invoke (.primitive p) [.int 3, .int 4], k⟩).job = .answer (.int 7)) ∧
    ∃ outcome : Job, outcome.IsOutcome ∧ ∀ l, ∃ w' n, w.Rerecords w' ∧ ∀ k,
      step^[n] (after k (missShortcut l (.arith .add) "+" [.int 3, .nil] w)) =
        ⟨w', outcome, k⟩ := by
  obtain ⟨p, hlisted, hop⟩ := World.boot_sum
  refine ⟨_, p, rfl, ?_⟩
  have hfind : (World.boot .standard .standard .kept false).lookup (.int 3) "+" =
      some (.primitive p) := by
    have hclass : (World.boot .standard .standard .kept false).classOf (.int 3) =
      Core.integer := rfl
    rw [World.lookup, hclass, ClassTable.lookup, List.findSome?_cons, hlisted]
  have hlength : ∀ v : Value, [.int 3, v].length = Selector.arity "+" + 1 := fun _ => rfl
  obtain ⟨haccept, -⟩ := Shortcut.stands_for hlisted hop (hlength (.int 4)) hfind
  obtain ⟨-, hdecline⟩ := Shortcut.stands_for hlisted hop (hlength .nil) hfind
  obtain ⟨outcome, houtcome, -, hmiss⟩ := hdecline rfl
  refine ⟨fun k => ?_, outcome, houtcome, hmiss⟩
  rw [haccept _ rfl]
  rfl

end Parley
