import Parley.Proofs.Shortcuts
import Parley.Proofs.Stage

/-!
# Jobs that leave an activation

Only executing an instruction goes on with an activation, and only executing an instruction finds
a defect of its tape. What primitives, shortcuts, dispatch chains and handlers ask for is none of
both: it is *outward*. The one exception are calls, which start an activation at its first
instruction.

More is true. What they ask for is not a return through activations either, nor one of the faults
that come of frames and of unwinding (`Job.isOuter`), nor one of those that come of calls and of
specialized instructions (`Job.isPlain`); and none of them touches the stage (`World.Stays`) nor
the other premises (`World.Rests`), where a specialized instruction may become another one.
Primitives do not even call anything by themselves (`Job.isErrand`).
-/

namespace Parley

/-- The faults that name a defect of a tape. -/
def Fault.isDefect : Fault → Bool
  | .ranOff _ | .badOpcode _ _ _ | .strayQuickened _ _ | .notABlockLiteral _ _ | .badConstant _
  | .notASelector _ | .notAGlobal _ | .emptyStack _ _ => true
  | _ => false

/-- The faults of an instruction that does not find the variable, or the method to return from,
    that it addresses. -/
def Fault.isLexical : Fault → Bool
  | .nonLocalReturnFrom _ | .argumentOutOfRange _ | .localOutOfRange _ | .contextTooDeep _ => true
  | _ => false

/-- The faults that an unwind is for a host, if nobody stops it. -/
def Fault.isUnwinding : Fault → Bool
  | .noTarget _ | .escapeUnhandled _ | .strayRestart => true
  | _ => false

/-- The faults that come of instructions and of unwinding only. -/
def Fault.isInner (f : Fault) : Bool :=
  f.isDefect || f.isLexical || f.isUnwinding

/-- The faults of a machine that nests too deep, and those of an instruction that is specialized to
    what its opcode does not call for. -/
def Fault.isMechanical : Fault → Bool
  | .stackOverflow _ _ | .strayCallSite _ _ | .strayGlobalSite _ _ => true
  | _ => false

/-- The other faults. -/
def Fault.isPlain (f : Fault) : Bool :=
  !f.isInner && !f.isMechanical

/-- Whether a job neither goes on with an activation nor fails by a defect of a tape. -/
def Job.isOutward : Job → Bool
  | .execute _ => false
  | .unwind (.failed f) => !f.isDefect
  | _ => true

/-- Whether a job neither goes on with an activation nor returns through activations, nor reports
    such a return or fails by a fault that comes of one. -/
def Job.isOuter : Job → Bool
  | .execute _ | .unwind (.nonLocal _ _) | .unwind (.escaped _ _) | .report _ (.escaped _ _) =>
    false
  | .unwind (.failed f) => !f.isInner
  | _ => true

/-- Whether a job is such a one, and does not fail by a mechanical fault. -/
def Job.isPlain : Job → Bool
  | .unwind (.failed f) => f.isPlain
  | job => job.isOuter

/-- Whether a job is such a one, and is neither a call nor a report. -/
def Job.isErrand : Job → Bool
  | .invoke _ _ | .report _ _ => false
  | job => job.isPlain

theorem Job.ne_execute {job : Job} (h : job.isOutward) (a : Activation) :
    job ≠ .execute a := by
  rintro rfl
  cases h

theorem Fault.isInner_eq_false_iff {f : Fault} : f.isInner = false ↔
    f.isDefect = false ∧ f.isLexical = false ∧ f.isUnwinding = false := by
  simp only [isInner, Bool.or_eq_false_iff, and_assoc]

theorem Fault.isPlain_iff {f : Fault} :
    f.isPlain ↔ f.isInner = false ∧ f.isMechanical = false := by
  simp only [isPlain, Bool.and_eq_true, Bool.not_eq_true']

/-- A fault of an outer job is none of the inner ones. -/
theorem Job.of_outer_fail {f : Fault} (h : (Job.fail f).isOuter) :
    f.isDefect = false ∧ f.isLexical = false ∧ f.isUnwinding = false := by
  rw [← Fault.isInner_eq_false_iff]
  simpa [fail, isOuter] using h

theorem Job.outward {job : Job} (h : job.isOuter) : job.isOutward := by
  cases job with
  | unwind u =>
    cases u with
    | failed f =>
      simp only [isOuter, Bool.not_eq_true'] at h
      simp only [isOutward, (Fault.isInner_eq_false_iff.1 h).1, Bool.not_false]
    | _ => rfl
  | execute a => cases h
  | _ => rfl

theorem Job.outer {job : Job} (h : job.isPlain) : job.isOuter := by
  cases job with
  | unwind u =>
    cases u with
    | failed f =>
      have h : f.isPlain := h
      simp only [isOuter, (Fault.isPlain_iff.1 h).1, Bool.not_false]
    | _ => exact h
  | _ => exact h

theorem Job.plain {job : Job} (h : job.isErrand) : job.isPlain := by
  cases job with
  | invoke _ _ | report _ _ => cases h
  | _ => exact h

/-- Whether something leaves the stage as it is, with a job of a kind. -/
structure World.Stays (w : World) (kind : Job → Bool) (r : Job × World) : Prop where
  job : kind r.1
  stage : r.2.stage = w.stage

/-- Whether something leaves all of the premises as they are, with a job of a kind. -/
structure World.Rests (w : World) (kind : Job → Bool) (r : Job × World) : Prop where
  job : kind r.1
  premises : r.2.premises = w.premises

namespace World

variable {w w₀ : World} {kind : Job → Bool} {job : Job} {r : Job × World}

theorem Stays.same (h : kind job) : w.Stays kind (job, w) :=
  ⟨h, rfl⟩

/-- What comes before leaves the stage as it is, too. -/
theorem Stays.after (h : w.Stays kind r) (hw : w.stage = w₀.stage) : w₀.Stays kind r :=
  ⟨h.job, h.stage.trans hw⟩

namespace Rests

theorem same (h : kind job) : w.Rests kind (job, w) :=
  ⟨h, rfl⟩

theorem stage (h : w.Rests kind r) : r.2.stage = w.stage :=
  congrArg Premises.stage h.premises

theorem plain (h : w.Rests Job.isErrand r) : w.Rests Job.isPlain r :=
  ⟨Job.plain h.job, h.premises⟩

/-- What is plain is outer. -/
theorem stays (h : w.Rests Job.isPlain r) : w.Stays Job.isOuter r :=
  ⟨Job.outer h.job, h.stage⟩

/-- What comes before leaves the premises as they are, too. -/
theorem after (h : w.Rests kind r) (hw : w.premises = w₀.premises) : w₀.Rests kind r :=
  ⟨h.job, h.premises.trans hw⟩

end Rests

end World

/-! ### Jobs of primitives -/

theorem Job.fail_isErrand {f : Fault} (h : f.isPlain) : (Job.fail f).isErrand := by
  exact h

theorem nameArgument_fault {arguments : List Value} {index : Nat} {s : Selector} {f : Fault}
    (h : nameArgument arguments index s = .error f) : f.isPlain := by
  rw [nameArgument] at h
  split at h <;> cases h
  rfl

theorem smallInteger_fault {arguments : List Value} {index : Nat} {s : Selector} {f : Fault}
    (h : smallInteger arguments index s = .error f) : f.isPlain := by
  rw [smallInteger] at h
  split at h <;> cases h
  rfl

theorem blockArgument_fault {arguments : List Value} {index : Nat} {s : Selector} {f : Fault}
    (h : blockArgument arguments index s = .error f) : f.isPlain := by
  rw [blockArgument] at h
  split at h <;> cases h
  rfl

theorem place_fault {arguments : List Value} {index size : Nat} {s : Selector} {f : Fault}
    (h : place arguments index size s = .error f) : f.isPlain := by
  rw [place] at h
  split at h
  · rename_i g hg
    cases h
    exact smallInteger_fault hg
  · split at h <;> cases h
    rfl

theorem textAnswer_rests (v : Value) (w : World) : w.Rests Job.isErrand (textAnswer v w) := by
  rw [textAnswer]
  split <;> exact ⟨rfl, rfl⟩

namespace Performing

theorem message_fault {s : Selector} {receiver : Value} {arguments : List Value} {f : Fault}
    (h : message s receiver arguments = .error f) : f.isPlain := by
  rw [message] at h
  split at h <;> cases h
  rfl

theorem listed_fault {arguments : List Value} {f : Fault} (h : listed arguments = .error f) :
    f.isPlain := by
  rw [listed] at h
  split at h
  · rename_i g hg
    cases h
    exact nameArgument_fault hg
  · exact message_fault h

theorem spread_fault {arguments : List Value} {w : World} {f : Fault}
    (h : spread arguments w = .error f) : f.isPlain := by
  rw [spread] at h
  split at h
  · rename_i g hg
    cases h
    exact nameArgument_fault hg
  · split at h
    · exact message_fault h
    · cases h
      rfl

theorem job_isErrand {r : Except Fault Message} (h : ∀ f, r = .error f → f.isPlain) (w : World) :
    (job r w).isErrand := by
  cases r with
  | error f => exact Job.fail_isErrand (h f rfl)
  | ok m =>
    rw [job]
    split <;> rfl

end Performing

namespace Objects

theorem printing_rests (v : Value) (ending : String) (answer : Value) (w : World) :
    w.Rests Job.isErrand (printing v ending answer w) := by
  rw [printing]
  split
  · exact ⟨rfl, w.write_premises _⟩
  · exact .same rfl

theorem respondsTo_isErrand (arguments : List Value) (w : World) :
    (respondsTo arguments w).isErrand := by
  rw [respondsTo]
  cases h : nameArgument arguments 1 "respondsTo:" with
  | error f => exact Job.fail_isErrand (nameArgument_fault h)
  | ok s => rfl

theorem instVarAt_rests (arguments : List Value) (w : World) :
    w.Rests Job.isErrand (instVarAt arguments w) := by
  unfold instVarAt
  split
  · rename_i o _
    split
    · rename_i h
      exact .same (Job.fail_isErrand (place_fault h))
    · rename_i i _
      have hfield := w.setHeap_premises (w.heap.readField_shell w.classes o i)
      generalize w.heap.readField w.classes o i = r at hfield ⊢
      obtain ⟨_ | v, heap⟩ := r
      · exact ⟨rfl, hfield⟩
      · exact ⟨rfl, hfield⟩
  · exact .same rfl

theorem instVarAtPut_rests (arguments : List Value) (w : World) :
    w.Rests Job.isErrand (instVarAtPut arguments w) := by
  unfold instVarAtPut
  split
  · rename_i o _
    extract_lets w₁
    have hw₁ : w₁.premises = w.premises :=
      w.setHeap_premises (w.heap.updateLayout_shell w.classes o)
    split
    · rename_i h
      exact ⟨Job.fail_isErrand (place_fault h), hw₁⟩
    · rename_i v _ i _
      have hfield := w₁.setHeap_premises (w₁.heap.writeField_shell w₁.classes o i v)
      generalize w₁.heap.writeField w₁.classes o i v = r at hfield ⊢
      obtain ⟨_ | _, heap⟩ := r
      · exact ⟨rfl, hfield.trans hw₁⟩
      · exact ⟨rfl, hfield.trans hw₁⟩
  · exact .same rfl

theorem new_rests (v : Value) (w : World) : w.Rests Job.isErrand (new v w) := by
  unfold new
  split
  · dsimp only
    split <;> exact ⟨rfl, rfl⟩
  · exact .same rfl

theorem className_isErrand (v : Value) (w : World) : (className v w).isErrand := by
  unfold className
  split <;> rfl

theorem superclass_isErrand (v : Value) (w : World) : (superclass v w).isErrand := by
  unfold superclass
  split <;> rfl

theorem global_isErrand (arguments : List Value) (w : World) :
    (global arguments w).isErrand := by
  rw [global]
  cases h : nameArgument arguments 1 "global:" with
  | error f => exact Job.fail_isErrand (nameArgument_fault h)
  | ok s => rfl

theorem globalPut_rests (arguments : List Value) (w : World) :
    w.Rests Job.isErrand (globalPut arguments w) := by
  rw [globalPut]
  split
  · rename_i h
    exact .same (Job.fail_isErrand (nameArgument_fault h))
  · exact ⟨rfl, rfl⟩

theorem hasGlobal_isErrand (arguments : List Value) (w : World) :
    (hasGlobal arguments w).isErrand := by
  rw [hasGlobal]
  cases h : nameArgument arguments 1 "hasGlobal:" with
  | error f => exact Job.fail_isErrand (nameArgument_fault h)
  | ok s => rfl

theorem refuse_isErrand (v : Value) (w : World) : (refuse v w).isErrand := by
  rw [refuse]
  split <;> rfl

end Objects

namespace Numbers

@[simp] theorem notePromotion_premises (op : Arith) (a b : Value) (w : World) :
    (notePromotion op a b w).premises = w.premises := by
  unfold notePromotion
  split
  · split
    · split
      · exact w.note_premises _
      · rfl
    · rfl
  · rfl

theorem notePromotion_stage (op : Arith) (a b : Value) (w : World) :
    (notePromotion op a b w).stage = w.stage :=
  congrArg Premises.stage (notePromotion_premises op a b w)

theorem arith_rests (op : Arith) (s : Selector) (a b : Value) (w : World) :
    w.Rests Job.isErrand (arith op s a b w) := by
  rw [arith]
  split
  · exact ⟨rfl, notePromotion_premises _ _ _ _⟩
  · exact .same rfl
  · split <;> exact .same rfl

theorem quotient_isErrand (a b : Value) : (quotient a b).isErrand := by
  rw [quotient]
  split <;> rfl

theorem compare_isErrand (c : Comparison) (a b : Value) : (compare c a b).isErrand := by
  unfold compare
  split
  · rfl
  · split <;> rfl

theorem negated_rests (v : Value) (w : World) : w.Rests Job.isErrand (negated v w) := by
  unfold negated
  split
  · exact .same rfl
  · exact arith_rests _ _ _ _ _

theorem asDouble_isErrand (v : Value) : (asDouble v).isErrand := by
  rw [asDouble]
  split <;> rfl

theorem toDo_isErrand (arguments : List Value) : (toDo arguments).isErrand := by
  rw [toDo]
  cases h₀ : smallInteger arguments 0 "to:do:" with
  | error f => exact Job.fail_isErrand (smallInteger_fault h₀)
  | ok start =>
    cases h₁ : smallInteger arguments 1 "to:do:" with
    | error f => exact Job.fail_isErrand (smallInteger_fault h₁)
    | ok limit =>
      cases h₂ : blockArgument arguments 2 "to:do:" with
      | error f => exact Job.fail_isErrand (blockArgument_fault h₂)
      | ok body => rfl

theorem timesRepeat_isErrand (arguments : List Value) : (timesRepeat arguments).isErrand := by
  rw [timesRepeat]
  cases h₀ : smallInteger arguments 0 "timesRepeat:" with
  | error f => exact Job.fail_isErrand (smallInteger_fault h₀)
  | ok count =>
    cases h₁ : blockArgument arguments 1 "timesRepeat:" with
    | error f => exact Job.fail_isErrand (blockArgument_fault h₁)
    | ok body => rfl

end Numbers

namespace Collections

theorem concat_rests (a b : Value) (w : World) : w.Rests Job.isErrand (concat a b w) := by
  rw [concat]
  split <;> exact ⟨rfl, rfl⟩

theorem length_isErrand (v : Value) (w : World) : (length v w).isErrand := by
  unfold length
  split
  · rfl
  · split <;> rfl

theorem asSymbol_isErrand (v : Value) : (asSymbol v).isErrand := by
  rw [asSymbol]
  split <;> rfl

theorem element_isErrand (arguments : List Value) (w : World) :
    (element arguments w).isErrand := by
  rw [element]
  split
  · dsimp only
    split
    · rfl
    · rename_i h
      exact Job.fail_isErrand (place_fault h)
  · rfl

theorem setElement_rests (arguments : List Value) (w : World) :
    w.Rests Job.isErrand (setElement arguments w) := by
  rw [setElement]
  split
  · split
    · exact ⟨rfl, rfl⟩
    · rename_i h
      exact .same (Job.fail_isErrand (place_fault h))
  · exact .same rfl

theorem newArray_rests (arguments : List Value) (w : World) :
    w.Rests Job.isErrand (newArray arguments w) := by
  rw [newArray]
  split
  · rename_i h
    exact .same (Job.fail_isErrand (smallInteger_fault h))
  · split <;> exact ⟨rfl, rfl⟩

end Collections

namespace Blocks

theorem valueOf_isErrand (v : Value) : (valueOf v).isErrand := by
  unfold valueOf
  split <;> rfl

theorem withTruth_isErrand (v : Value) {go : Bool → Job} (h : ∀ b, (go b).isErrand) :
    (withTruth v go).isErrand := by
  unfold withTruth
  split
  · exact h _
  · rfl

theorem value_isErrand (arguments : List Value) : (value arguments).isErrand := by
  rw [value]
  split <;> rfl

theorem parameterCount_isErrand (v : Value) (w : World) : (parameterCount v w).isErrand := by
  unfold parameterCount
  split <;> rfl

end Blocks

/-- No primitive goes on with an activation, finds a defect, calls anything by itself or touches
    the stage. -/
theorem Builtin.apply_rests (b : Builtin) (arguments : List Value) (w : World) :
    w.Rests Job.isErrand (b.apply arguments w) := by
  cases b with
  | identical | equal | notEqual | classOf | isNil | notNil | yourself | hashcode | ticks
  | sameText | asString | restart | replay => exact .same rfl
  | printNewline => exact ⟨rfl, w.write_premises _⟩
  | collect => exact ⟨rfl, rfl⟩
  | printString => exact textAnswer_rests _ _
  | println | print => exact Objects.printing_rests _ _ _ _
  | perform => exact .same (Performing.job_isErrand (fun _ => Performing.listed_fault) _)
  | performWithArguments =>
    exact .same (Performing.job_isErrand (fun _ => Performing.spread_fault) _)
  | respondsTo => exact .same (Objects.respondsTo_isErrand _ _)
  | instVarAt => exact Objects.instVarAt_rests arguments w
  | instVarAtPut => exact Objects.instVarAtPut_rests arguments w
  | new => exact Objects.new_rests _ _
  | className => exact .same (Objects.className_isErrand _ _)
  | superclass => exact .same (Objects.superclass_isErrand _ _)
  | «global» => exact .same (Objects.global_isErrand _ _)
  | globalPut => exact Objects.globalPut_rests _ _
  | hasGlobal => exact .same (Objects.hasGlobal_isErrand _ _)
  | arith op => exact Numbers.arith_rests _ _ _ _ _
  | quotient => exact .same (Numbers.quotient_isErrand _ _)
  | compare c => exact .same (Numbers.compare_isErrand _ _ _)
  | negated => exact Numbers.negated_rests _ _
  | asDouble => exact .same (Numbers.asDouble_isErrand _)
  | toDo => exact .same (Numbers.toDo_isErrand _)
  | timesRepeat => exact .same (Numbers.timesRepeat_isErrand _)
  | concat => exact Collections.concat_rests _ _ _
  | length => exact .same (Collections.length_isErrand _ _)
  | asSymbol => exact .same (Collections.asSymbol_isErrand _)
  | at_ => exact .same (Collections.element_isErrand _ _)
  | atPut => exact Collections.setElement_rests _ _
  | newArray => exact Collections.newArray_rests _ _
  | not => exact .same (Blocks.withTruth_isErrand _ fun _ => rfl)
  | and | or => exact .same (Blocks.withTruth_isErrand _ fun b => by cases b <;> rfl)
  | andThen | ifTrue =>
    refine .same (Blocks.withTruth_isErrand _ fun b => ?_)
    cases b with
    | false => rfl
    | true => exact Blocks.valueOf_isErrand _
  | orElse | ifFalse =>
    refine .same (Blocks.withTruth_isErrand _ fun b => ?_)
    cases b with
    | false => exact Blocks.valueOf_isErrand _
    | true => rfl
  | ifTrueIfFalse | ifFalseIfTrue =>
    exact .same (Blocks.withTruth_isErrand _ fun _ => Blocks.valueOf_isErrand _)
  | blockValue => exact .same (Blocks.value_isErrand _)
  | numArgs => exact .same (Blocks.parameterCount_isErrand _ _)
  | refuse => exact .same (Objects.refuse_isErrand _ _)

theorem Builtin.apply_isOutward (b : Builtin) (arguments : List Value) (w : World) :
    (b.apply arguments w).1.isOutward :=
  Job.outward (Job.outer (Job.plain (b.apply_rests arguments w).job))

theorem Shortcut.apply?_rests {op : Shortcut} {arguments : List Value} {w : World}
    {done : Job × World} (h : op.apply? arguments w = some done) :
    w.Rests Job.isErrand done := by
  rw [← op.mirrors h]
  exact Builtin.apply_rests _ _ _

/-! ### Jobs of dispatch chains -/

theorem Target.job_isPlain (t : Target) (s : Selector) (arguments : List Value) :
    (t.job s arguments).isPlain := by
  cases t <;> rfl

namespace Chain

theorem cached?_isPlain {s : Selector} {entries : List Entry} {arguments : List Value}
    {w : World} {job : Job} (h : cached? s entries arguments w = some job) : job.isPlain := by
  obtain ⟨t, -, rfl⟩ := Option.map_eq_some_iff.1 h
  exact t.job_isPlain s arguments

@[simp] theorem newEntry_premises (s : Selector) (receiver : Value) (w : World) :
    (newEntry s receiver w).2.premises = w.premises := by
  unfold newEntry
  dsimp only
  split
  · rfl
  · exact w.note_premises _

theorem specialize_rests (s : Selector) (entries : List Entry) (arguments : List Value)
    (w : World) : w.Rests Job.isPlain
      ((specialize s entries arguments w).1, (specialize s entries arguments w).2.2) := by
  unfold specialize
  extract_lets w₁ receiver w₂
  split
  · exact ⟨Target.job_isPlain _ _ _, rfl⟩
  · exact ⟨Target.job_isPlain _ _ _, (World.note_premises _ _).trans (newEntry_premises _ _ _)⟩
  · exact ⟨rfl, World.note_premises _ _⟩
  · exact ⟨Target.job_isPlain _ _ _, (World.note_premises _ _).trans (newEntry_premises _ _ _)⟩

theorem dispatch_rests (c : Chain) (arguments : List Value) (w : World) :
    w.Rests Job.isPlain ((c.dispatch arguments w).1, (c.dispatch arguments w).2.2) := by
  unfold dispatch
  split
  · exact ⟨rfl, rfl⟩
  · split
    · rename_i h
      exact ⟨cached?_isPlain h, rfl⟩
    · split
      · exact specialize_rests _ _ _ _
      · dsimp only
        split
        · rename_i h
          exact ⟨cached?_isPlain h, w.migrate_premises _⟩
        · exact (specialize_rests _ _ _ _).after (w.migrate_premises _)

end Chain

/-! ### Jobs of call sites -/

theorem throughChain_stays (l : Location) (c : Chain) (arguments : List Value) (w : World) :
    w.Stays Job.isOuter (throughChain l c arguments w) :=
  let h := c.dispatch_rests arguments w
  ⟨Job.outer h.job, h.stage⟩

theorem missShortcut_stays (l : Location) (op : Shortcut) (s : Selector) (arguments : List Value)
    (w : World) : w.Stays Job.isOuter (missShortcut l op s arguments w) := by
  unfold missShortcut
  exact (throughChain_stays _ _ _ _).after (World.note_stage _ _)

theorem throughSite_stays (l : Location) (site : Site) (s : Selector)
    (arguments : List Value) (w : World) :
    w.Stays Job.isOuter (throughSite l site s arguments w) := by
  unfold throughSite
  split
  · exact throughChain_stays _ _ _ _
  · split
    · split
      · rename_i h
        exact (Shortcut.apply?_rests h).plain.stays
      · exact missShortcut_stays _ _ _ _ _
    · exact missShortcut_stays _ _ _ _ _
  · exact .same rfl

theorem sendFrom_stays (l : Location) (s : Selector) (arguments : List Value) (w : World) :
    w.Stays Job.isOuter (sendFrom l s arguments w) := by
  rw [sendFrom]
  split
  · exact throughSite_stays _ _ _ _ _
  · exact (throughSite_stays _ _ _ _ _).after (World.note_stage _ _)

theorem sendFrom_isOutward (l : Location) (s : Selector) (arguments : List Value) (w : World) :
    (sendFrom l s arguments w).1.isOutward :=
  Job.outward (sendFrom_stays l s arguments w).job

theorem superJob_isOuter (target : Option Invokable) (s : Selector) (arguments : List Value) :
    (superJob target s arguments).isOuter := by
  cases target <;> rfl

theorem superJob_isOutward (target : Option Invokable) (s : Selector) (arguments : List Value) :
    (superJob target s arguments).isOutward :=
  Job.outward (superJob_isOuter target s arguments)

theorem bindSuper_stays (l : Location) (code : Code) (s : Selector) (arguments : List Value)
    (inProgress : List Node) (w : World) :
    w.Stays Job.isOuter (bindSuper l code s arguments inProgress w) := by
  rw [bindSuper]
  split
  · exact .same rfl
  · exact ⟨superJob_isOuter _ _ _, World.note_stage _ _⟩

theorem bindSuper_isOutward (l : Location) (code : Code) (s : Selector) (arguments : List Value)
    (inProgress : List Node) (w : World) :
    (bindSuper l code s arguments inProgress w).1.isOutward :=
  Job.outward (bindSuper_stays l code s arguments inProgress w).job

theorem readCell_isOuter (cell : CellRef) (receiver : Value) (w : World) :
    (readCell cell receiver w).isOuter := by
  rw [readCell]
  split <;> rfl

theorem readGlobal_stays (l : Location) (name : String) (receiver : Value) (w : World) :
    w.Stays Job.isOuter (readGlobal l (some (.global name)) receiver w) := by
  rw [readGlobal]
  split
  · exact .same (readCell_isOuter _ _ _)
  · exact .same rfl
  · exact ⟨readCell_isOuter _ _ _, World.note_stage _ _⟩

theorem readGlobal_isOutward (l : Location) (name : String) (receiver : Value) (w : World) :
    (readGlobal l (some (.global name)) receiver w).1.isOutward :=
  Job.outward (readGlobal_stays l name receiver w).job

theorem readGlobal_ne_execute (l : Location) (literal : Option (Literal Code)) (receiver : Value)
    (w : World) (a : Activation) : (readGlobal l literal receiver w).1 ≠ .execute a := by
  unfold readGlobal
  split
  · exact Job.ne_execute (Job.outward (readCell_isOuter _ _ _)) a
  · rintro ⟨⟩
  · split
    · exact Job.ne_execute (Job.outward (readCell_isOuter _ _ _)) a
    · rintro ⟨⟩

/-! ### Jobs of handlers -/

namespace Handler

theorem handlerArguments_premises (c : Condition) (w : World) :
    (c.handlerArguments w).2.premises = w.premises := by
  cases c <;> rfl

theorem standardJob_rests (receiver : Value) (c : Condition) (w : World) :
    w.Rests Job.isPlain (standardJob receiver c w) := by
  rw [standardJob]
  split
  · exact ⟨rfl, handlerArguments_premises c w⟩
  · refine .same ?_
    cases c <;> rfl

@[simp] theorem writeAll_premises (writes : List (String × Recipe)) (w : World) :
    (writeAll writes w).premises = w.premises := by
  induction writes generalizing w with
  | nil => rfl
  | cons write rest ih =>
    obtain ⟨name, r⟩ := write
    have hmake := r.make_premises .empty w
    rw [writeAll]
    split
    · rename_i hr
      rw [hr] at hmake
      exact (ih _).trans hmake
    · rename_i hr
      rw [hr] at hmake
      exact (ih _).trans hmake

/-- A reaction leaves the stage as it is, and asks for nothing that executing instructions comes
    to. It adds to what is pending only what waits for a message or a block of its own. -/
structure Reacts (w : World) (k : List Pending) (r : Job × World × List Pending) : Prop where
  job : r.1.isPlain
  premises : r.2.1.premises = w.premises
  pending : r.2.2 = k ∨ r.2.2 = .sent :: k ∨ r.2.2 = .called :: k

theorem Reacts.stage {w : World} {k : List Pending} {r : Job × World × List Pending}
    (h : Reacts w k r) : r.2.1.stage = w.stage :=
  congrArg Premises.stage h.premises

theorem react_reacts (r : Reaction) (receiver : Value) (c : Condition) (w : World)
    (k : List Pending) : Reacts w k (react r receiver c w k) := by
  cases r with
  | restart => exact ⟨rfl, rfl, .inl rfl⟩
  | fail text => exact ⟨rfl, rfl, .inl rfl⟩
  | standard =>
    have h := standardJob_rests receiver c w
    exact ⟨h.job, h.premises, .inl rfl⟩
  | call block arguments =>
    have hblock := block.make_premises .empty w
    simp only [react]
    generalize block.make .empty w = r at hblock ⊢
    obtain ⟨e | v, w₁⟩ := r
    · exact ⟨rfl, hblock, .inl rfl⟩
    · have hall := Recipe.makeAll_premises .empty arguments w₁
      dsimp only
      generalize Recipe.makeAll .empty arguments w₁ = r at hall ⊢
      obtain ⟨e | vs, w₂⟩ := r
      · exact ⟨rfl, hall.trans hblock, .inl rfl⟩
      · cases v with
        | block b => exact ⟨rfl, hall.trans hblock, .inr (.inr rfl)⟩
        | _ => exact ⟨rfl, hall.trans hblock, .inl rfl⟩
  | send selector arguments other =>
    have hall := Recipe.makeAll_premises .empty arguments w
    simp only [react]
    generalize Recipe.makeAll .empty arguments w = r at hall ⊢
    obtain ⟨e | vs, w₁⟩ := r
    · exact ⟨rfl, hall, .inl rfl⟩
    · cases other with
      | none => exact ⟨rfl, hall, .inr (.inl rfl)⟩
      | some other =>
        have hother := other.make_premises .empty w₁
        dsimp only
        generalize other.make .empty w₁ = r at hother ⊢
        obtain ⟨e | v, w₂⟩ := r
        · exact ⟨rfl, hother.trans hall, .inl rfl⟩
        · exact ⟨rfl, hother.trans hall, .inr (.inl rfl)⟩
  | answer r =>
    have hmake := r.make_premises .empty w
    simp only [react]
    generalize r.make .empty w = r at hmake ⊢
    obtain ⟨e | v, w₁⟩ := r
    · exact ⟨rfl, hmake, .inl rfl⟩
    · exact ⟨rfl, hmake, .inl rfl⟩

theorem job_reacts (receiver : Value) (c : Condition) (w : World) (k : List Pending) :
    Reacts w k (job receiver c w k) := by
  unfold job
  split
  · have h := standardJob_rests receiver c w
    exact ⟨h.job, h.premises, .inl rfl⟩
  · rename_i replies hh
    split
    · extract_lets report w₁
      have hw₁ : w₁.premises = w.premises := rfl
      split
      · exact ⟨rfl, hw₁, .inl rfl⟩
      · rename_i reply rest
        -- What is left of the script is a script.
        have hscript : World.premises { w₁ with handler := .scripted rest } = w₁.premises := by
          simp only [World.premises, World.stage, w₁, hh, isStandard]
        have h := react_reacts reply.reaction receiver c
          (writeAll reply.writes { w₁ with handler := .scripted rest }) k
        exact ⟨h.job, h.premises.trans ((writeAll_premises _ _).trans (hscript.trans hw₁)),
          h.pending⟩
    · exact ⟨rfl, rfl, .inl rfl⟩

theorem job_isOutward (receiver : Value) (c : Condition) (w : World) (k : List Pending) :
    (job receiver c w k).1.isOutward :=
  Job.outward (Job.outer (job_reacts receiver c w k).job)

theorem job_pending (receiver : Value) (c : Condition) (w : World) (k : List Pending) :
    (job receiver c w k).2.2 = k ∨ (job receiver c w k).2.2 = .sent :: k ∨
      (job receiver c w k).2.2 = .called :: k :=
  (job_reacts receiver c w k).pending

/-- The standard handler waits for nothing of its own. -/
theorem job_pending_standard (receiver : Value) (c : Condition) {w : World} (k : List Pending)
    (h : w.handler.isStandard) : (job receiver c w k).2.2 = k := by
  rw [job]
  split
  · rfl
  · rename_i hs
    rw [hs] at h
    cases h

end Handler

end Parley
