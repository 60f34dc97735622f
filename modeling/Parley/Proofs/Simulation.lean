import Parley.Proofs.Caches
import Parley.Proofs.Plainly

/-!
# A machine that remembers nothing

The *reference machine* looks up every message, and what it leaves is a plain world
(`Machine.reference`). A machine does nothing else, only in fewer steps: from the plain form of a
machine, the reference machine comes to the plain form of what the machine makes of it in one step
(`Machine.Sound.comes`). It takes one step for that itself, unless a message is sent: then it may
take one to look the message up and one more to call a primitive where the machine takes a
shortcut.

Two things that a machine does show what it remembers, and are left out. It may read a field by its
number from an instance that has not caught up with its class (`Machine.Lags`), and it may find
that the class of a method that sends to super is gone (`Machine.Orphaned`), since what call sites
remember keeps classes.
-/

namespace Parley

variable {s : Stock} {w w' : World} {selector : Selector} {arguments : List Value}

/-! ### Messages -/

namespace Activation

/-- The message that an activation is about to send, and whether to super, if there is enough on
    its stack for that. -/
def sends? (a : Activation) : Option (Bool × Selector) :=
  (a.code.sends? a.ip).filter fun m => m.2.arity < a.stack.length

/-- An activation that has sent a message and waits. -/
def waiting (a : Activation) (toSuper : Bool) (selector : Selector) : Activation :=
  { a with
    ip := a.ip + (Opcode.send toSuper).size
    stack := a.stack.drop (selector.arity + 1) }

variable {a : Activation} {toSuper : Bool}

theorem sends?_eq_some (h : a.sends? = some (toSuper, selector)) :
    a.code.sends? a.ip = some (toSuper, selector) ∧ selector.arity < a.stack.length := by
  obtain ⟨hsend, harity⟩ := Option.filter_eq_some_iff.1 h
  exact ⟨hsend, of_decide_eq_true harity⟩

end Activation

/-! ### Sending changes nothing that a program can see -/

theorem Chain.plain_newEntry (selector : Selector) (v : Value) (w : World) :
    (newEntry selector v w).2.plain = w.plain := by
  rw [newEntry]
  split
  · rfl
  · exact w.plain_note _

theorem Chain.plain_specialize (selector : Selector) (entries : List Entry)
    (arguments : List Value) (w : World) :
    (specialize selector entries arguments w).2.2.plain = w.plain := by
  rw [specialize]
  dsimp only
  split
  · rfl
  · rw [World.plain_note, plain_newEntry, World.plain_count]
  · rw [uncached, World.plain_count, World.plain_note, World.plain_count]
  · rw [World.plain_note, plain_newEntry, World.plain_count]

/-- A dispatch chain may bring the receiver up to date, and nothing more. -/
theorem Chain.plain_dispatch (c : Chain) (arguments : List Value) (w : World) :
    (c.dispatch arguments w).2.2.plain = w.plain := by
  rw [dispatch]
  split
  · rw [uncached, World.plain_count]
  · split
    · rw [countHit, World.plain_count]
    · split
      · exact plain_specialize _ _ _ w
      · dsimp only
        split
        -- The receiver is brought up to date before the second look.
        · rw [countHit, World.plain_count, World.plain_migrate]
        · rw [plain_specialize, World.plain_migrate]

theorem plain_throughChain (l : Location) (c : Chain) (arguments : List Value) (w : World) :
    (throughChain l c arguments w).2.plain = w.plain := by
  rw [throughChain]
  exact (World.plain_specialize _ _ _).trans (c.plain_dispatch arguments w)

theorem plain_missShortcut (l : Location) (op : Shortcut) (selector : Selector)
    (arguments : List Value) (w : World) :
    (missShortcut l op selector arguments w).2.plain = w.plain := by
  rw [missShortcut]
  rw [plain_throughChain, World.plain_note, World.plain_count]

theorem Shortcut.plain_apply? {op : Shortcut} {r : Job × World}
    (hr : op.apply? arguments w = some r) : r.2.plain = w.plain := by
  rcases op.apply?_world hr with hw | ⟨op, a, b, hw⟩
  · rw [hw]
  · rw [hw]
    exact Numbers.plain_notePromotion op a b w

theorem plain_throughSite (l : Location) (site : Site) (selector : Selector)
    (arguments : List Value) (w : World) :
    (throughSite l site selector arguments w).2.plain = w.plain := by
  cases site with
  | chain c => exact plain_throughChain l c arguments w
  | eager op cls epoch arity =>
    rw [throughSite]
    split
    · split
      · rename_i done hdone
        exact op.plain_apply? hdone
      · exact plain_missShortcut l op selector arguments w
    · exact plain_missShortcut l op selector arguments w
  | global cell => rfl
  | super target epoch => rfl

theorem plain_sendFrom (l : Location) (selector : Selector) (arguments : List Value) (w : World) :
    (sendFrom l selector arguments w).2.plain = w.plain := by
  rw [sendFrom]
  split
  · exact plain_throughSite l _ selector arguments w
  · dsimp only
    rw [plain_throughSite, World.plain_specialize, World.plain_noteQuickened]

theorem plain_bindSuper (l : Location) (code : Code) (selector : Selector)
    (arguments : List Value) (inProgress : List Node) (w : World) :
    (bindSuper l code selector arguments inProgress w).2.plain = w.plain := by
  rw [bindSuper]
  split
  · rfl
  · dsimp only
    rw [World.plain_specialize, World.plain_noteQuickened]

namespace Machine

variable {a : Activation} {k : List Pending} {toSuper : Bool}

/-- An activation that has sent a message waits, and nothing else is seen of it yet. -/
theorem step_of_sends (h : a.sends? = some (toSuper, selector)) (w : World) (k : List Pending) :
    (step ⟨w, .execute a, k⟩).pending = .sender (a.waiting toSuper selector) :: k ∧
      (step ⟨w, .execute a, k⟩).world.plain = w.plain := by
  obtain ⟨hsend, harity⟩ := a.sends?_eq_some h
  obtain ⟨hop, hl⟩ := sends?_eq_some hsend
  rw [step_execute hop, instruction, sendInstruction, hl]
  dsimp only
  rw [if_neg (by omega)]
  cases toSuper with
  | false => exact ⟨rfl, (plain_sendFrom _ _ _ _).trans (w.plain_count _)⟩
  | true =>
    rw [if_pos rfl]
    split
    · exact ⟨rfl, w.plain_count _⟩
    · exact ⟨rfl, (plain_bindSuper _ _ _ _ _ _).trans (w.plain_count _)⟩

end Machine

/-! ### The reference machine -/

/-- A machine in a plain world. -/
def Machine.plain (m : Machine) : Machine :=
  { m with world := m.world.plain }

namespace Machine

variable {a : Activation} {toSuper : Bool}

/-- The machine that looks up every message and remembers nothing of it. -/
def reference (m : Machine) : Machine :=
  match m with
  | ⟨w, .execute a, k⟩ =>
    match a.sends? with
    | some (false, selector) =>
      ⟨w.plain, .send selector (a.message selector), .sender (a.waiting false selector) :: k⟩
    | some (true, selector) =>
      let job := match a.code.holder with
        | some holder => superJob (w.lookupAbove holder selector) selector (a.message selector)
        | none => .fail (.superOutsideClass selector)
      ⟨w.plain, job, .sender (a.waiting true selector) :: k⟩
    | none => (step ⟨w, .execute a, k⟩).plain
  | m => m.step.plain

/-- A machine that is about to look up a message, or to call what a lookup found. -/
def Calls (m : Machine) : Prop :=
  (∃ selector arguments, m.job = .send selector arguments) ∨
    ∃ i arguments, m.job = .invoke i arguments

/-- What the reference machine comes to by one step, and by more as long as it only looks up a
    message or calls what was found. -/
inductive Comes : Machine → Machine → Prop
  | single (m : Machine) : Comes m m.reference
  | further {m m' : Machine} : m.reference.Calls → Comes m.reference m' → Comes m m'

/-- A machine that is about to read a field by its number, of an instance that is behind its class
    and has no such field yet. -/
def Lags (m : Machine) : Prop :=
  ∃ p arguments, m.job = .invoke (.primitive p) arguments ∧ p.builtin = .instVarAt ∧
    m.world.Lags arguments

/-- A machine that is about to send a message to super, and is to find that the class of the method
    is gone. -/
def Orphaned (m : Machine) : Prop :=
  ∃ a selector, m.job = .execute a ∧ a.sends? = some (true, selector) ∧
    a.code.holder.isSome ∧ m.step.job = .fail (.superOutsideClass selector)

/-! ### Steps that send nothing -/

theorem after_plain (k : List Pending) {r r' : Job × World} (h : plainly r = plainly r') :
    (after k r).plain = (after k r').plain :=
  congrArg (after k) h

theorem sendInstruction_plain (hop : a.code.program.tape.opcode? a.ip = some (.send toSuper))
    (hnone : a.sends? = none) (next : Nat) (w : World) (k : List Pending) :
    (sendInstruction a toSuper (a.code.program.tape.byteAt (a.ip + 1)) next w.plain k).plain =
      (sendInstruction a toSuper (a.code.program.tape.byteAt (a.ip + 1)) next w k).plain := by
  unfold sendInstruction
  split
  · rename_i selector hl
    have hsend : a.code.sends? a.ip = some (toSuper, selector) := by
      rw [Code.sends?, hop]
      simp only [hl]
    -- There is a message, so it must be the stack that is too short for it.
    have harity : a.stack.length < selector.arity + 1 := by
      rw [Activation.sends?, hsend, Option.filter_eq_none_iff] at hnone
      exact Nat.lt_succ_of_le (by simpa using hnone)
    dsimp only
    rw [if_pos harity, if_pos harity]
    exact after_plain k (a.failing_plain _ w)
  · exact after_plain k (a.failing_plain _ w)

theorem instruction_plain (h : w.Sound s) (hcode : .block a.code ∈ s.written) {op : Opcode}
    (hop : a.code.program.tape.opcode? a.ip = some op) (hnone : a.sends? = none)
    (k : List Pending) : (instruction a op w.plain k).plain = (instruction a op w k).plain := by
  unfold instruction
  dsimp only
  cases op with
  | halt => exact after_plain k (a.finish_plain _ w)
  | dup => exact after_plain k (a.withTop_plain w fun _ _ => a.goOn_plain _ _ w)
  | dupSecond =>
    dsimp only
    split
    · exact after_plain k (a.goOn_plain _ _ w)
    · exact after_plain k (a.failing_plain _ w)
  | push place => exact after_plain k (a.pushVariable_plain h _ _ _ _)
  | pushBlock withContext => exact after_plain k (a.pushClosure_plain _ _ _ w)
  | pushConstant =>
    dsimp only
    split
    · exact after_plain k (a.goOn_plain _ _ w)
    · exact after_plain k (a.goOn_plain _ _ w)
    · exact after_plain k (a.failing_plain _ w)
  | pushGlobal => exact after_plain _ (readGlobal_plain h hcode hop _)
  | pushSelf => exact after_plain k (a.goOn_plain _ _ w)
  | pushNil => exact after_plain k (a.goOn_plain _ _ w)
  | pushZero => exact after_plain k (a.goOn_plain _ _ w)
  | pushOne => exact after_plain k (a.goOn_plain _ _ w)
  | drop => exact after_plain k (a.withTop_plain w fun _ _ => a.goOn_plain _ _ w)
  | pop place =>
    exact after_plain k (a.withTop_plain w fun v rest => a.popVariable_plain h _ _ _ _ v rest)
  | send toSuper => exact sendInstruction_plain hop hnone _ w k
  | returnLocal => exact after_plain k (a.withTop_plain w fun v _ => a.finish_plain v w)
  | returnNonLocal =>
    exact after_plain k (a.withTop_plain w fun v _ => a.returnNonLocal_plain _ v w)
  | returnSelf => exact after_plain k (a.finish_plain _ w)
  | step up => exact after_plain k (a.withTop_plain w fun v rest => a.step_plain up v rest _ w)
  | jump j wide => exact after_plain k (a.jump_plain j wide _ w)
  | quickened q => exact after_plain k (a.failing_plain _ w)

theorem execute_plain (h : w.Sound s) (ha : a.Sound s) (hnone : a.sends? = none)
    (k : List Pending) : (execute a w.plain k).plain = (execute a w k).plain := by
  unfold execute
  split
  · exact after_plain k (a.failing_plain _ w)
  · rename_i byte hbyte
    split
    · exact after_plain k (a.failing_plain _ w)
    · rename_i op hop
      -- A code with an instruction is not the empty one.
      have hcode : .block a.code ∈ s.written := by
        refine ha.code.resolve_left fun hd => ?_
        rw [hd] at hbyte
        cases hbyte
      exact instruction_plain h hcode (by rw [Tape.opcode?, hbyte]; exact hop) hnone k

theorem resume_plain (top : Pending) (v : Value) (w : World) (k : List Pending) :
    (resume top v w.plain k).plain = (resume top v w k).plain := by
  have hw := w.plain_plain
  cases top <;> simp only [resume, plain, hw]

theorem fault_plain (u : Unwind) (w : World) : u.fault w.plain = u.fault w := by
  cases u <;> rfl

theorem text?_plain (u : Unwind) (w : World) : u.text? w.plain = u.text? w := by
  cases u <;> simp only [Unwind.text?, World.debug?_plain]

theorem settle_plain (a : Activation) (u : Unwind) (w : World) (k : List Pending) :
    (settle a u w.plain k).plain = (settle a u w k).plain := by
  cases u with
  | restart =>
    simp only [settle, plain, World.plain_note, World.plain_count, World.plain_plain]
  -- The receiver that is named in the report is the same.
  | escaped block v =>
    simp only [settle, plain, World.plain_count, World.plain_plain]
    rfl
  | nonLocal activation v => exact after_plain k (a.abandon_plain _ w)
  | failed f => exact after_plain k (a.abandon_plain _ w)

theorem unwindInto_plain (top : Pending) (u : Unwind) (w : World) (k : List Pending) :
    (unwindInto top u w.plain k).plain = (unwindInto top u w k).plain := by
  have hw := w.plain_plain
  cases top with
  | sender a => exact settle_plain a u w k
  | reporter a => exact after_plain k (a.abandon_plain u w)
  | counting next limit body result => simp only [unwindInto, plain, hw]
  | cycling left body result => simp only [unwindInto, plain, hw]
  | sent => simp only [unwindInto, plain, hw, fault_plain]
  | called =>
    rw [unwindInto, unwindInto, text?_plain]
    split
    · rename_i text _
      let f (w : World) : World := { w with reports := .unwound text :: w.reports }
      have hf : ∀ w, (f w).plain = f w.plain := fun _ => rfl
      show (Machine.mk (f w.plain).plain _ _) = Machine.mk (f w).plain _ _
      rw [hf, hf, hw]
    · simp only [plain, hw]

theorem invoke_plain (h : w.Sound s) (i : Invokable)
    (hlags : ∀ p, i = .primitive p → p.builtin = .instVarAt → ¬ w.Lags arguments) :
    plainly (invoke i arguments w.plain) = plainly (invoke i arguments w) := by
  cases i with
  | method c =>
    rw [invoke, invoke]
    split
    · exact w.enter_plain c arguments none
    · exact Prod.ext rfl w.plain_plain
  | primitive p =>
    rw [invoke, invoke]
    split
    · rw [p.builtin.apply_plain h (hlags p rfl)]
      exact Prod.ext rfl (World.plain_plain _)
    · exact Prod.ext rfl w.plain_plain

theorem evaluate_plain (b : BlockRef) (arguments : List Value) (w : World) :
    plainly (evaluate b arguments w.plain) = plainly (evaluate b arguments w) := by
  have hclosure : w.plain.heap.closure b = w.heap.closure b := rfl
  rw [evaluate, evaluate, hclosure]
  split
  · exact w.enter_plain _ _ _
  · exact Prod.ext rfl w.plain_plain

theorem plain_noteCondition (c : Condition) (w : World) : (noteCondition c w).plain = w.plain := by
  cases c with
  | notUnderstood selector arguments =>
    rw [noteCondition, World.plain_note, World.plain_count]
  | _ => rfl

theorem report_plain (receiver : Value) (c : Condition) (w : World) (k : List Pending) :
    (step ⟨w.plain, .report receiver c, k⟩).plain = (step ⟨w, .report receiver c, k⟩).plain := by
  have hjob : Handler.plainly (Handler.job receiver c (noteCondition c w.plain) k) =
      Handler.plainly (Handler.job receiver c (noteCondition c w) k) := by
    rw [← Handler.job_plain, ← Handler.job_plain, plain_noteCondition, plain_noteCondition,
      World.plain_plain]
  exact congrArg (fun r : Job × World × List Pending => Machine.mk r.2.1 r.1 r.2.2) hjob

/-- A step that sends no message does the same in a plain world. -/
theorem Sound.step_plain {m : Machine} (hm : m.Sound s) (hlags : ¬ m.Lags)
    (hnone : ∀ a, m.job = .execute a → a.sends? = none) : m.plain.step.plain = m.step.plain := by
  obtain ⟨w, job, k⟩ := m
  have h : w.Sound s := hm.world
  have hw := w.plain_plain
  cases job with
  | execute a => exact execute_plain h hm.job (hnone a rfl) k
  | send selector arguments =>
    show Machine.mk w.plain.plain (send selector arguments w.plain) k = _
    rw [send, World.lookup_plain, hw]
    rfl
  | invoke i arguments =>
    refine after_plain k (invoke_plain h i fun p hp hb hl => ?_)
    exact hlags ⟨p, arguments, by rw [hp], hb, hl⟩
  | evaluate b arguments => exact after_plain k (evaluate_plain b arguments w)
  | count next limit body result =>
    simp only [plain, step]
    split <;> simp only [hw]
  | cycle left body result =>
    cases left <;> simp only [plain, step, hw]
  | report receiver c => exact report_plain receiver c w k
  | answer v =>
    cases k with
    | nil => simp only [plain, step, hw]
    | cons top k => exact resume_plain top v w k
  | unwind u =>
    cases k with
    | nil => simp only [plain, step, hw]
    | cons top k => exact unwindInto_plain top u w k
  | hang => simp only [plain, step, hw]

/-! ### Steps that send a message -/

theorem reference_of_not_execute {m : Machine} (h : ∀ a, m.job ≠ .execute a) :
    m.reference = m.step.plain := by
  obtain ⟨w, job, k⟩ := m
  cases job with
  | execute a => exact absurd rfl (h a)
  | _ => rfl

/-- The reference machine finds what a lookup finds. -/
theorem reference_send (selector : Selector) (arguments : List Value) (w : World)
    (k : List Pending) : reference ⟨w.plain, .send selector arguments, k⟩ =
      ⟨w.plain, send selector arguments w, k⟩ := by
  rw [reference_of_not_execute fun a ha => by cases ha]
  show Machine.mk w.plain.plain (send selector arguments w.plain) k = _
  rw [World.plain_plain, send, World.lookup_plain]
  rfl

/-- The reference machine calls a primitive where a shortcut may be taken, and comes to the same. -/
theorem reference_invoke (h : w.Sound s) (ht : w.classes.Mirrored) {p : Primitive} {op : Shortcut}
    {r : Job × World} (hp : w.lookup (argument arguments 0) selector = some (.primitive p))
    (hop : p.shortcut = some op) (hr : op.apply? arguments w = some r)
    (hlength : arguments.length = selector.arity + 1) (k : List Pending) :
    reference ⟨w.plain, .invoke (.primitive p) arguments, k⟩ = ⟨w.plain, r.1, k⟩ := by
  obtain ⟨hselector, hbuiltin⟩ := ht.lookup hp
  -- The shortcut belongs to the primitive, and leaves nothing that is seen.
  have happly : p.builtin.apply arguments w.plain = (r.1, w.plain) := by
    rw [hbuiltin op hop, op.builtin.apply_plain h, op.mirrors hr, plainly, op.plain_apply? hr]
    intro hb
    cases op <;> cases hb
  have hinvoke : invoke (.primitive p) arguments w.plain = (r.1, w.plain) := by
    rw [invoke, if_pos (by rw [hselector, hlength]), happly]
  rw [reference_of_not_execute fun a ha => by cases ha]
  show (after k (invoke (.primitive p) arguments w.plain)).plain = _
  rw [hinvoke]
  exact congrArg (Machine.mk · r.1 k) w.plain_plain

theorem length_message (h : a.sends? = some (toSuper, selector)) :
    (a.message selector).length = selector.arity + 1 := by
  obtain ⟨-, harity⟩ := a.sends?_eq_some h
  rw [Activation.message, List.length_reverse, List.length_take]
  omega

/-- The reference machine comes to whatever fulfils a message. -/
theorem comes_of_fulfils (h : w.Sound s) (ht : w.classes.Mirrored)
    (hsends : a.sends? = some (false, selector)) {job : Job}
    (hjob : w.Fulfils selector (a.message selector) job) (k : List Pending) :
    Comes (plain ⟨w, .execute a, k⟩) ⟨w.plain, job, .sender (a.waiting false selector) :: k⟩ := by
  -- The reference machine always looks the message up.
  have hfirst : reference (plain ⟨w, .execute a, k⟩) =
      ⟨w.plain, .send selector (a.message selector), .sender (a.waiting false selector) :: k⟩ := by
    simp only [reference, plain, hsends, World.plain_plain]
  have hsecond := reference_send selector (a.message selector) w
    (.sender (a.waiting false selector) :: k)
  cases hjob with
  | lookup =>
    rw [← hfirst]
    exact .single _
  | found =>
    refine .further (by rw [hfirst]; exact .inl ⟨_, _, rfl⟩) ?_
    rw [hfirst, ← hsecond]
    exact .single _
  -- One step more, for the primitive in place of the shortcut.
  | shortcut hp hop happly =>
    obtain ⟨r, hr, rfl⟩ := Option.map_eq_some_iff.1 happly
    rw [send, hp] at hsecond
    refine .further (by rw [hfirst]; exact .inl ⟨_, _, rfl⟩) ?_
    rw [hfirst]
    refine .further (by rw [hsecond]; exact .inr ⟨_, _, rfl⟩) ?_
    rw [hsecond, ← reference_invoke h ht hp hop hr (length_message hsends)]
    exact .single _

/-- The reference machine comes to what fulfils a message to super, unless the class is gone. -/
theorem comes_of_fulfilsSuper (hsends : a.sends? = some (true, selector)) {job : Job}
    (hjob : w.FulfilsSuper a.code selector (a.message selector) job)
    (hgone : a.code.holder.isSome → job ≠ .fail (.superOutsideClass selector))
    (k : List Pending) :
    Comes (plain ⟨w, .execute a, k⟩) ⟨w.plain, job, .sender (a.waiting true selector) :: k⟩ := by
  suffices hfirst : reference (plain ⟨w, .execute a, k⟩) =
      ⟨w.plain, job, .sender (a.waiting true selector) :: k⟩ by
    rw [← hfirst]
    exact .single _
  cases hjob with
  | found hholder =>
    simp only [reference, plain, hsends, World.plain_plain, hholder]
    rfl
  | gone hnone =>
    cases hholder : a.code.holder with
    | none => simp only [reference, plain, hsends, World.plain_plain, hholder]
    | some holder => exact absurd rfl (hgone (by rw [hholder]; rfl))

/-- From the plain form of a machine, the reference machine comes to the plain form of what the
    machine makes of it: whatever call sites remember, and whichever instances have caught up with
    their classes. -/
theorem Sound.comes {m : Machine} (hm : m.Sound s) (ht : m.world.classes.Mirrored)
    (hlags : ¬ m.Lags) (horphaned : ¬ m.Orphaned) : m.plain.Comes m.step.plain := by
  obtain ⟨w, job, k⟩ := m
  have h : w.Sound s := hm.world
  by_cases hexecute : ∃ a, job = .execute a
  case neg =>
    have hne : ∀ a, job ≠ .execute a := fun a ha => hexecute ⟨a, ha⟩
    rw [← hm.step_plain hlags fun a ha => absurd ha (hne a),
      ← reference_of_not_execute (m := plain ⟨w, job, k⟩) hne]
    exact .single _
  obtain ⟨a, rfl⟩ := hexecute
  cases hsends : a.sends? with
  | none =>
    have hreference : reference (plain ⟨w, .execute a, k⟩) =
        (step (plain ⟨w, .execute a, k⟩)).plain := by
      simp only [reference, plain, hsends]
    rw [← hm.step_plain hlags fun b hb => by cases hb; exact hsends, ← hreference]
    exact .single _
  | some message =>
    obtain ⟨toSuper, selector⟩ := message
    obtain ⟨hsend, harity⟩ := a.sends?_eq_some hsends
    obtain ⟨hpending, hworld⟩ := step_of_sends hsends w k
    obtain ⟨index, next, hl, hstep⟩ := step_sends hsend w k
    have ha : a.Sound s := hm.job
    have hcode : .block a.code ∈ s.written := by
      refine ha.code.resolve_left fun hd => ?_
      obtain ⟨hop, -⟩ := sends?_eq_some hsend
      rw [hd] at hop
      cases hop
    have hplain : (step ⟨w, .execute a, k⟩).plain =
        ⟨w.plain, (step ⟨w, .execute a, k⟩).job, .sender (a.waiting toSuper selector) :: k⟩ := by
      rw [← hpending, ← hworld]
      rfl
    rw [hplain]
    cases toSuper with
    | false =>
      refine comes_of_fulfils h ht hsends ?_ k
      rw [hstep]
      exact (sendInstruction_fulfils h hcode hl harity ha hsend next).1
    | true =>
      refine comes_of_fulfilsSuper hsends ?_ (fun hholder hfail => ?_) k
      · rw [hstep]
        exact (sendInstruction_fulfilsSuper h hcode hl harity hsend next).1
      · exact horphaned ⟨a, selector, rfl, hsends, hholder, hfail⟩

end Machine

end Parley
