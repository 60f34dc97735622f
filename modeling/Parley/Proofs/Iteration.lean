import Parley.Proofs.Bodies
import Parley.Proofs.Integers

/-!
# Loops over integers

A body is evaluated for every number from a start to a limit, in one of three ways: by a primitive,
by the shortcut that an instruction takes for it, or by the instructions of a loop that is written
out (`Iteration.Begins`). From then on everything that comes next of the machine belongs to the
loop, whatever the body does and whatever hosts do meanwhile, until the loop has come to a value or
was left (`Iteration.Course`).

The law of the loop is that the body is handed the numbers in order, each of them once and no other
ones, and that the value is the start (`Iteration.Law`).
-/

namespace Parley

/-! ### Loops and what is seen of them -/

/-- How a loop over integers is done. -/
inductive Iteration.Form where
  /-- The library evaluates a block. -/
  | called (body : BlockRef)
  /-- The code in a frame does it with the instructions from `entry` to `exit`. The number is handed
      to them in a local, and `rest` is what is on the stack besides. -/
  | inlined (code : Code) (frame : FrameRef) (entry exit : Nat) (slot : UInt8) (rest : List Value)

/-- A loop over integers in progress. -/
structure Iteration where
  start : Int64
  limit : Int64
  form : Iteration.Form
  /-- What waits for the loop to end, apart from an activation that does it itself. -/
  outer : List Pending

/-- The shortcut that an instruction takes for a message: the one that it is bound to, or will
    be. -/
def World.takes? (w : World) (l : Location) (s : Selector) (receiver : Value) : Option Shortcut :=
  match w.sites[l]? with
  | some (.eager op cls epoch _) =>
    if epoch = w.classes.epoch && w.classOf receiver = cls then some op else none
  | some _ => none
  | none => w.shortcut? s receiver

/-- Whether an activation that waits settles an unwind, and does not end. -/
def Pending.Settles : Pending → Unwind → Prop
  | .sender _, .restart | .sender _, .escaped _ _ => True
  | _, _ => False

namespace Iteration

/-- The next step of a machine begins a loop. -/
inductive Begins : Iteration → Machine → Prop
  | primitive {w : World} {p : Primitive} {start limit : Int64} {body : BlockRef}
      {k : List Pending} : p.builtin = .toDo → p.selector.arity = 2 →
        Begins ⟨start, limit, .called body, k⟩
          ⟨w, .invoke (.primitive p) [.int start, .int limit, .block body], k⟩
  | eager {w : World} {a : Activation} {s : Selector} {start limit : Int64} {body : BlockRef}
      {rest : List Value} {k : List Pending} : a.code.sends? a.ip = some (false, s) → s.arity = 2 →
      a.stack = .block body :: .int limit :: .int start :: rest →
      w.takes? (a.code.id, a.ip) s (.int start) = some .count →
      (w.heap.closure body).parameterCount = 1 →
        Begins ⟨start, limit, .called body, .sender { a with
            ip := a.ip + (Opcode.send false).size, stack := rest } :: k⟩ ⟨w, .execute a, k⟩
  /-- An instruction that compares comes next. -/
  | inlined {w : World} {a : Activation} {start limit : Int64} {wide : Bool} {exit : Nat}
      {rest : List Value} {k : List Pending} : a.ip + 1 ∈ a.code.program.tape.starts →
      a.code.program.tape.opcode? (a.ip + 1) = some (.jump .greater wide) →
      a.code.program.tape.jumpTarget? (a.ip + 1) .greater wide = some (exit + 5) →
      a.stack = .int limit :: .int start :: rest →
        Begins ⟨start, limit, .inlined a.code a.frame a.ip exit
          (a.code.program.tape.byteAt (a.ip + 6)) rest, k⟩ ⟨w, .execute a, k⟩

variable (l : Iteration)

/-- How many numbers there are from the start to the limit. -/
def count : Nat :=
  (l.limit.toInt + 1 - l.start.toInt).toNat

/-- The numbers from the start to the limit. -/
def values : List Value :=
  (List.range l.count).map fun i : Nat => .int (.ofInt (l.start.toInt + i))

/-- A machine that is about to hand a value to the body. -/
def Hands (m : Machine) (v : Value) : Prop :=
  m.pending = l.outer ∧
    match l.form with
    | .called body => (∃ next, m.job = .count next l.limit.toInt body (.int l.start)) ∧
      m.step.job = .evaluate body [v]
    | .inlined _ _ entry _ _ _ => ∃ a rest, m.job = .execute a ∧ a.ip = entry + 5 ∧
      a.stack = v :: rest

/-- A machine that is about to evaluate the body with a value. The local of a loop that is written
    out is the one in which its body finds its parameter (`Lower.count_hands`). -/
def Receives (m : Machine) (v : Value) : Prop :=
  match l.form with
  | .called body => m.job = .evaluate body [v] ∧
    ∃ next, m.pending = .counting next l.limit.toInt body (.int l.start) :: l.outer
  | .inlined code frame entry _ slot _ => m.pending = l.outer ∧ ∃ a, m.job = .execute a ∧
    a.code = code ∧ a.frame = frame ∧ a.ip = entry + 8 ∧
      (m.world.heap.frame frame).locals[slot.toNat]? = some v

/-- A machine that evaluates the body. -/
def Evaluates (m : Machine) : Prop :=
  match l.form with
  | .called body =>
    ∃ next, .counting next l.limit.toInt body (.int l.start) :: l.outer <:+ m.pending ∧
    ∀ v, m.job = .answer v → m.pending ≠ .counting next l.limit.toInt body (.int l.start) :: l.outer
  | .inlined code frame entry exit _ _ => ∃ a, a.code = code ∧ a.frame = frame ∧ entry + 8 ≤ a.ip ∧
    (m.job = .execute a ∧ m.pending = l.outer ∧ a.ip < exit ∨
      ∃ p, p.activation? = some a ∧ p :: l.outer <:+ m.pending ∧ a.ip ≤ exit)

/-- The loop has come to a value. -/
def Answers (m : Machine) (v : Value) : Prop :=
  m.pending = l.outer ∧
    match l.form with
    | .called _ => m.job = .answer v
    | .inlined code frame _ exit _ rest => ∃ a, m.job = .execute a ∧ a.code = code ∧
      a.frame = frame ∧ a.ip = exit + 5 ∧ a.stack = v :: rest

/-- The loop was left without a value: by an unwind, or together with the activation that does it,
    or that activation is to start again. -/
def Left (m : Machine) : Prop :=
  match l.form with
  | .called _ => m.pending = l.outer ∧ ∃ u, m.job = .unwind u
  | .inlined _ _ _ _ _ _ => m.pending = l.outer ∧ m.job.isOutcome ∨
    ∃ a, m.job = .unwind .restart ∧ m.pending = .sender a :: l.outer

/-- The loop is over. -/
def Over (m : Machine) : Prop :=
  (∃ v, l.Answers m v) ∨ l.Left m

/-- What comes next of a machine while a loop is in progress, with the values that the body was
    handed on the way. -/
inductive Course (m : Machine) : List Value → Machine → Prop
  | begins : Course m [] m
  | hands {m' : Machine} {vs : List Value} {v : Value} : Course m vs m' → l.Hands m' v →
      Course m (vs ++ [v]) m'.step
  | steps {m' : Machine} {vs : List Value} : Course m vs m' → ¬ l.Over m' → (∀ v, ¬ l.Hands m' v) →
      Course m vs m'.step
  /-- A host does something between two steps. -/
  | meanwhile {m' m'' : Machine} {vs : List Value} : Course m vs m' → ¬ l.Over m' → m'.Next m'' →
      m'' ≠ m'.step → Course m vs m''

/-- Within so many steps of its own a machine hands the next value to the body, or has come to the
    value of the loop. -/
def Soon (n : Nat) (vs : List Value) (m : Machine) : Prop :=
  ∃ j ≤ n, l.Course m [] (Machine.step^[j] m) ∧
    ((∃ v, l.Hands (Machine.step^[j] m) v) ∨
      l.Answers (Machine.step^[j] m) (.int l.start) ∧ vs = l.values)

/-- What is left to do when an unwind has ended a loop. An activation that does the loop itself
    comes to the value of a return that is for it. -/
def onward (u : Unwind) (w : World) : Job :=
  match l.form with
  | .called _ => .unwind u
  | .inlined _ frame _ _ _ _ => (u.ending (w.heap.frame frame).activation).2

/-- The frame of the activation that does a loop itself. -/
def frame? : Option FrameRef :=
  match l.form with
  | .called _ => none
  | .inlined _ frame _ _ _ _ => some frame

/-- What holds of a machine when the body of a loop was handed values. -/
structure Law (vs : List Value) (m : Machine) : Prop where
  /-- They are the numbers from the start on, in order, each of them once. -/
  ordered : vs <+: l.values
  /-- The next one is the next number, and the body is evaluated with it. -/
  hands : ∀ v, l.Hands m v → vs ++ [v] <+: l.values ∧ l.Receives m.step v
  /-- The value is the start, and it comes when the body was handed all numbers. -/
  answers : ∀ v, l.Answers m v → v = .int l.start ∧ vs = l.values
  /-- Before the body is evaluated and when it has come to a value the loop goes on by itself. -/
  turns : ¬ l.Over m → ¬ l.Evaluates m → l.Soon 5 vs m
  /-- An unwind that the body comes to ends the loop at once, and goes on as it is. -/
  unwinds : ∀ u p, m.job = .unwind u → m.pending = p :: l.outer → ¬ p.Settles u →
    l.Left m.step ∧ m.step.job = l.onward u m.world ∧ m.step.pending = l.outer
  /-- An activation that has left a loop is not executed again. -/
  ends : l.Left m → m.pending = l.outer → ∀ f, l.frame? = some f → ∀ m', m.Later m' →
    ∀ a, m'.job = .execute a → a.frame ≠ f

/-! ### Numbers -/

/-- The number that the body is handed after so many others, were it not for the limit. -/
def number (i : Nat) : Value :=
  Number.reduce (l.start.toInt + i)

theorem lt_count_iff {i : Nat} : i < l.count ↔ l.start.toInt + i ≤ l.limit.toInt := by
  unfold count
  omega

@[simp] theorem number_zero : l.number 0 = .int l.start := by
  rw [number, Int.ofNat_zero, Int.add_zero, Number.reduce_toInt]

/-- Up to the limit the numbers are small. -/
theorem number_of_lt {i : Nat} (h : i < l.count) :
    l.number i = .int (.ofInt (l.start.toInt + i)) := by
  have hle : l.start.toInt ≤ l.start.toInt + i := by omega
  rw [number, Number.reduce, Number.small?,
    if_pos ⟨l.start.le_toInt.trans hle, (l.lt_count_iff.1 h).trans_lt l.limit.toInt_lt⟩]

/-- Past the limit one may be big. -/
theorem step_number (i : Nat) : Number.step true (l.number i) = .value (l.number (i + 1)) := by
  rw [number, Number.step_reduce, number, Nat.cast_succ, Int.add_assoc]

theorem compare_number (i : Nat) :
    Number.compare? .gt (l.number i) (.int l.limit) = some (decide (l.count ≤ i)) := by
  rw [number, ← Number.reduce_toInt l.limit, Number.compare?_reduce, Number.holds_gt]
  have hiff : l.limit.toInt < l.start.toInt + i ↔ l.count ≤ i := by
    rw [← not_le, ← l.lt_count_iff, not_lt]
  rw [decide_eq_decide.2 hiff]

theorem take_succ {i : Nat} (h : i < l.count) :
    l.values.take i ++ [l.number i] = l.values.take (i + 1) := by
  have hi : i < l.values.length := by
    rwa [values, List.length_map, List.length_range]
  rw [List.take_succ_eq_append_getElem hi, l.number_of_lt h]
  simp [values]

theorem take_count : l.values.take l.count = l.values := by
  rw [List.take_of_length_le]
  rw [values, List.length_map, List.length_range]

/-! ### Loops that are over -/

section Over

variable {l}

theorem answers_of_called {body : BlockRef} (hform : l.form = .called body) (w : World)
    (v : Value) :
    l.Answers ⟨w, .answer v, l.outer⟩ v := by
  refine ⟨rfl, ?_⟩
  rw [hform]

theorem left_of_called {body : BlockRef} (hform : l.form = .called body) (w : World) (u : Unwind) :
    l.Left ⟨w, .unwind u, l.outer⟩ := by
  rw [Left, hform]
  exact ⟨rfl, u, rfl⟩

section Inlined

variable {code : Code} {frame : FrameRef} {entry exit : Nat} {slot : UInt8} {rest : List Value}
  (hform : l.form = .inlined code frame entry exit slot rest)

include hform

theorem answers_of_inlined (w : World) (n : Nat) (v : Value) :
    l.Answers ⟨w, .execute ⟨code, frame, exit + 5, v :: rest, n⟩, l.outer⟩ v := by
  refine ⟨rfl, ?_⟩
  rw [hform]
  exact ⟨_, rfl, rfl, rfl, rfl, rfl⟩

theorem left_iff_of_inlined {m : Machine} : l.Left m ↔ m.pending = l.outer ∧ m.job.isOutcome ∨
    ∃ a, m.job = .unwind .restart ∧ m.pending = .sender a :: l.outer := by
  rw [Left, hform]

/-- A loop that is written out is over behind its exit only, as long as its activation executes. -/
theorem not_over_of_inlined {a : Activation} {w : World} (hip : a.ip ≠ exit + 5) :
    ¬ l.Over ⟨w, .execute a, l.outer⟩ := by
  rw [Over, left_iff_of_inlined hform]
  unfold Answers
  rw [hform]
  rintro (⟨v, -, b, hb, -, -, hexit, -⟩ | ⟨-, ho⟩ | ⟨b, hb, -⟩)
  · cases hb
    exact hip hexit
  · cases ho
  · cases hb

theorem hands_of_inlined (w : World) (n : Nat) (v : Value) (stack : List Value) :
    l.Hands ⟨w, .execute ⟨code, frame, entry + 5, v :: stack, n⟩, l.outer⟩ v := by
  refine ⟨rfl, ?_⟩
  rw [hform]
  exact ⟨_, _, rfl, rfl, rfl⟩

theorem not_hands_of_inlined {a : Activation} {w : World} (hip : a.ip ≠ entry + 5) (v : Value) :
    ¬ l.Hands ⟨w, .execute a, l.outer⟩ v := by
  unfold Hands
  rw [hform]
  rintro ⟨-, b, rest, hb, hentry, -⟩
  cases hb
  exact hip hentry

end Inlined

end Over

/-! ### Going on -/

section Courses

variable {l} {m m' : Machine} {v : Value} {vs : List Value} {n : Nat}

theorem ne_of_suffix {p : Pending} {k k' : List Pending} (h : p :: k <:+ k') : k' ≠ k := by
  rintro rfl
  exact absurd h.length_le (Nat.not_succ_le_self _)

/-- No value is handed to a body while it is evaluated. -/
theorem not_hands_of_suffix {p : Pending} (h : p :: l.outer <:+ m.pending) (v : Value) :
    ¬ l.Hands m v :=
  fun hv => ne_of_suffix h hv.1

theorem Course.cons (hover : ¬ l.Over m) (hv : ∀ v, ¬ l.Hands m v) (hc : l.Course m.step vs m') :
    l.Course m vs m' := by
  induction hc with
  | begins => exact .steps .begins hover hv
  | hands _ h ih => exact ih.hands h
  | steps _ hover hv ih => exact ih.steps hover hv
  | meanwhile _ hover hn hne ih => exact ih.meanwhile hover hn hne

theorem Course.cons_hands (hv : l.Hands m v) (hc : l.Course m.step vs m') :
    l.Course m (v :: vs) m' := by
  induction hc with
  | begins => exact .hands .begins hv
  | hands _ h ih => exact ih.hands h
  | steps _ hover hv ih => exact ih.steps hover hv
  | meanwhile _ hover hn hne ih => exact ih.meanwhile hover hn hne

namespace Soon

theorem of_hands (h : l.Hands m v) : l.Soon n vs m :=
  ⟨0, Nat.zero_le n, .begins, .inl ⟨v, h⟩⟩

theorem of_answers (h : l.Answers m (.int l.start)) (hvs : vs = l.values) : l.Soon n vs m :=
  ⟨0, Nat.zero_le n, .begins, .inr ⟨h, hvs⟩⟩

theorem cons (hover : ¬ l.Over m) (hv : ∀ v, ¬ l.Hands m v) (h : l.Soon n vs m.step) :
    l.Soon (n + 1) vs m := by
  obtain ⟨j, hj, hc, hsoon⟩ := h
  exact ⟨j + 1, Nat.succ_le_succ hj, hc.cons hover hv, hsoon⟩

theorem mono {n' : Nat} (h : l.Soon n vs m) (hle : n ≤ n') : l.Soon n' vs m := by
  obtain ⟨j, hj, hsoon⟩ := h
  exact ⟨j, hj.trans hle, hsoon⟩

end Soon

end Courses

end Iteration

/-- What was written into a local is there. -/
theorem Heap.locals_setLocal {h : Heap} {f : FrameRef} {slot : Nat}
    (hslot : slot < (h.frame f).locals.size) (v : Value) :
    ((h.setLocal f slot v).frame f).locals[slot]? = some v := by
  have hf : f < h.frames.size := by
    refine Nat.lt_of_not_le fun hle => ?_
    rw [frame, Array.getD_eq_getD_getElem?, Array.getElem?_eq_none hle] at hslot
    exact absurd hslot (Nat.not_lt_zero _)
  rw [setLocal, frame_modify, if_pos ⟨rfl, hf⟩]
  exact Array.getElem?_setIfInBounds_self_of_lt hslot

/-! ### What stays pending -/

namespace Machine

variable {m m' : Machine} {s : Stock} {p : Pending} {k : List Pending} {ran : FrameRef → Code}
  {f : FrameRef} {fs : List FrameRef}

theorem step_keeps (h : m.Sound s) (hk : p :: k <:+ m.pending)
    (ho : m.job.isOutcome → m.pending ≠ p :: k) : p :: k <:+ m.step.pending :=
  ((step_goes h).waits _ hk).resolve_right fun hend => ho hend.1 hend.2

/-- A host takes nothing off that is pending, but for its own mark. -/
theorem Next.keeps (hn : m.Next m') (hne : m' ≠ m.step) (hp : p ≠ .sent)
    (hk : p :: k <:+ m.pending) :
    p :: k <:+ m'.pending := by
  have hconsult : ∀ {k'}, m.Consults k' → p :: k <:+ k' := by
    intro k' hc
    cases hc with
    | told => exact hk
    | answered | unwound =>
      rcases List.suffix_cons_iff.1 hk with heq | hk
      · exact absurd (List.cons.inj heq).1 hp
      · exact hk
  cases hn with
  | step => exact absurd rfl hne
  | prepare => exact hk
  | request hi _ | turn hi _ _ _ _ _ _ _ =>
    rw [pending_of_idle hi] at hk
    exact hk
  | consult hc _ => exact (hconsult hc).trans (List.suffix_cons _ _)
  | reply hc _ => exact hconsult hc

/-- Where it is not asked, a host does nothing but prepare the world. -/
theorem Next.prepared (hn : m.Next m') (hne : m' ≠ m.step) (hm : m.outcome = .unfinished)
    (hc : ∀ k, ¬ m.Consults k) : ∃ w, m.world.Prepares w ∧ m' = { m with world := w } := by
  cases hn with
  | step => exact absurd rfl hne
  | prepare hp => exact ⟨_, hp, rfl⟩
  | request hi _ | turn hi _ _ _ _ _ _ _ => exact absurd hm hi
  | consult hk _ | reply hk _ => exact absurd hk (hc _)

/-- While an instruction is to be executed, a host does nothing but prepare the world. -/
theorem Next.prepares (hn : m.Next m') (hne : m' ≠ m.step) {job : Job} (hjob : m.job = job)
    (ho : job.isOutcome = false) (hr : ∀ receiver c, job ≠ .report receiver c) :
    m' = { m with world := m'.world } := by
  have hconsult : ∀ k', ¬ m.Consults k' := by
    intro k' hc
    cases hc with
    | told receiver c _ _ => exact hr receiver c hjob.symm
    | answered v _ _ | unwound u _ _ =>
      subst hjob
      cases ho
  have hidle : m.outcome = .unfinished := by
    subst hjob
    obtain ⟨w, job, k⟩ := m
    cases k with
    | nil =>
      cases job with
      | answer _ | unwind _ => cases ho
      | _ => rfl
    | cons _ _ => cases job <;> rfl
  obtain ⟨w, -, rfl⟩ := hn.prepared hne hidle hconsult
  rfl

/-- The innermost activation has ended, and so it is not executed again. -/
theorem Ordinary.ended_of_step (h : m.Ordinary ran) (hf : m.frames = f :: fs)
    (hf' : m.step.frames = fs) : f < m.step.world.heap.frames.size ∧
      (m.step.world.heap.frame f).marker ≠ .onStack := by
  have hcarries := h.carrying.carries
  rw [hf] at hcarries
  have hnext := (h.next (.step m)).carrying.carries
  rw [hf'] at hnext
  obtain ⟨s, hs⟩ := h.settled.stock
  have hsize : f < m.step.world.heap.frames.size :=
    ((hcarries.onStack f).1 List.mem_cons_self).1.trans_le (step_goes hs).turns.frames_le
  refine ⟨hsize, fun hm => ?_⟩
  exact (List.nodup_cons.1 hcarries.distinct).1 ((hnext.onStack f).2 ⟨hsize, hm⟩)

end Machine

end Parley
