import Parley.Proofs.Iteration
import Parley.Proofs.LibraryLoops

/-!
# Loops that start again

`whileTrue:` and `whileFalse:` of the library are methods that send `restart` to their receiver.
When one of them is called with a body (`Repetition.Begins`), its activation evaluates the condition
and the body in turns, and starts again after each time that the body was evaluated. Whatever the
two blocks do, and whatever hosts do meanwhile that leaves the messages alone which the methods
send, everything that comes next of the machine belongs to the loop until that has come to a value
or was left (`Repetition.Course`).

The law of the loop is that the turns come in order, round after round, until the condition has
answered the other Boolean, that each round is done by the same activation, which starts again at
its first instruction with nothing on its stack, and that the value is nil (`Repetition.Law`).
-/

namespace Parley

/-! ### Loops and what is seen of them -/

/-- What a loop does next. -/
inductive Repetition.Turn where
  /-- The condition is evaluated. -/
  | asks
  /-- The condition has come to an answer. -/
  | tells (answer : Value)
  /-- The body is evaluated. -/
  | runs
  /-- The body has come to an answer. -/
  | ran
  /-- The activation is to start again. -/
  | replays

/-- A loop of the library in progress. -/
structure Repetition where
  /-- What the condition answers as long as the loop goes on. -/
  on : Bool
  /-- Whether the control flow in the method is inlined. -/
  inlining : Bool
  /-- The method, and the frame of its activation. -/
  code : Code
  frame : FrameRef
  condition : BlockRef
  body : BlockRef
  /-- What waits for the loop to end. -/
  outer : List Pending

namespace Repetition

variable (l : Repetition)

/-! #### Places in the method -/

/-- Where the activation goes on with the answer of the condition. -/
def asked : Nat :=
  3

/-- Where it goes on when it is decided that the body is to be evaluated. -/
def decided : Nat :=
  if l.inlining then 8 else 7

/-- Where it goes on with the answer of the body. -/
def evaluated : Nat :=
  l.decided + 6

/-- Where it would go on with an answer to `restart`. -/
def replayed : Nat :=
  l.decided + 10

/-- The activation waits to go on at a place, and has nothing on its stack. -/
def Waits (p : Pending) (ip : Nat) : Prop :=
  ∃ n, p.activation? = some ⟨l.code, l.frame, ip, [], n⟩

/-- It waits for what the machine does. -/
def Awaits (m : Machine) (ip : Nat) : Prop :=
  ∃ p, l.Waits p ip ∧ m.pending = p :: l.outer

/-- It has sent a message, and there is nothing that was reported for it. -/
def Sends (m : Machine) (ip : Nat) : Prop :=
  ∃ n, m.pending = .sender ⟨l.code, l.frame, ip, [], n⟩ :: l.outer

/-! #### Turns -/

/-- A machine in which it is the loop's turn to do this. -/
def Shows (m : Machine) : Turn → Prop
  | .asks => m.job = .evaluate l.condition [] ∧ l.Sends m asked
  | .tells v => m.job = .answer v ∧ l.Awaits m asked
  | .runs => m.job = .evaluate l.body [] ∧ l.Sends m l.evaluated
  | .ran => (∃ v, m.job = .answer v) ∧ l.Awaits m l.evaluated
  | .replays => m.job = .unwind .restart ∧ l.Sends m l.replayed

/-- What the loop does from one start of the activation to the next. -/
def round : List Turn :=
  [.asks, .tells (.bool l.on), .runs, .ran, .replays]

/-- So many rounds. -/
def rounds (k : Nat) : List Turn :=
  (List.replicate k l.round).flatten

/-- What the loop does that evaluates its body so many times, and the condition once more. -/
def whole (k : Nat) : List Turn :=
  l.rounds k ++ [.asks, .tells (.bool !l.on)]

/-- The next step of a machine begins a loop: the method is called, or its activation is made to
    start again from somewhere else. -/
inductive Begins : Machine → Prop
  | called {w : World} : LibraryLoop.IsCode l.on l.inlining l.code → l.frame = w.heap.frames.size →
      Begins ⟨w, .invoke (.method l.code) [.block l.condition, .block l.body], l.outer⟩
  | restarted {w : World} {a : Activation} : LibraryLoop.IsCode l.on l.inlining l.code →
      a.code = l.code → a.frame = l.frame →
      (w.heap.frame l.frame).arguments = #[.block l.condition, .block l.body] →
        Begins ⟨w, .unwind .restart, .sender a :: l.outer⟩

/-- The loop has come to a value. -/
def Answers (m : Machine) (v : Value) : Prop :=
  m.job = .answer v ∧ m.pending = l.outer

/-- The loop was left by an unwind. -/
def Left (m : Machine) : Prop :=
  (∃ u, m.job = .unwind u) ∧ m.pending = l.outer

/-- The machine comes to what a loop is not made for. -/
inductive Strays (m : Machine) : Prop
  /-- The condition has answered something that is not a Boolean. -/
  | answer {v : Value} : l.Shows m (.tells v) → (∀ b, v ≠ .bool b) → Strays m
  /-- The activation is made to start again while it waits for one of the blocks. -/
  | restart : m.job = .unwind .restart → l.Sends m asked ∨ l.Sends m l.evaluated → Strays m
  /-- A return for the activation itself comes out of one of the blocks. -/
  | returns {v : Value} :
      m.job = .unwind (.nonLocal (m.world.heap.frame l.frame).activation v) →
        l.Awaits m asked ∨ l.Awaits m l.evaluated → Strays m

/-- The loop is over, or its law says no more. -/
def Over (m : Machine) : Prop :=
  (∃ v, l.Answers m v) ∨ l.Left m ∨ l.Strays m

/-- What comes next of a machine while a loop is in progress, with the turns on the way. -/
inductive Course (m : Machine) : List Turn → Machine → Prop
  | begins : Course m [] m
  | shows {m' : Machine} {ts : List Turn} {t : Turn} : Course m ts m' → ¬ l.Over m' →
      l.Shows m' t → Course m (ts ++ [t]) m'.step
  | steps {m' : Machine} {ts : List Turn} : Course m ts m' → ¬ l.Over m' → (∀ t, ¬ l.Shows m' t) →
      Course m ts m'.step
  /-- A host does something between two steps, and leaves the messages alone that loops send. -/
  | meanwhile {m' m'' : Machine} {ts : List Turn} : Course m ts m' → ¬ l.Over m' → m'.Next m'' →
      m'' ≠ m'.step → m''.world.classes.Intact → Course m ts m''

/-- Within so many steps of its own a machine comes to the next turn of the loop, or to its
    value. -/
def Soon (n : Nat) (m : Machine) : Prop :=
  ∃ j ≤ n, l.Course m [] (Machine.step^[j] m) ∧
    (¬ l.Over (Machine.step^[j] m) ∧ (∃ t, l.Shows (Machine.step^[j] m) t) ∨
      l.Answers (Machine.step^[j] m) .nil)

/-- What holds of a machine after the turns that a loop has taken. -/
structure Law (ts : List Turn) (m : Machine) : Prop where
  /-- The turns come in order. The condition is evaluated first, and the loop goes on as long as it
      answers the one Boolean. -/
  ordered : ∃ k, ts <+: l.whole k
  /-- The value is nil, and it comes when the condition has answered the other Boolean. -/
  answers : ∀ v, l.Answers m v → v = .nil ∧ ∃ k, ts = l.whole k
  /-- While none of the blocks is evaluated the loop goes on by itself. -/
  turns : ¬ l.Over m → ts.getLast? ≠ some .asks → ts.getLast? ≠ some .runs → l.Soon 10 m
  /-- The activation starts again at its first instruction, with nothing on its stack. -/
  replays : l.Shows m .replays → ∃ w n, m.step =
    ⟨w, .execute ⟨l.code, l.frame, 0, [], n⟩, l.outer⟩ ∧
    w.thread.statistics = { m.world.thread.statistics with
      restarts := m.world.thread.statistics.restarts + 1 }
  /-- An unwind that one of the blocks comes to leaves the loop at once, and goes on as it is. -/
  unwinds : ∀ u p, m.job = .unwind u → m.pending = p :: l.outer → ¬ p.Settles u →
    (∀ v, u ≠ .nonLocal (m.world.heap.frame l.frame).activation v) →
      m.step.job = .unwind u ∧ m.step.pending = l.outer
  /-- When the loop has come to a value or was left, its activation has ended. -/
  ends : (∃ v, l.Answers m v) ∨ l.Left m → l.frame < m.world.heap.frames.size →
    ∀ m', m.Later m' → ∀ a, m'.job = .execute a → a.frame ≠ l.frame

/-! ### Turns in order -/

variable {l} {k : Nat} {ts : List Turn}

theorem rounds_succ (l : Repetition) (k : Nat) : l.rounds (k + 1) = l.rounds k ++ l.round := by
  rw [rounds, rounds, List.replicate_succ', List.flatten_concat]

theorem whole_succ (l : Repetition) (k : Nat) : l.rounds (k + 1) <+: l.whole (k + 1) :=
  List.prefix_append _ _

/-- The turns after so many rounds. -/
theorem prefix_whole (hts : ts <+: l.round ∨ ts <+: [.asks, .tells (.bool !l.on)]) (k : Nat) :
    ∃ k', l.rounds k ++ ts <+: l.whole k' := by
  rcases hts with hts | hts
  · refine ⟨k + 1, List.IsPrefix.trans ?_ (l.whole_succ k)⟩
    rw [l.rounds_succ]
    exact (List.prefix_append_right_inj _).2 hts
  · exact ⟨k, (List.prefix_append_right_inj _).2 hts⟩

/-! ### Going on -/

variable {m m' m'' : Machine} {ts' : List Turn}

theorem Course.append (h : l.Course m ts m') (h' : l.Course m' ts' m'') :
    l.Course m (ts ++ ts') m'' := by
  induction h' with
  | begins => rwa [List.append_nil]
  | shows _ hover ht ih =>
    rw [← List.append_assoc]
    exact ih.shows hover ht
  | steps _ hover ht ih => exact ih.steps hover ht
  | meanwhile _ hover hn hne hi ih => exact ih.meanwhile hover hn hne hi

/-! ### Where the activation waits -/

variable {p : Pending} {t : Turn} {ip ip' : Nat}

theorem asked_lt (l : Repetition) : asked < l.decided := by
  unfold asked decided
  split <;> decide

theorem decided_lt (l : Repetition) : l.decided < l.evaluated :=
  Nat.lt_add_of_pos_right (by decide)

theorem evaluated_lt (l : Repetition) : l.evaluated < l.replayed :=
  Nat.add_lt_add_left (by decide) l.decided

theorem Awaits.ip_eq (h : l.Awaits m ip) (h' : l.Awaits m ip') : ip = ip' := by
  obtain ⟨p, ⟨n, hp⟩, hk⟩ := h
  obtain ⟨p', ⟨n', hp'⟩, hk'⟩ := h'
  obtain rfl : p = p' := (List.cons.inj (hk.symm.trans hk')).1
  cases hp.symm.trans hp'
  rfl

theorem Awaits.ne_outer (h : l.Awaits m ip) : m.pending ≠ l.outer := by
  obtain ⟨p, -, hk⟩ := h
  rw [hk]
  exact Iteration.ne_of_suffix List.suffix_rfl

theorem Sends.awaits (h : l.Sends m ip) : l.Awaits m ip := by
  obtain ⟨n, hk⟩ := h
  exact ⟨_, ⟨n, rfl⟩, hk⟩

/-- Where the activation waits when it is its turn to do something. -/
def site (l : Repetition) : Turn → Nat
  | .asks | .tells _ => asked
  | .runs | .ran => l.evaluated
  | .replays => l.replayed

theorem Shows.awaits (h : l.Shows m t) : l.Awaits m (l.site t) := by
  cases t with
  | tells v | ran => exact h.2
  | asks | runs | replays => exact h.2.awaits

theorem top_eq {p' : Pending} (hk : p :: l.outer <:+ m.pending) (hk' : m.pending = p' :: l.outer) :
    p' = p := by
  have heq : p :: l.outer = m.pending := hk.eq_of_length (by rw [hk']; rfl)
  exact (List.cons.inj (heq.trans hk')).1.symm

theorem Awaits.pending (h : l.Awaits m ip) (hk : p :: l.outer <:+ m.pending) :
    m.pending = p :: l.outer := by
  obtain ⟨p', -, hk'⟩ := h
  rw [hk', top_eq hk hk']

/-- It is an answer that is seen, or what has become of a message. -/
theorem Shows.split (h : l.Shows m t) : (∃ v, m.job = .answer v) ∨
    l.Sends m (l.site t) ∧ ((∃ b, m.job = .evaluate b []) ∨
      l.site t = l.replayed ∧ m.job = .unwind .restart) := by
  cases t with
  | tells v => exact .inl ⟨v, h.1⟩
  | ran => exact .inl h.1
  | asks | runs => exact .inr ⟨h.2, .inl ⟨_, h.1⟩⟩
  | replays => exact .inr ⟨h.2, .inr ⟨rfl, h.1⟩⟩

theorem Over.isOutcome (h : l.Over m) : m.job.isOutcome := by
  rcases h with ⟨v, h⟩ | ⟨⟨u, h⟩, -⟩ | h
  · rw [h.1]
    rfl
  · rw [h]
    rfl
  · cases h with
    | answer h _ =>
      rw [h.1]
      rfl
    | restart h _ | returns h _ =>
      rw [h]
      rfl

theorem Over.place (h : l.Over m) (hk : m.pending ≠ l.outer) :
    l.Awaits m asked ∨ l.Awaits m l.evaluated := by
  rcases h with ⟨v, h⟩ | ⟨-, h⟩ | h
  · exact absurd h.2 hk
  · exact absurd h hk
  · cases h with
    | answer h _ => exact .inl h.2
    | restart _ h => exact h.imp Sends.awaits Sends.awaits
    | returns _ h => exact h

/-- While the activation waits elsewhere the loop is not over. -/
theorem Awaits.not_over (h : l.Awaits m ip) (hasked : ip ≠ asked) (hevaluated : ip ≠ l.evaluated) :
    ¬ l.Over m := by
  intro hover
  rcases hover.place h.ne_outer with h' | h'
  · exact hasked (h.ip_eq h')
  · exact hevaluated (h.ip_eq h')

/-- A Boolean is an answer that the loop is made for. -/
theorem Shows.not_over {b : Bool} (ht : l.Shows m (.tells (.bool b))) : ¬ l.Over m := by
  rintro (⟨v, ha⟩ | ⟨-, hk⟩ | hs)
  · exact ht.awaits.ne_outer ha.2
  · exact ht.awaits.ne_outer hk
  · cases hs with
    | answer ht' hne => exact hne b (Job.answer.inj (ht'.1.symm.trans ht.1))
    | restart hjob _ | returns hjob _ => cases hjob.symm.trans ht.1

/-- While an instruction is to be executed, nothing is seen of the loop. -/
theorem quiet_of_execute {a : Activation} (hjob : m.job = .execute a) :
    (∀ t, ¬ l.Shows m t) ∧ ¬ l.Over m := by
  refine ⟨fun t ht => ?_, fun ho => ?_⟩
  · rcases ht.split with ⟨v, hv⟩ | ⟨-, ⟨b, hb⟩ | ⟨-, hunwind⟩⟩
    · cases hjob.symm.trans hv
    · cases hjob.symm.trans hb
    · cases hjob.symm.trans hunwind
  · have houtcome := ho.isOutcome
    rw [hjob] at houtcome
    cases houtcome

end Repetition

end Parley
