import Parley.Proofs.Iteration

/-!
# Loops with their index on the stack

A loop over integers that is written out keeps its index on the stack of the activation, above the
limit and the start. What an activation does that is in such a loop is followed instruction by
instruction (`Iteration.Turning`): outside the body these are seven, and the body leaves the index
where it is, since it takes off the stack only what it has put there (`Program.Region`). So the
index is the next number whenever the body is through, whatever the body has done to its parameter.
-/

namespace Parley

namespace Iteration

open Machine (step)

variable {l : Iteration} {m m' : Machine} {i : Nat} {v : Value} {code : Code} {frame : FrameRef}
  {entry exit : Nat} {slot : UInt8} {rest : List Value} {R : Nat → Nat → Prop}

/-- What is on the stack below the index. -/
def base (l : Iteration) (rest : List Value) : List Value :=
  .int l.limit :: .int l.start :: rest

/-! ### Single instructions -/

section Instructions

variable {n : Nat} {w : World} {k : List Pending} (hc : code.program.Counts entry exit slot)

include hc

theorem step_tests (l : Iteration) (i : Nat) :
    step ⟨w, .execute ⟨code, frame, entry + 1, l.number i :: l.base rest, n⟩, k⟩ =
      if i < l.count then
        ⟨w, .execute ⟨code, frame, entry + 4, l.number i :: l.base rest, n⟩, k⟩
      else ⟨w, .execute ⟨code, frame, exit + 5, .int l.start :: rest, n⟩, k⟩ := by
  obtain ⟨wide, first, second, hr, ht⟩ := hc.tests
  have htarget := Tape.eq_of_jumpTarget? ht
  rw [if_neg nofun] at htarget
  rw [Machine.step_execute hr.opcode, Machine.instruction]
  simp only [Activation.jump, base, l.compare_number]
  split
  · rename_i hi
    rw [if_neg (Nat.not_lt.2 (of_decide_eq_true (Option.some.inj hi))), htarget]
    rfl
  · rename_i hi
    rw [if_pos (Nat.lt_of_not_le (of_decide_eq_false (Option.some.inj hi)))]
    rfl
  · rename_i hi
    cases hi

theorem step_doubles (v : Value) (stack : List Value) :
    step ⟨w, .execute ⟨code, frame, entry + 4, v :: stack, n⟩, k⟩ =
      ⟨w, .execute ⟨code, frame, entry + 5, v :: v :: stack, n⟩, k⟩ := by
  rw [Machine.step_execute hc.doubles.opcode]
  rfl

theorem step_hands (v : Value) (stack : List Value)
    (hslot : slot.toNat < (w.heap.frame frame).locals.size) :
    step ⟨w, .execute ⟨code, frame, entry + 5, v :: stack, n⟩, k⟩ =
      ⟨{ w with heap := w.heap.setLocal frame slot.toNat v },
        .execute ⟨code, frame, entry + 8, stack, n⟩, k⟩ := by
  rw [Machine.step_execute hc.hands.opcode, Machine.instruction]
  simp only [Activation.withTop, Activation.popVariable]
  have hfirst : code.program.tape.byteAt (entry + 5 + 1) = slot := hc.hands.first (by decide)
  have hsecond : code.program.tape.byteAt (entry + 5 + 2) = 0 := hc.hands.second (by decide)
  rw [hfirst, hsecond, show (0 : UInt8).toNat = 0 from rfl, Heap.enclosing?_zero]
  simp only [if_pos hslot]
  rfl

theorem step_drops (v : Value) (stack : List Value) :
    step ⟨w, .execute ⟨code, frame, exit, v :: stack, n⟩, k⟩ =
      ⟨w, .execute ⟨code, frame, exit + 1, stack, n⟩, k⟩ := by
  rw [Machine.step_execute hc.drops.opcode]
  rfl

theorem step_steps (l : Iteration) (i : Nat) (stack : List Value) : ∃ w',
    step ⟨w, .execute ⟨code, frame, exit + 1, l.number i :: stack, n⟩, k⟩ =
      ⟨w', .execute ⟨code, frame, exit + 2, l.number (i + 1) :: stack, n⟩, k⟩ := by
  rw [Machine.step_execute hc.steps.opcode, Machine.instruction]
  simp only [Activation.withTop, Activation.step, l.step_number]
  exact ⟨_, rfl⟩

theorem step_turns (stack : List Value) :
    step ⟨w, .execute ⟨code, frame, exit + 2, stack, n⟩, k⟩ =
      ⟨w, .execute ⟨code, frame, entry + 1, stack, n + 1⟩, k⟩ := by
  obtain ⟨wide, first, second, hr, ht⟩ := hc.turns
  have htarget := Tape.eq_of_jumpTarget? ht
  rw [if_pos rfl] at htarget
  rw [Machine.step_execute hr.opcode, Machine.instruction]
  simp only [Activation.jump]
  rw [htarget]
  rfl

end Instructions

/-! ### Where the activation is -/

/-- A loop that is written out, when the body was handed so many numbers. `R` are the places of the
    body. -/
inductive Turning (l : Iteration) (code : Code) (frame : FrameRef) (entry exit : Nat)
    (rest : List Value) (R : Nat → Nat → Prop) : Nat → Machine → Prop
  | tests (w : World) (n : Nat) {i : Nat} : i ≤ l.count → Turning l code frame entry exit rest R i
      ⟨w, .execute ⟨code, frame, entry + 1, l.number i :: l.base rest, n⟩, l.outer⟩
  | doubles (w : World) (n : Nat) {i : Nat} : i < l.count → Turning l code frame entry exit rest R i
      ⟨w, .execute ⟨code, frame, entry + 4, l.number i :: l.base rest, n⟩, l.outer⟩
  | hands (w : World) (n : Nat) {i : Nat} : i < l.count → Turning l code frame entry exit rest R i
      ⟨w, .execute ⟨code, frame, entry + 5, l.number i :: l.number i :: l.base rest, n⟩, l.outer⟩
  | evaluates (w : World) (n : Nat) {i ip : Nat} {new : List Value} : i < l.count →
      R ip new.length → Turning l code frame entry exit rest R (i + 1)
        ⟨w, .execute ⟨code, frame, ip, new ++ l.number i :: l.base rest, n⟩, l.outer⟩
  | waits {m : Machine} {i : Nat} {p : Pending} {a : Activation} {new : List Value} : i < l.count →
      p.activation? = some a → p :: l.outer <:+ m.pending → a.code = code → a.frame = frame →
      a.stack = new ++ l.number i :: l.base rest → R a.ip (new.length + 1) →
        Turning l code frame entry exit rest R (i + 1) m
  | steps (w : World) (n : Nat) {i : Nat} : i < l.count →
      Turning l code frame entry exit rest R (i + 1)
        ⟨w, .execute ⟨code, frame, exit + 1, l.number i :: l.base rest, n⟩, l.outer⟩
  | turns (w : World) (n : Nat) {i : Nat} : i < l.count →
      Turning l code frame entry exit rest R (i + 1)
        ⟨w, .execute ⟨code, frame, exit + 2, l.number (i + 1) :: l.base rest, n⟩, l.outer⟩
  | answers (w : World) (n : Nat) {i : Nat} : i = l.count →
      Turning l code frame entry exit rest R i
        ⟨w, .execute ⟨code, frame, exit + 5, .int l.start :: rest, n⟩, l.outer⟩
  /-- The activation has ended, unless it is to start again. -/
  | left {m : Machine} {i : Nat} : l.Left m →
      (m.pending = l.outer → frame < m.world.heap.frames.size ∧
        (m.world.heap.frame frame).marker ≠ .onStack) → Turning l code frame entry exit rest R i m

namespace Turning

theorem zero (w : World) (n : Nat) : Turning l code frame entry exit rest R 0
    ⟨w, .execute ⟨code, frame, entry + 1, .int l.start :: l.base rest, n⟩, l.outer⟩ := by
  rw [← l.number_zero]
  exact .tests w n (Nat.zero_le _)

variable {ran : FrameRef → Code} (hform : l.form = .inlined code frame entry exit slot rest)

include hform

/-- The activation ends, and the loop with it. -/
theorem left_step {job : Job} {w' : World} (ho : m.Ordinary ran)
    (hframes : m.frames = frame :: Pending.frames l.outer) (hstep : m.step = ⟨w', job, l.outer⟩)
    (hjob : job.isOutcome) : Turning l code frame entry exit rest R i m.step := by
  refine .left ?_ fun _ => ho.ended_of_step hframes ?_
  · rw [left_iff_of_inlined hform, hstep]
    exact .inl ⟨rfl, hjob⟩
  · rw [hstep]
    cases job with
    | answer _ | unwind _ => rfl
    | _ => cases hjob

/-- An activation that waits in the body is told an outcome. -/
theorem outcome_step {p : Pending} {a : Activation} {new : List Value} {w : World} {job : Job}
    (hi : i < l.count) (hp : p.activation? = some a) (hcode : a.code = code)
    (hframe : a.frame = frame) (hstack : a.stack = new ++ l.number i :: l.base rest)
    (hin : R a.ip (new.length + 1)) (ho : Machine.Ordinary ⟨w, job, p :: l.outer⟩ ran)
    (hover : ¬ l.Over ⟨w, job, p :: l.outer⟩) (hjob : job.isOutcome) :
    Turning l code frame entry exit rest R (i + 1) (step ⟨w, job, p :: l.outer⟩) := by
  have habandon : ∀ u, step ⟨w, job, p :: l.outer⟩ = Machine.after l.outer (a.abandon u w) →
      Turning l code frame entry exit rest R (i + 1) (step ⟨w, job, p :: l.outer⟩) := by
    intro u hstep
    refine left_step hform ho ?_ hstep (a.abandon_isOutcome u w)
    rw [Machine.frames, Job.frames_of_ne_execute, Pending.frames_cons_of_some hp, hframe]
    · rfl
    · rintro b rfl
      cases hjob
  obtain ⟨c, f, ip, stack, n⟩ := a
  cases hcode
  cases hframe
  cases hstack
  cases job with
  | answer v =>
    have hstep : step ⟨w, .answer v, p :: l.outer⟩ = ⟨w, .execute ⟨c, f, ip,
        v :: new ++ l.number i :: l.base rest, n⟩, l.outer⟩ := by
      cases p with
      | sender b | reporter b =>
        cases hp
        rfl
      | _ => cases hp
    rw [hstep]
    exact .evaluates w n hi hin
  | unwind u =>
    cases p with
    | reporter b =>
      cases hp
      exact habandon u rfl
    | sender b =>
      cases hp
      cases u with
      | restart => exact absurd (.inr ((left_iff_of_inlined hform).2 (.inr ⟨_, rfl, rfl⟩))) hover
      | escaped block v => exact .waits hi rfl List.suffix_rfl rfl rfl rfl hin
      | nonLocal target v => exact habandon (.nonLocal target v) rfl
      | failed f => exact habandon (.failed f) rfl
    | _ => cases hp
  | _ => cases hjob

theorem meanwhile (h : Turning l code frame entry exit rest R i m) (hover : ¬ l.Over m)
    (hn : m.Next m') (hne : m' ≠ m.step) : Turning l code frame entry exit rest R i m' := by
  cases h with
  | tests w n hi =>
    rw [hn.prepares hne rfl rfl nofun]
    exact .tests _ n hi
  | doubles w n hi =>
    rw [hn.prepares hne rfl rfl nofun]
    exact .doubles _ n hi
  | hands w n hi =>
    rw [hn.prepares hne rfl rfl nofun]
    exact .hands _ n hi
  | evaluates w n hi hin =>
    rw [hn.prepares hne rfl rfl nofun]
    exact .evaluates _ n hi hin
  | waits hi hp hk hcode hframe hstack hin =>
    refine .waits hi hp (hn.keeps hne ?_ hk) hcode hframe hstack hin
    rintro rfl
    cases hp
  | steps w n hi =>
    rw [hn.prepares hne rfl rfl nofun]
    exact .steps _ n hi
  | turns w n hi =>
    rw [hn.prepares hne rfl rfl nofun]
    exact .turns _ n hi
  | answers w n hi => exact absurd (.inl ⟨_, answers_of_inlined hform w n _⟩) hover
  | left hleft _ => exact absurd (.inr hleft) hover

/-- An unwind goes through the activation, which ends. -/
theorem unwinds (h : Turning l code frame entry exit rest R i m) {u : Unwind} {p : Pending}
    (hjob : m.job = .unwind u) (hk : m.pending = p :: l.outer) (hsettles : ¬ p.Settles u) :
    l.Left m.step ∧ m.step.job = l.onward u m.world ∧ m.step.pending = l.outer := by
  have habandon : ∀ (a : Activation) (w : World), a.frame = frame →
      l.Left (Machine.after l.outer (a.abandon u w)) ∧
        (Machine.after l.outer (a.abandon u w)).job = l.onward u w ∧
          (Machine.after l.outer (a.abandon u w)).pending = l.outer := by
    intro a w hframe
    rw [left_iff_of_inlined hform, onward, hform, ← hframe]
    exact ⟨.inl ⟨rfl, a.abandon_isOutcome u w⟩, a.abandon_fst u w, rfl⟩
  cases h with
  | @waits m i p' a new hi hp hsuffix hcode hframe hstack hin =>
    obtain ⟨w, job, k⟩ := m
    cases hjob
    cases hk
    rcases List.suffix_cons_iff.1 hsuffix with heq | hsuffix
    · cases heq
      cases p with
      | reporter b =>
        cases hp
        exact habandon a w hframe
      | sender b =>
        cases hp
        cases u with
        | restart | escaped _ _ => exact absurd trivial hsettles
        | nonLocal _ _ | failed _ => exact habandon a w hframe
      | _ => cases hp
    · exact absurd rfl (ne_of_suffix hsuffix)
  | left hleft _ =>
    obtain ⟨hpending, -⟩ | ⟨b, hb, hpending⟩ := (left_iff_of_inlined hform).1 hleft
    · exact absurd (hk.symm.trans hpending) (List.cons_ne_self _ _)
    · obtain rfl := (List.cons.inj (hk.symm.trans hpending)).1
      obtain rfl := Job.unwind.inj (hjob.symm.trans hb)
      exact absurd trivial hsettles
  | _ => cases hjob

/-- An activation that was left has ended. -/
theorem marked (h : Turning l code frame entry exit rest R i m) (hleft : l.Left m)
    (hk : m.pending = l.outer) : frame < m.world.heap.frames.size ∧
      (m.world.heap.frame frame).marker ≠ .onStack := by
  have hout : m.job.isOutcome := by
    rcases (left_iff_of_inlined hform).1 hleft with ⟨-, hout⟩ | ⟨b, hb, -⟩
    · exact hout
    · rw [hb]
      rfl
  cases h with
  | waits _ _ hsuffix _ _ _ _ => exact absurd hk (ne_of_suffix hsuffix)
  | left _ hmarked => exact hmarked hk
  | _ => cases hout

/-! ### The next number -/

variable (hc : code.program.Counts entry exit slot)

include hc

theorem soon_doubles (w : World) (n : Nat) (vs : List Value) : l.Soon 1 vs
    ⟨w, .execute ⟨code, frame, entry + 4, l.number i :: l.base rest, n⟩, l.outer⟩ := by
  have hle := hc.le
  refine .cons (not_over_of_inlined hform (by show entry + 4 ≠ exit + 5; omega))
    (not_hands_of_inlined hform (by show entry + 4 ≠ entry + 5; omega)) ?_
  rw [step_doubles hc]
  exact .of_hands (hands_of_inlined hform w n _ _)

theorem soon_tests (w : World) (n : Nat) (hi : i ≤ l.count) : l.Soon 2 (l.values.take i)
    ⟨w, .execute ⟨code, frame, entry + 1, l.number i :: l.base rest, n⟩, l.outer⟩ := by
  have hle := hc.le
  refine .cons (not_over_of_inlined hform (by show entry + 1 ≠ exit + 5; omega))
    (not_hands_of_inlined hform (by show entry + 1 ≠ entry + 5; omega)) ?_
  rw [step_tests hc]
  split
  · exact soon_doubles hform hc w n _
  · rename_i hlt
    obtain rfl : i = l.count := Nat.le_antisymm hi (Nat.le_of_not_lt hlt)
    exact .of_answers (answers_of_inlined hform w n _) l.take_count

theorem soon_turns (w : World) (n : Nat) (hi : i < l.count) : l.Soon 3 (l.values.take (i + 1))
    ⟨w, .execute ⟨code, frame, exit + 2, l.number (i + 1) :: l.base rest, n⟩, l.outer⟩ := by
  have hle := hc.le
  refine .cons (not_over_of_inlined hform (by show exit + 2 ≠ exit + 5; omega))
    (not_hands_of_inlined hform (by show exit + 2 ≠ entry + 5; omega)) ?_
  rw [step_turns hc]
  exact soon_tests hform hc w (n + 1) hi

theorem soon_steps (w : World) (n : Nat) (hi : i < l.count) : l.Soon 4 (l.values.take (i + 1))
    ⟨w, .execute ⟨code, frame, exit + 1, l.number i :: l.base rest, n⟩, l.outer⟩ := by
  have hle := hc.le
  refine .cons (not_over_of_inlined hform (by show exit + 1 ≠ exit + 5; omega))
    (not_hands_of_inlined hform (by show exit + 1 ≠ entry + 5; omega)) ?_
  obtain ⟨w', hstep⟩ := step_steps hc l i (l.base rest)
  rw [hstep]
  exact soon_turns hform hc w' n hi

variable (hR : code.program.Region (entry + 8) exit R)

include hR

theorem soon (h : Turning l code frame entry exit rest R i m) (hover : ¬ l.Over m)
    (he : ¬ l.Evaluates m) : l.Soon 5 (l.values.take i) m := by
  have hle := hc.le
  rw [Evaluates, hform] at he
  cases h with
  | tests w n hi => exact (soon_tests hform hc w n hi).mono (by decide)
  | doubles w n hi => exact (soon_doubles hform hc w n _).mono (by decide)
  | hands w n hi => exact .of_hands (hands_of_inlined hform w n _ _)
  | @evaluates w n i ip new hi hin =>
    obtain ⟨hlow, hexit⟩ := hR.within _ _ hin
    rcases hexit.lt_or_eq with hip | rfl
    · exact absurd ⟨_, rfl, rfl, hlow, .inl ⟨rfl, rfl, hip⟩⟩ he
    · -- The body has left its value.
      obtain ⟨v, rfl⟩ := List.length_eq_one_iff.1 (hR.leaves _ hin)
      refine .cons (not_over_of_inlined hform (by show ip ≠ ip + 5; omega))
        (not_hands_of_inlined hform (by show ip ≠ entry + 5; omega)) ?_
      rw [List.singleton_append, step_drops hc]
      exact soon_steps hform hc w n hi
  | waits hi hp hk hcode hframe hstack hin =>
    obtain ⟨hlow, hexit⟩ := hR.within _ _ hin
    exact absurd ⟨_, hcode, hframe, hlow, .inr ⟨_, hp, hk, hexit⟩⟩ he
  | steps w n hi => exact (soon_steps hform hc w n hi).mono (by decide)
  | turns w n hi => exact (soon_turns hform hc w n hi).mono (by decide)
  | answers w n hi => exact absurd (.inl ⟨_, answers_of_inlined hform w n _⟩) hover
  | left hleft _ => exact absurd (.inr hleft) hover

theorem answers_eq (h : Turning l code frame entry exit rest R i m) (hv : l.Answers m v) :
    v = .int l.start ∧ i = l.count := by
  have hle := hc.le
  unfold Answers at hv
  rw [hform] at hv
  obtain ⟨hpending, a, hjob, -, -, hip, hstack⟩ := hv
  cases h with
  | tests | doubles | hands | steps | turns =>
    cases hjob
    simp only at hip
    omega
  | evaluates w n hi hin =>
    cases hjob
    simp only at hip
    have hexit := (hR.within _ _ hin).2
    omega
  | waits _ _ hk _ _ _ _ => exact absurd hpending (ne_of_suffix hk)
  | answers w n hi =>
    cases hjob
    cases hstack
    exact ⟨rfl, hi⟩
  | left hleft _ =>
    obtain ⟨-, hout⟩ | ⟨b, hb, -⟩ := (left_iff_of_inlined hform).1 hleft
    · rw [hjob] at hout
      cases hout
    · rw [hjob] at hb
      cases hb

/-! ### Steps -/

theorem steps_step (h : Turning l code frame entry exit rest R i m) (ho : m.Ordinary ran)
    (hover : ¬ l.Over m) (hv : ∀ v, ¬ l.Hands m v) :
    Turning l code frame entry exit rest R i m.step := by
  cases h with
  | tests w n hi =>
    rw [step_tests hc]
    split
    · rename_i hlt
      exact .doubles w n hlt
    · rename_i hlt
      exact .answers w n (Nat.le_antisymm hi (Nat.le_of_not_lt hlt))
  | doubles w n hi =>
    rw [step_doubles hc]
    exact .hands w n hi
  | hands w n hi => exact absurd (hands_of_inlined hform w n _ _) (hv (l.number i))
  | @evaluates w n i ip new hi hin =>
    rcases (hR.within _ _ hin).2.lt_or_eq with hip | rfl
    · have hremains : Activation.Remains ⟨code, frame, ip, new ++ l.number i :: l.base rest, n⟩
          (l.number i :: l.base rest) R l.outer (step _) :=
        Machine.executes_of_region hR hin hip rfl w l.outer
      generalize hm : step _ = m' at hremains
      cases hremains with
      | @goesOn w' b new hcode hframe hstack hin =>
        obtain ⟨_, _, _, _, _⟩ := b
        cases hcode
        cases hframe
        cases hstack
        exact .evaluates w' _ hi hin
      | waits hcode hframe hstack hin _ =>
        exact .waits hi rfl List.suffix_rfl hcode hframe hstack hin
      | ends hjob => exact hm ▸ left_step hform ho rfl hm hjob
    · obtain ⟨v, rfl⟩ := List.length_eq_one_iff.1 (hR.leaves _ hin)
      rw [List.singleton_append, step_drops hc]
      exact .steps w n hi
  | @waits m i p a new hi hp hk hcode hframe hstack hin =>
    by_cases hend : m.job.isOutcome ∧ m.pending = p :: l.outer
    · obtain ⟨w, job, k⟩ := m
      obtain ⟨hjob, rfl⟩ := hend
      exact outcome_step hform hi hp hcode hframe hstack hin ho hover hjob
    · obtain ⟨s, hs⟩ := ho.settled.stock
      exact .waits hi hp (Machine.step_keeps hs hk fun hjob hk => hend ⟨hjob, hk⟩) hcode hframe
        hstack hin
  | @steps w n i hi =>
    obtain ⟨w', hstep⟩ := step_steps hc l i (l.base rest)
    rw [hstep]
    exact .turns w' n hi
  | turns w n hi =>
    rw [step_turns hc]
    exact .tests w (n + 1) hi
  | answers w n hi => exact absurd (.inl ⟨_, answers_of_inlined hform w n _⟩) hover
  | left hleft _ => exact absurd (.inr hleft) hover

variable (hstart : R (entry + 8) 0)

include hstart

theorem hands_step (h : Turning l code frame entry exit rest R i m) (ho : m.Ordinary ran)
    (hv : l.Hands m v) : i < l.count ∧ v = l.number i ∧
      Turning l code frame entry exit rest R (i + 1) m.step ∧ l.Receives m.step v := by
  have hle := hc.le
  unfold Hands at hv
  rw [hform] at hv
  obtain ⟨hpending, a, stack, hjob, hip, hstack⟩ := hv
  cases h with
  | hands w n hi =>
    cases hjob
    cases hstack
    -- The local is one of the frame.
    have hslot : slot.toNat < (w.heap.frame frame).locals.size := by
      obtain ⟨g, hg, -, -, hlt⟩ := ho.settled.ready.finds _ _ rfl hc.hands.opcode
      rw [hc.hands.second (by decide), show (0 : UInt8).toNat = 0 from rfl,
        Heap.enclosing?_zero] at hg
      cases hg
      rwa [hc.hands.first (by decide)] at hlt
    rw [step_hands hc _ _ hslot, Receives, hform]
    have hbegins : R (entry + 8) ([] : List Value).length := hstart
    exact ⟨hi, rfl, .evaluates _ n hi hbegins, rfl, _, rfl, rfl, rfl, rfl,
      Heap.locals_setLocal hslot _⟩
  | tests | doubles | steps | turns | answers =>
    cases hjob
    simp only at hip
    omega
  | evaluates w n hi hin =>
    cases hjob
    simp only at hip
    have hlow := (hR.within _ _ hin).1
    omega
  | waits _ _ hk _ _ _ _ => exact absurd hpending (ne_of_suffix hk)
  | left hleft _ =>
    obtain ⟨-, hout⟩ | ⟨b, hb, -⟩ := (left_iff_of_inlined hform).1 hleft
    · rw [hjob] at hout
      cases hout
    · rw [hjob] at hb
      cases hb

end Turning

end Iteration

end Parley
