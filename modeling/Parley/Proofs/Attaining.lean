import Parley.Proofs.Settled
import Parley.Proofs.Simulation

/-!
# What the reference machine attains

The reference machine is easy to follow: it always looks a message up, and whatever it comes to is
there to be seen. If it comes to something within a number of steps, and what it does until then
shows nothing of what is remembered (`Machine.Attains`), then a machine that remembers comes to the
same if that is an answer (`Machine.Sound.attains`). So the run of that machine ends, and with this
answer (`World.result_of_attains`).
-/

namespace Parley

variable {s : Stock} {w : World}

namespace Machine

variable {Q : Machine → Prop} {m m' : Machine} {n n' : Nat}

/-- A machine whose next step depends neither on which instances have caught up with their classes
    nor on which classes are kept by call sites. -/
structure Tame (m : Machine) : Prop where
  invoke : ∀ p arguments, m.job = .invoke (.primitive p) arguments → p.builtin ≠ .instVarAt
  execute : ∀ a selector, m.job = .execute a → a.sends? ≠ some (true, selector)

/-- The reference machine comes to something within a number of steps, and is tame until then. -/
inductive Attains (Q : Machine → Prop) : Nat → Machine → Prop
  | here {n : Nat} {m : Machine} : Q m → Attains Q n m
  | next {n : Nat} {m : Machine} : m.Tame → Attains Q n m.reference → Attains Q (n + 1) m

theorem Attains.mono (h : Attains Q n m) (hn : n ≤ n') : Attains Q n' m := by
  induction h generalizing n' with
  | here hm => exact .here hm
  | next htame _ ih =>
    cases n' with
    | zero => omega
    | succ n' => exact .next htame (ih (Nat.le_of_succ_le_succ hn))

theorem Tame.not_lags (h : m.Tame) : ¬ m.Lags := by
  rintro ⟨p, arguments, hjob, hb, -⟩
  exact h.invoke p arguments hjob hb

theorem Tame.not_orphaned (h : m.Tame) : ¬ m.Orphaned := by
  rintro ⟨a, selector, hjob, hsends, -⟩
  exact h.execute a selector hjob hsends

/-- A machine that has come to an answer, with nothing pending. -/
def Answers (v : Value) (m : Machine) : Prop :=
  m.job = .answer v ∧ m.pending = []

theorem Calls.not_answers {v : Value} (h : m.Calls) : ¬ m.Answers v := by
  rintro ⟨hjob, -⟩
  obtain ⟨selector, arguments, h⟩ | ⟨i, arguments, h⟩ := h
  · cases hjob.symm.trans h
  · cases hjob.symm.trans h

variable {v : Value} {P : World → Prop}

/-- Steps by which the reference machine only calls lead to nothing else. -/
theorem Comes.attains (hc : m.Comes m') (hne : ¬ m.Answers v)
    (h : Attains (fun m => m.Answers v ∧ P m.world) n m) :
    ∃ n' < n, Attains (fun m => m.Answers v ∧ P m.world) n' m' := by
  induction hc generalizing n with
  | single m =>
    cases h with
    | here hm => exact absurd hm.1 hne
    | next _ h => exact ⟨_, Nat.lt_succ_self _, h⟩
  | further hcalls _ ih =>
    cases h with
    | here hm => exact absurd hm.1 hne
    | next _ h =>
      obtain ⟨n', hn, h'⟩ := ih hcalls.not_answers h
      exact ⟨n', Nat.lt_succ_of_lt hn, h'⟩

/-- A machine comes to the answer that the reference machine comes to, in no more steps, and is tame
    all the time. -/
theorem Sound.attains (hm : m.Sound s) (ht : m.world.classes.Mirrored)
    (h : Attains (fun m => m.Answers v ∧ P m.world) n m.plain) :
    ∃ j ≤ n, (step^[j] m).Answers v ∧ P (step^[j] m).world.plain ∧
      ∀ i < j, (step^[i] m).Tame := by
  induction n using Nat.strong_induction_on generalizing m with
  | h n ih =>
    by_cases ha : m.Answers v
    · cases h with
      | here hp => exact ⟨0, Nat.zero_le n, ha, hp.2, nofun⟩
      | @next n _ _ h =>
        -- An answer stays, also with the reference machine.
        have hstay : m.plain.reference = m.plain := by
          obtain ⟨w, job, k⟩ := m
          obtain ⟨rfl, rfl⟩ := ha
          exact congrArg (Machine.mk · _ _) w.plain_plain
        rw [hstay] at h
        obtain ⟨j, hj, hp⟩ := ih n (Nat.lt_succ_self n) hm ht h
        exact ⟨j, Nat.le_succ_of_le hj, hp⟩
    · have htame : m.plain.Tame := by
        cases h with
        | here hp => exact absurd hp.1 ha
        | next htame _ => exact htame
      have hm' : m.Tame := ⟨htame.invoke, htame.execute⟩
      obtain ⟨n', hn, h'⟩ := (hm.comes ht hm'.not_lags hm'.not_orphaned).attains ha h
      have hstep := step_sound hm
      have hclasses : m.step.world.classes = m.world.classes :=
        hstep.world.classes.table.symm.trans hm.world.classes.table
      obtain ⟨j, hj, hanswers, hp, hquiet⟩ := ih n' hn hstep (hclasses ▸ ht) h'
      refine ⟨j + 1, by omega, hanswers, hp, fun i hi => ?_⟩
      cases i with
      | zero => exact hm'
      | succ i => exact hquiet i (Nat.lt_of_succ_lt_succ hi)

theorem Sound.iterate (hm : m.Sound s) (j : Nat) : (step^[j] m).Sound s := by
  induction j with
  | zero => exact hm
  | succ j ih =>
    rw [Function.iterate_succ_apply']
    exact step_sound ih

theorem step_of_isFinal (h : m.isFinal) : m.step = m := by
  obtain ⟨w, job, k⟩ := m
  cases job with
  | answer v | unwind u =>
    obtain rfl : k = [] := List.isEmpty_iff.1 h
    rfl
  | hang => rfl
  | _ => cases h

/-- A run stops where the machine is final. -/
theorem run_eq_of_isFinal {j : Nat} (hj : j ≤ n) (h : (step^[j] m).isFinal) :
    run n m = step^[j] m := by
  induction n generalizing m j with
  | zero =>
    obtain rfl := Nat.le_zero.1 hj
    rfl
  | succ n ih =>
    rw [run]
    split
    · rename_i hm
      exact (Function.iterate_fixed (step_of_isFinal hm) j).symm
    · rename_i hm
      cases j with
      | zero => exact absurd h hm
      | succ j => exact ih (Nat.le_of_succ_le_succ hj) h

end Machine

open Machine

/-- A run answers what the reference machine attains, and leaves a world that is like the one it
    leaves. -/
theorem World.result_of_attains {job : Job} {v : Value} {P : World → Prop} {n : Nat}
    (h : w.Sound s) (ht : w.classes.Mirrored) (hjob : job.Sound s) (hn : n ≤ allowance)
    (ha : Attains (fun m => m.Answers v ∧ P m.world) n ⟨w.plain, job, []⟩) :
    ∃ w', w.result job = (.ok v, w') ∧ w'.Sound s ∧ w'.classes = w.classes ∧ P w'.plain := by
  let m : Machine := ⟨w, job, []⟩
  have hm : m.Sound s := ⟨h, hjob, by rintro p ⟨⟩⟩
  obtain ⟨j, hj, hanswers, hp, -⟩ := Sound.attains (m := m) hm ht ha
  have hsound := hm.iterate j
  have hrun : run allowance m = step^[j] m := by
    refine run_eq_of_isFinal (hj.trans hn) ?_
    rw [isFinal, hanswers.1, hanswers.2]
    rfl
  refine ⟨(step^[j] m).world, ?_, hsound.world,
    hsound.world.classes.table.symm.trans h.classes.table, hp⟩
  rw [result, perform, hrun, outcome, hanswers.1, hanswers.2]

end Parley
