import Mathlib.Algebra.BigOperators.Intervals
import Mathlib.Data.Nat.Factorial.Basic
import Parley.Library.Numbers
import Parley.Machine.Workload

/-!
# What the workloads answer

The mathematics of the workloads, and how deep their activations are nested. Numbers are exact, for
an answer may be too large for a small integer.
-/

namespace Parley.Workload

open Finset Nat

/-- The sum of a function over the numbers from one up to a limit. -/
def total (f : Nat → Int) (k : Nat) : Int :=
  ∑ i ∈ Icc 1 k, f i

theorem total_succ (f : Nat → Int) (k : Nat) : total f (k + 1) = total f k + f (k + 1) := by
  rw [total, sum_Icc_succ_top (Nat.le_add_left 1 k), total]

/-- The length of the text of the receiver that `poly:` takes for a number. -/
def printedLength (i : Nat) : Int :=
  if i % 4 = 0 then 1 else if i % 4 = 3 then 4 else 3

/-- The least number up to a hundred thousand of which the square is greater than another, or zero
    if there is none. -/
def firstAbove (n : Int) : Nat :=
  ((List.range' 1 100000).find? fun i : Nat => n < (i * i : Nat)).getD 0

/-- What a workload answers. -/
def answer (n : Int) : Workload → Value
  | .fact => Number.reduce (n.toNat ! : Nat)
  | .loop => Number.reduce (total Nat.cast n.toNat)
  | .poly => Number.reduce (total printedLength n.toNat)
  | .escape => .symbol "escaped"
  | .nlr => Number.reduce (firstAbove n)
  | .while => Number.reduce (max n 0)

/-- How many activations are nested while a workload runs. -/
def nesting (inlining : Bool) (n : Int) : Workload → Nat
  | .fact => (if inlining then 1 else 2) * max 1 n.toNat
  | .loop | .poly => if inlining ∨ n < 1 then 1 else 2
  | .escape => 2
  | .nlr => if inlining ∨ firstAbove n = 0 then 3 else 4
  | .while => 3

end Parley.Workload
