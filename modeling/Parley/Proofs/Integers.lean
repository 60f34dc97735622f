import Mathlib.Tactic.NormNum
import Parley.Library.Numbers

/-!
# Exact integers

An integer that fits is a small one and any other a big one (`Number.reduce`). On such integers
sums, differences and products are those of mathematics, whichever way they are computed
(`Number.integer_reduce`), and so is their order (`Number.compare?_reduce`).
-/

namespace Parley

namespace Number

variable {i a b : Int} {s x y : Int64} {op : Arith}

theorem toInt_of_small? (h : small? i = some s) : s.toInt = i := by
  rw [small?] at h
  split at h
  · rename_i hi
    cases h
    exact Int64.toInt_ofInt_of_le hi.1 hi.2
  · cases h

@[simp] theorem small?_toInt (s : Int64) : small? s.toInt = some s := by
  rw [small?, if_pos ⟨s.le_toInt, s.toInt_lt⟩, Int64.ofInt_toInt]

@[simp] theorem reduce_toInt (s : Int64) : reduce s.toInt = .int s := by
  rw [reduce, small?_toInt]

theorem reduce_of_small? (h : small? i = some s) : reduce i = .int s := by
  rw [reduce, h]

theorem reduce_of_none (h : small? i = none) : reduce i = .big i := by
  rw [reduce, h]

@[simp] theorem integer?_reduce (i : Int) : (reduce i).integer? = some i := by
  rw [reduce]
  split
  · rename_i s hs
    rw [Value.integer?, toInt_of_small? hs]
  · rfl

/-- A number up to a small integer is small too, if it is not negative. -/
theorem exists_toInt_eq (hi : 0 ≤ i) (h : i ≤ s.toInt) : ∃ x : Int64, x.toInt = i := by
  refine ⟨Int64.ofInt i, Int64.toInt_ofInt_of_le ?_ (h.trans_lt s.toInt_lt)⟩
  exact le_trans (by decide) hi

/-- An integer is small or big. -/
theorem reduce_cases (i : Int) : (∃ s, reduce i = .int s ∧ s.toInt = i) ∨ reduce i = .big i := by
  cases hs : small? i with
  | some s => exact .inl ⟨s, reduce_of_small? hs, toInt_of_small? hs⟩
  | none => exact .inr (reduce_of_none hs)

/-! ### Arithmetic -/

theorem promoted_eq (hop : op.divides = false) (a b : Int) : promoted op a b = op.exact a b := by
  cases op with
  | add | sub | mul => rfl
  | _ => cases hop

theorem checked?_eq (hop : op.divides = false) (x y : Int64) :
    checked? op x y = small? (op.exact x.toInt y.toInt) := by
  cases op with
  | add | sub | mul => rfl
  | _ => cases hop

/-- Sums, differences and products are exact. -/
theorem integer_reduce (hop : op.divides = false) (a b : Int) :
    integer op (reduce a) (reduce b) = .value (reduce (op.exact a b)) := by
  obtain ⟨x, hx, rfl⟩ | ha := reduce_cases a <;> obtain ⟨y, hy, rfl⟩ | hb := reduce_cases b
  · rw [hx, hy, integer, hop, Bool.false_and, if_neg nofun, checked?_eq hop, promoted_eq hop]
    cases hz : small? (op.exact x.toInt y.toInt) with
    | some z => rw [reduce_of_small? hz]
    | none => rfl
  -- An operation with a big operand is done on big integers.
  · simp [hx, hb, integer, hop, Value.integer?, promoted_eq hop]
  · simp [ha, hy, integer, hop, Value.integer?, promoted_eq hop]
  · simp [ha, hb, integer, hop, Value.integer?, promoted_eq hop]

/-- What is left of a number that is not negative, by a positive one. -/
theorem integer_rem_int (hx : 0 ≤ x.toInt) (hy : 0 < y.toInt) :
    integer .rem (.int x) (.int y) = .value (reduce (x.toInt % y.toInt)) := by
  have hy0 : (y == 0) = false := by
    rw [beq_eq_false_iff_ne]
    rintro rfl
    exact absurd hy (by decide)
  -- The quotient is no larger than the dividend, and so it fits.
  have hquotient : truncated? x y = some (Int64.ofInt (x.toInt / y.toInt)) := by
    have hle : x.toInt / y.toInt ≤ x.toInt := Int.ediv_le_self _ hx
    have hnonneg : 0 ≤ x.toInt / y.toInt := Int.ediv_nonneg hx hy.le
    rw [truncated?, Int.tdiv_eq_ediv_of_nonneg hx, small?,
      if_pos ⟨by have : (0 : Int) ≤ Int.pow 2 63 := by decide
                 omega, hle.trans_lt x.toInt_lt⟩]
  have hrem : (x % y).toInt = x.toInt % y.toInt := by
    rw [Int64.toInt_mod, Int.tmod_eq_emod_of_nonneg hx]
  have hsign : ¬ (x % y < 0) := by
    rw [Int64.lt_iff_toInt_lt, hrem]
    exact not_lt.2 (Int.emod_nonneg _ hy.ne')
  have hsign' : ¬ (y < 0) := by
    rw [Int64.lt_iff_toInt_lt]
    exact not_lt.2 hy.le
  simp only [integer, hy0, Bool.and_false, checked?, floorMod?, hquotient, hsign, hsign',
    ne_eq, not_true_eq_false, and_false, if_false, Bool.false_eq_true]
  rw [← hrem, reduce_toInt]

/-! ### Order -/

theorem compare_toInt (x y : Int64) : compare x y = compare x.toInt y.toInt := by
  show compareOfLessAndEq x y = compareOfLessAndEq x.toInt y.toInt
  simp only [compareOfLessAndEq, Int64.lt_iff_toInt_lt, Int64.toInt_inj]

theorem order?_reduce (a b : Int) : order? (reduce a) (reduce b) = some (compare a b) := by
  obtain ⟨x, hx, rfl⟩ | ha := reduce_cases a <;> obtain ⟨y, hy, rfl⟩ | hb := reduce_cases b
  · rw [hx, hy, order?, compare_toInt]
  · simp [hx, hb, order?, Value.integer?]
  · simp [ha, hy, order?, Value.integer?]
  · simp [ha, hb, order?, Value.integer?]

theorem compare?_reduce (c : Comparison) (a b : Int) :
    compare? c (reduce a) (reduce b) = some (c.holds (compare a b)) := by
  rw [compare?, order?_reduce, Option.map_some]

theorem holds_lt (a b : Int) : Comparison.lt.holds (compare a b) = decide (a < b) := by
  rw [Comparison.holds, Bool.eq_iff_iff, beq_iff_eq, decide_eq_true_iff, compare_lt_iff_lt]

theorem holds_gt (a b : Int) : Comparison.gt.holds (compare a b) = decide (b < a) := by
  rw [Comparison.holds, Bool.eq_iff_iff, beq_iff_eq, decide_eq_true_iff, compare_gt_iff_gt]

theorem holds_le (a b : Int) : Comparison.le.holds (compare a b) = decide (a ≤ b) := by
  rw [Comparison.holds, Bool.eq_iff_iff, bne_iff_ne, decide_eq_true_iff, ← compare_le_iff_le]

/-! ### The next number -/

theorem step_reduce (i : Int) : step true (reduce i) = .value (reduce (i + 1)) := by
  have hone : (.int 1 : Value) = reduce 1 := rfl
  have hinteger : integer .add (reduce i) (reduce 1) = .value (reduce (i + 1)) :=
    integer_reduce rfl i 1
  obtain ⟨x, hx, -⟩ | hi := reduce_cases i
  · rw [hx] at hinteger ⊢
    exact hinteger
  · rw [hi] at hinteger ⊢
    exact hinteger

end Number

end Parley
