import Mathlib.Data.Rat.Floor
import Mathlib.Tactic.FieldSimp
import Mathlib.Tactic.Linarith
import Mathlib.Tactic.Positivity
import Parley.Proofs.Integers

/-!
# Floored division

The quotient of two integers is the one of mathematics, rounded down, and the remainder is what this
quotient leaves (`Arith.onIntegers`). It is computed from a quotient that is rounded to zero, by two
different corrections on 64 bits and another one on big integers. All of them come to the same, for
any signs, and so arithmetic is exact on every path (`Number.integer_exact`):

* `Number.Floored`: what makes a quotient and a remainder the floored ones, by which the corrections
  are compared;
* `Number.promoted_eq_onIntegers`: the big integers come to the operation of mathematics;
* `Number.onWords`: on 64 bits nothing overflows but the quotient of the least integer by minus one,
  and the remainder that goes with it; what does not overflow is what the big integers come to.
-/

namespace Parley

/-- The operation of mathematics, for a divisor that is not zero. -/
def Arith.onIntegers : Arith → Int → Int → Int
  | .add, a, b => a + b
  | .sub, a, b => a - b
  | .mul, a, b => a * b
  | .div, a, b | .quo, a, b => ⌊(a / b : ℚ)⌋
  | .rem, a, b => a - b * ⌊(a / b : ℚ)⌋

/-- Whether 64 bits hold an integer. -/
def Number.Fits (i : Int) : Prop :=
  -2 ^ 63 ≤ i ∧ i < 2 ^ 63

instance (i : Int) : Decidable (Number.Fits i) := by
  unfold Number.Fits
  infer_instance

/-- The one value that stands for an integer in results: small if the integer fits, else big. -/
inductive Value.IsCanonical : Value → Int → Prop
  | small (s : Int64) : IsCanonical (.int s) s.toInt
  | big {i : Int} : ¬ Number.Fits i → IsCanonical (.big i) i

namespace Number

variable {a b q r : Int} {x y z : Int64} {op : Arith}

theorem fits_toInt (x : Int64) : Fits x.toInt :=
  ⟨x.le_toInt, x.toInt_lt⟩

theorem small?_eq_none_iff : small? a = none ↔ ¬ Fits a := by
  rw [small?]
  split
  · rename_i h
    exact iff_of_false (Option.some_ne_none _) (not_not_intro h)
  · rename_i h
    exact iff_of_true rfl h

theorem isCanonical_reduce (i : Int) : (reduce i).IsCanonical i := by
  cases hs : small? i with
  | some s =>
    rw [reduce_of_small? hs, ← toInt_of_small? hs]
    exact .small s
  | none =>
    rw [reduce_of_none hs]
    exact .big (small?_eq_none_iff.1 hs)

/-! ### Floored quotients -/

/-- A quotient and a remainder of two integers such that the remainder has the sign of the
    divisor. -/
structure Floored (a b q r : Int) : Prop where
  sum : a = b * q + r
  sign : 0 ≤ r ∧ r < b ∨ b < r ∧ r ≤ 0

/-- There is only one such quotient, and it is the one of mathematics, rounded down. -/
theorem Floored.quotient (h : Floored a b q r) : ⌊(a / b : ℚ)⌋ = q := by
  have hb : (b : ℚ) ≠ 0 := by
    rw [Int.cast_ne_zero]
    rintro rfl
    have := h.sign
    omega
  have hdiv : (a / b : ℚ) = q + r / b := by
    rw [h.sum]
    push_cast
    field_simp
  rw [hdiv, Int.floor_eq_iff]
  -- The remainder is a part of the divisor, of the same sign.
  have hpart : 0 ≤ (r / b : ℚ) ∧ (r / b : ℚ) < 1 := by
    rcases h.sign with ⟨h₁, h₂⟩ | ⟨h₁, h₂⟩
    · have hr : (0 : ℚ) ≤ r := by exact_mod_cast h₁
      have hlt : (r : ℚ) < b := by exact_mod_cast h₂
      have hpos : (0 : ℚ) < b := hr.trans_lt hlt
      exact ⟨div_nonneg hr hpos.le, (div_lt_one hpos).2 hlt⟩
    · have hr : (r : ℚ) ≤ 0 := by exact_mod_cast h₂
      have hlt : (b : ℚ) < r := by exact_mod_cast h₁
      have hneg : (b : ℚ) < 0 := hlt.trans_le hr
      exact ⟨div_nonneg_of_nonpos hr hneg.le, (div_lt_one_of_neg hneg).2 hlt⟩
  constructor <;> linarith [hpart.1, hpart.2]

/-- What an operation that divides is to answer, the remainder or the quotient. -/
theorem Floored.onIntegers (h : Floored a b q r) (hop : op.divides) :
    op.onIntegers a b = if op = .rem then r else q := by
  have hsum := h.sum
  cases op with
  | div | quo => exact h.quotient
  | rem =>
    rw [Arith.onIntegers, h.quotient, if_pos rfl]
    omega
  | _ => cases hop

/-- Whether a remainder by a quotient that is rounded to zero calls for a correction. -/
def Astray (b r : Int) : Prop :=
  r ≠ 0 ∧ (r < 0) ≠ (b < 0)

instance : Decidable (Astray b r) := by
  unfold Astray
  infer_instance

theorem natAbs_tmod_lt (a : Int) (hb : b ≠ 0) : (a.tmod b).natAbs < b.natAbs := by
  rw [Int.natAbs_tmod]
  exact Nat.mod_lt _ (Int.natAbs_pos.2 hb)

/-- A quotient that is rounded to zero and its remainder, both corrected where that is called
    for. -/
theorem floored_corrected (a : Int) (hb : b ≠ 0) :
    Floored a b (if Astray b (a.tmod b) then a.tdiv b - 1 else a.tdiv b)
      (if Astray b (a.tmod b) then a.tmod b + b else a.tmod b) := by
  have hsum := Int.mul_tdiv_add_tmod a b
  have hlt := natAbs_tmod_lt a hb
  split
  · rename_i h
    simp only [Astray, ne_eq, eq_iff_iff] at h
    refine ⟨?_, by omega⟩
    rw [Int.mul_sub, Int.mul_one]
    omega
  · rename_i h
    simp only [Astray, ne_eq, eq_iff_iff] at h
    exact ⟨hsum.symm, by omega⟩

/-! ### On big integers -/

theorem promoted_of_divides (hop : op.divides) (a b : Int) : promoted op a b =
    if op = .rem then (if Astray b (a.tmod b) then a.tmod b + b else a.tmod b)
    else if Astray b (a.tmod b) then a.tdiv b - 1 else a.tdiv b := by
  have hcorrected : promoted op a b =
      if op = .rem
      then (if Astray b (a.tmod b) then (a.tdiv b - 1, a.tmod b + b) else (a.tdiv b, a.tmod b)).2
      else (if Astray b (a.tmod b) then (a.tdiv b - 1, a.tmod b + b) else
        (a.tdiv b, a.tmod b)).1 := by
    cases op with
    | div | quo | rem => rfl
    | _ => cases hop
  rw [hcorrected, apply_ite Prod.fst, apply_ite Prod.snd]

/-- On big integers every operation is that of mathematics. -/
theorem promoted_eq_onIntegers (h : ¬ (op.divides ∧ b = 0)) :
    promoted op a b = op.onIntegers a b := by
  by_cases hop : op.divides
  · have hb : b ≠ 0 := fun hb => h ⟨hop, hb⟩
    rw [promoted_of_divides hop, (floored_corrected a hb).onIntegers hop]
  · cases op with
    | add | sub | mul => rfl
    | _ => cases hop rfl

/-! ### On 64 bits -/

/-- Of two small integers the quotient that is rounded to zero is small, but for one pair. -/
theorem truncated?_eq_none (hy : y ≠ 0) (h : truncated? x y = none) :
    x = Int64.minValue ∧ y = -1 := by
  have hy : y.toInt ≠ 0 := fun h0 => hy (Int64.toInt_inj.1 h0)
  have hx := fits_toInt x
  have hquotient : (x.toInt.tdiv y.toInt).natAbs = x.toInt.natAbs / y.toInt.natAbs :=
    Int.natAbs_tdiv _ _
  have hnot : ¬ Fits (x.toInt.tdiv y.toInt) := small?_eq_none_iff.1 h
  have hle : x.toInt.natAbs / y.toInt.natAbs ≤ x.toInt.natAbs := Nat.div_le_self _ _
  unfold Fits at hx hnot
  have hone : y.toInt.natAbs = 1 := by
    by_contra hne
    have : x.toInt.natAbs / y.toInt.natAbs ≤ x.toInt.natAbs / 2 :=
      Nat.div_le_div_left (by omega) (by omega)
    omega
  have hminus : y.toInt = -1 := by
    by_contra hne
    have hone : y.toInt = 1 := by omega
    rw [hone, Int.tdiv_one] at hnot
    exact hnot hx
  rw [hminus, Int.tdiv_neg, Int.tdiv_one] at hnot
  refine ⟨Int64.toInt_inj.1 ?_, Int64.toInt_inj.1 hminus⟩
  show x.toInt = -2 ^ 63
  omega

/-- A remainder that is not zero has the sign of the dividend. -/
theorem astray_tmod_iff (a b : Int) :
    Astray b (a.tmod b) ↔ a.tmod b ≠ 0 ∧ (a < 0) ≠ (b < 0) := by
  have hsign : 0 ≤ a ∧ 0 ≤ a.tmod b ∨ a < 0 ∧ a.tmod b ≤ 0 := by
    rcases lt_or_ge a 0 with h | h
    · have hneg := Int.tmod_nonneg b (Int.neg_nonneg_of_nonpos h.le)
      rw [Int.neg_tmod] at hneg
      exact .inr ⟨h, by omega⟩
    · exact .inl ⟨h, Int.tmod_nonneg b h⟩
  simp only [Astray, ne_eq, eq_iff_iff]
  omega

theorem toInt_eq_zero : x.toInt = 0 ↔ x = 0 :=
  Int64.toInt_inj (y := 0)

theorem toInt_lt_zero : x.toInt < 0 ↔ x < 0 :=
  (Int64.lt_iff_toInt_lt (y := 0)).symm

/-- On 64 bits a quotient is corrected where its remainder is. -/
theorem astray_iff (x y : Int64) :
    Astray y.toInt (x.toInt.tmod y.toInt) ↔ x % y ≠ 0 ∧ (x < 0) ≠ (y < 0) := by
  rw [astray_tmod_iff, ← Int64.toInt_mod, ne_eq, ne_eq, toInt_eq_zero, toInt_lt_zero,
    toInt_lt_zero]

theorem astray_mod_iff (x y : Int64) :
    Astray y.toInt (x.toInt.tmod y.toInt) ↔ x % y ≠ 0 ∧ (x % y < 0) ≠ (y < 0) := by
  rw [Astray, ← Int64.toInt_mod, ne_eq, ne_eq, toInt_eq_zero, toInt_lt_zero, toInt_lt_zero]

/-- No correction leaves 64 bits. -/
theorem fits_corrected (hy : y ≠ 0) (h : Astray y.toInt (x.toInt.tmod y.toInt)) :
    Fits (x.toInt.tdiv y.toInt - 1) ∧ Fits (x.toInt.tmod y.toInt + y.toInt) := by
  have hy : y.toInt ≠ 0 := mt toInt_eq_zero.1 hy
  have hx := fits_toInt x
  have hb := fits_toInt y
  have hlt := natAbs_tmod_lt x.toInt hy
  simp only [Astray, ne_eq, eq_iff_iff] at h
  -- Something is left, so the divisor is neither one nor minus one.
  have hquotient : (x.toInt.tdiv y.toInt).natAbs = x.toInt.natAbs / y.toInt.natAbs :=
    Int.natAbs_tdiv _ _
  have hhalf : x.toInt.natAbs / y.toInt.natAbs ≤ x.toInt.natAbs / 2 :=
    Nat.div_le_div_left (by omega) (by omega)
  unfold Fits at *
  constructor <;> omega

theorem toInt_add (h : Fits (x.toInt + y.toInt)) : (x + y).toInt = x.toInt + y.toInt := by
  rw [Int64.toInt_add]
  refine Int.bmod_eq_of_le ?_ ?_ <;> unfold Fits at h <;> omega

theorem floorDiv?_eq (h : floorDiv? x y = some z) :
    z.toInt = if Astray y.toInt (x.toInt.tmod y.toInt) then x.toInt.tdiv y.toInt - 1
      else x.toInt.tdiv y.toInt := by
  rw [floorDiv?] at h
  split at h
  · cases h
  · rename_i q hq
    have hq : q.toInt = x.toInt.tdiv y.toInt := toInt_of_small? hq
    simp only [← astray_iff] at h
    split at h
    · rename_i hastray
      rw [if_pos hastray, ← hq]
      exact toInt_of_small? h
    · rename_i hastray
      rw [if_neg hastray, ← hq, Option.some.inj h]

theorem floorMod?_eq (hy : y ≠ 0) (h : floorMod? x y = some z) :
    z.toInt = if Astray y.toInt (x.toInt.tmod y.toInt) then x.toInt.tmod y.toInt + y.toInt
      else x.toInt.tmod y.toInt := by
  rw [floorMod?] at h
  split at h
  · cases h
  · simp only [← astray_mod_iff] at h
    split at h
    · rename_i hastray
      rw [if_pos hastray, ← Int64.toInt_mod, ← Option.some.inj h]
      refine toInt_add ?_
      rw [Int64.toInt_mod]
      exact (fits_corrected hy hastray).2
    · rename_i hastray
      rw [if_neg hastray, ← Int64.toInt_mod, Option.some.inj h]

/-- What an operation on 64 bits comes to is the result of the other path. -/
theorem promoted_of_checked? (h : ¬ (op.divides ∧ y = 0)) (hz : checked? op x y = some z) :
    promoted op x.toInt y.toInt = z.toInt := by
  by_cases hop : op.divides
  · have hy : y ≠ 0 := fun hy => h ⟨hop, hy⟩
    rw [promoted_of_divides hop]
    cases op with
    | div | quo => exact (floorDiv?_eq hz).symm
    | rem => exact (floorMod?_eq hy hz).symm
    | _ => cases hop
  · have hop : op.divides = false := Bool.eq_false_iff.2 hop
    rw [checked?_eq hop] at hz
    rw [promoted_eq hop, toInt_of_small? hz]

theorem floorDiv?_eq_none (hy : y ≠ 0) (h : floorDiv? x y = none) :
    x = Int64.minValue ∧ y = -1 := by
  rw [floorDiv?] at h
  split at h
  · exact truncated?_eq_none hy ‹_›
  · rename_i q hq
    have hq : q.toInt = x.toInt.tdiv y.toInt := toInt_of_small? hq
    simp only [← astray_iff] at h
    split at h
    · rename_i hastray
      exact absurd (hq ▸ (fits_corrected hy hastray).1) (small?_eq_none_iff.1 h)
    · cases h

theorem floorMod?_eq_none (hy : y ≠ 0) (h : floorMod? x y = none) :
    x = Int64.minValue ∧ y = -1 := by
  rw [floorMod?] at h
  split at h
  · exact truncated?_eq_none hy ‹_›
  · dsimp only at h
    split at h <;> cases h

/-- An operation on 64 bits is given up only where the result does not fit, or for the remainder of
    the least integer by minus one. -/
theorem not_fits_of_checked? (h : ¬ (op.divides ∧ y = 0)) (hz : checked? op x y = none) :
    ¬ Fits (promoted op x.toInt y.toInt) ∨ op = .rem ∧ x = Int64.minValue ∧ y = -1 := by
  by_cases hop : op.divides
  · have hy : y ≠ 0 := fun hy => h ⟨hop, hy⟩
    cases op with
    | div | quo =>
      obtain ⟨rfl, rfl⟩ := floorDiv?_eq_none hy hz
      exact .inl (by decide)
    | rem => exact .inr ⟨rfl, floorMod?_eq_none hy hz⟩
    | _ => cases hop
  · have hop : op.divides = false := Bool.eq_false_iff.2 hop
    rw [checked?_eq hop] at hz
    rw [promoted_eq hop]
    exact .inl (small?_eq_none_iff.1 hz)

/-! ### On values -/

/-- What is true of an operation on two small integers, for a divisor that is not zero. -/
structure OnWords (op : Arith) (x y : Int64) : Prop where
  /-- The fast path comes to what the other one comes to. -/
  agrees : ∀ z, checked? op x y = some z → promoted op x.toInt y.toInt = z.toInt
  /-- It is given up only where the result does not fit, and for one remainder. -/
  declines : checked? op x y = none →
    ¬ Fits (promoted op x.toInt y.toInt) ∨ op = .rem ∧ x = Int64.minValue ∧ y = -1
  /-- Where a quotient that is rounded to zero fits, so does the remainder that goes with it. -/
  remainder : op.divides → ∀ q, truncated? x y = some q →
    x.toInt = y.toInt * q.toInt + (x % y).toInt
  /-- The corrected quotient fits. -/
  quotient : op.divides → ∀ q, truncated? x y = some q → x % y ≠ 0 → (x < 0) ≠ (y < 0) →
    Fits (q.toInt - 1)
  /-- The corrected remainder fits. -/
  corrected : op.divides → x % y ≠ 0 → (x % y < 0) ≠ (y < 0) →
    (x % y + y).toInt = (x % y).toInt + y.toInt

theorem onWords (h : ¬ (op.divides ∧ y = 0)) : OnWords op x y := by
  refine ⟨fun z => promoted_of_checked? h, not_fits_of_checked? h, fun _ q hq => ?_,
    fun hop q hq hne hsign => ?_, fun hop hne hsign => ?_⟩
  · rw [toInt_of_small? hq, Int64.toInt_mod]
    exact (Int.mul_tdiv_add_tmod _ _).symm
  · rw [toInt_of_small? hq]
    exact (fits_corrected (fun hy => h ⟨hop, hy⟩) ((astray_iff x y).2 ⟨hne, hsign⟩)).1
  · refine toInt_add ?_
    rw [Int64.toInt_mod]
    exact (fits_corrected (fun hy => h ⟨hop, hy⟩) ((astray_mod_iff x y).2 ⟨hne, hsign⟩)).2

/-- What is true of an operation on the values `a` and `b`, which stand for `x` and `y`. -/
structure ExactOn (op : Arith) (a b : Value) (x y : Int) : Prop where
  fails : integer op a b = .divisionByZero ↔ op.divides ∧ y = 0
  answers : ¬ (op.divides ∧ y = 0) →
    ∃ v, integer op a b = .value v ∧ v.IsCanonical (op.onIntegers x y)
  increments : ∃ v, step true a = .value v ∧ v.IsCanonical (x + 1)
  decrements : ∃ v, step false a = .value v ∧ v.IsCanonical (x - 1)
  words : ∀ s t : Int64, a = .int s → b = .int t → ¬ (op.divides ∧ t = 0) → OnWords op s t

theorem integer_of_zero {v u : Value} (hv : v.integer? = some a) (hu : u.integer? = some b)
    (h : op.divides ∧ b = 0) : integer op v u = .divisionByZero := by
  obtain ⟨hop, rfl⟩ := h
  unfold integer
  split
  · rename_i x y
    have hy : y = 0 := toInt_eq_zero.1 (Option.some.inj hu)
    rw [hop, hy]
    rfl
  · rw [hv, hu, hop]
    rfl

theorem integer_eq {v u : Value} (hv : v.integer? = some a) (hu : u.integer? = some b)
    (h : ¬ (op.divides ∧ b = 0)) : integer op v u = .value (reduce (op.onIntegers a b)) := by
  rw [← promoted_eq_onIntegers h]
  unfold integer
  split
  · rename_i x y
    obtain rfl : x.toInt = a := Option.some.inj hv
    obtain rfl : y.toInt = b := Option.some.inj hu
    rw [toInt_eq_zero] at h
    rw [if_neg (by simpa using h)]
    split
    · rename_i z hz
      rw [promoted_of_checked? h hz, reduce_toInt]
    · rfl
  · rw [hv, hu]
    exact if_neg (by simpa using h)

theorem step_eq {v : Value} (hv : v.integer? = some a) (up : Bool) :
    step up v = .value (reduce (if up then a + 1 else a - 1)) := by
  have hone : (.int 1 : Value).integer? = some 1 := rfl
  have hstep : step up v = integer (if up then .add else .sub) v (.int 1) := by
    cases v <;> first | rfl | cases hv
  rw [hstep, integer_eq hv hone (by cases up <;> nofun)]
  cases up <;> rfl

/-- Arithmetic on integers is exact and its results are canonical, whatever the operands are and
    whichever path is taken. -/
theorem integer_exact (op : Arith) {v u : Value} (hv : v.integer? = some a)
    (hu : u.integer? = some b) : ExactOn op v u a b := by
  refine ⟨⟨fun hzero => ?_, integer_of_zero hv hu⟩, fun h => ?_, ?_, ?_, fun s t _ _ => onWords⟩
  · by_contra h
    rw [integer_eq hv hu h] at hzero
    cases hzero
  · exact ⟨_, integer_eq hv hu h, isCanonical_reduce _⟩
  · exact ⟨_, step_eq hv true, isCanonical_reduce _⟩
  · exact ⟨_, step_eq hv false, isCanonical_reduce _⟩

/-- The remainder of the least small integer by minus one, which 64 bits do not come to. -/
theorem integer_exact_least : (.int Int64.minValue : Value).integer? = some (-2 ^ 63) ∧
    (.int (-1) : Value).integer? = some (-1) ∧
      ExactOn .rem (.int Int64.minValue) (.int (-1)) (-2 ^ 63) (-1) :=
  ⟨rfl, rfl, integer_exact .rem rfl rfl⟩

end Number

end Parley
