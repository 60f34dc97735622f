import Parley.Value

/-!
# Arithmetic

Integers are exact: a result that fits is a small integer and any other a big one. Operations
on small integers are tried on 64 bits first; where that overflows, the operation is *promoted*
and done on big integers. Doubles are those of the processor, and an integer next to a double is
widened to the nearest double. Division is floored, so a remainder has the sign of the divisor.
-/

namespace Parley

/-- The arithmetic operations. -/
inductive Arith where
  | add
  | sub
  | mul
  /-- The quotient of two doubles; on integers the same as `quo`. -/
  | div
  /-- The floored quotient. -/
  | quo
  /-- What the floored quotient leaves. -/
  | rem
deriving DecidableEq, Inhabited

/-- The comparisons. -/
inductive Comparison where
  | lt
  | le
  | gt
  | ge
  | eq
  | ne
deriving DecidableEq, Inhabited

namespace Arith

/-- The name of an operation in traces. -/
def name : Arith → String
  | .add => "Add"
  | .sub => "Sub"
  | .mul => "Mul"
  | .div => "Div"
  | .quo => "Quo"
  | .rem => "Rem"

/-- Whether an operation divides. -/
def divides : Arith → Bool
  | .div | .quo | .rem => true
  | _ => false

/-- The operation on integers, for a divisor that is not zero. -/
def exact : Arith → Int → Int → Int
  | .add, a, b => a + b
  | .sub, a, b => a - b
  | .mul, a, b => a * b
  | .div, a, b | .quo, a, b => a.fdiv b
  | .rem, a, b => a.fmod b

end Arith

/-- Whether an order of two numbers is one that a comparison asks for. -/
def Comparison.holds (c : Comparison) (o : Ordering) : Bool :=
  match c with
  | .lt => o == .lt
  | .le => o != .gt
  | .gt => o == .gt
  | .ge => o != .lt
  | .eq => o == .eq
  | .ne => o != .eq

namespace Number

/-- The small integer with a value, if there is one. -/
def small? (i : Int) : Option Int64 :=
  if -(Int.pow 2 63) ≤ i ∧ i < Int.pow 2 63 then some (Int64.ofInt i) else none

/-- The value of an integer: small if it fits. -/
def reduce (i : Int) : Value :=
  match small? i with
  | some s => .int s
  | none => .big i

/-! ### On 64 bits -/

/-- The quotient rounded to zero; none where it does not fit. -/
def truncated? (a b : Int64) : Option Int64 :=
  small? (a.toInt.tdiv b.toInt)

/-- The floored quotient on 64 bits: the quotient rounded to zero, one less where the signs
    differ and something is left. -/
def floorDiv? (a b : Int64) : Option Int64 :=
  match truncated? a b with
  | none => none
  | some q => if a % b ≠ 0 ∧ (a < 0) ≠ (b < 0) then small? (q.toInt - 1) else some q

/-- The floored remainder on 64 bits. It overflows exactly where the quotient does. -/
def floorMod? (a b : Int64) : Option Int64 :=
  match truncated? a b with
  | none => none
  | some _ =>
    let r := a % b
    if r ≠ 0 ∧ (r < 0) ≠ (b < 0) then some (r + b) else some r

/-- An operation on 64 bits, for a divisor that is not zero; none on overflow. -/
def checked? (op : Arith) (a b : Int64) : Option Int64 :=
  match op with
  | .add => small? (a.toInt + b.toInt)
  | .sub => small? (a.toInt - b.toInt)
  | .mul => small? (a.toInt * b.toInt)
  | .div | .quo => floorDiv? a b
  | .rem => floorMod? a b

/-! ### On big integers -/

/-- An operation on big integers: a quotient rounded to zero and its remainder, both corrected
    where the remainder and the divisor differ in sign. -/
def promoted (op : Arith) (a b : Int) : Int :=
  match op with
  | .add => a + b
  | .sub => a - b
  | .mul => a * b
  | .div | .quo | .rem =>
    let q := a.tdiv b
    let r := a.tmod b
    let (q, r) := if r ≠ 0 ∧ (r < 0) ≠ (b < 0) then (q - 1, r + b) else (q, r)
    if op = .rem then r else q

/-! ### On values -/

/-- The outcome of an arithmetic operation. -/
inductive Result where
  | value (v : Value)
  | divisionByZero
  /-- An operand is of a kind that the operation does not take. -/
  | inapplicable
deriving DecidableEq, Inhabited

/-- An operation on two integers. -/
def integer (op : Arith) (a b : Value) : Result :=
  match a, b with
  | .int x, .int y =>
    if op.divides && y == 0 then .divisionByZero
    else match checked? op x y with
      | some z => .value (.int z)
      | none => .value (reduce (promoted op x.toInt y.toInt))
  | a, b =>
    match a.integer?, b.integer? with
    | some x, some y =>
      if op.divides && y == 0 then .divisionByZero else .value (reduce (promoted op x y))
    | _, _ => .inapplicable

/-- Whether an operation on two small integers overflows 64 bits. -/
def overflows (op : Arith) (a b : Int64) : Bool :=
  !(op.divides && b == 0) && (checked? op a b).isNone

/-- A number as a double. -/
def double? : Value → Option Double
  | .int i => some (.ofInt i.toInt)
  | .big i => some (.ofInt i)
  | .double d => some d
  | _ => none

/-- An operation on two doubles. -/
def onDoubles (op : Arith) (x y : Double) : Double :=
  match op with
  | .add => x.add y
  | .sub => x.sub y
  | .mul => x.mul y
  | .div => x.div y
  | .quo => (x.div y).floor
  | .rem => x.sub (y.mul (x.div y).floor)

/-- An operation on two numbers, both taken as doubles. -/
def double (op : Arith) (a b : Value) : Result :=
  match double? a, double? b with
  | some x, some y => .value (.double (onDoubles op x y))
  | _, _ => .inapplicable

/-- The order of two numbers: exact for integers, and as doubles where one of them is one. -/
def order? (a b : Value) : Option Ordering :=
  match a, b with
  | .int x, .int y => some (compare x y)
  | .double _, _ | _, .double _ =>
    match double? a, double? b with
    | some x, some y => x.compare? y
    | _, _ => none
  | _, _ =>
    match a.integer?, b.integer? with
    | some x, some y => some (compare x y)
    | _, _ => none

/-- A comparison of two numbers; none where they have no order. -/
def compare? (c : Comparison) (a b : Value) : Option Bool :=
  (order? a b).map c.holds

/-- A number plus one, or minus one. -/
def step (up : Bool) (v : Value) : Result :=
  let op : Arith := if up then .add else .sub
  match v with
  | .int _ | .big _ => integer op v (.int 1)
  | .double d => .value (.double (onDoubles op d (.ofInt 1)))
  | _ => .inapplicable

end Number

end Parley
