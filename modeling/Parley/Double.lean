/-!
# Doubles

A double is held as its 64 bits, so that it can be told apart from every other one, the two
zeros and the numbers that are none included. A finite double is `m · 2^(q - 1074)` for a
natural number `m` below `2^53`: `classify` takes it apart into that form, and `nearest` rounds
a fraction of two natural numbers to it, a tie to the even neighbour, in exact arithmetic.

Sums, products and quotients are those of the processor. Where an operand is not a number the
result is that operand, and a result that is not a number for any other reason is the
processor's own, which has its sign bit set.
-/

namespace Parley

/-- A number in the 64-bit binary format. -/
structure Double where
  bits : UInt64
deriving DecidableEq, Inhabited

namespace Double

/-- What a double is. -/
inductive Class where
  | nan
  | infinite
  /-- The magnitude `m · 2^(q - 1074)`. -/
  | finite (m q : Nat)

/-- Whether the sign bit is set. -/
def isNegative (x : Double) : Bool :=
  x.bits.toNat / Nat.pow 2 63 = 1

/-- Takes the magnitude of a double apart. -/
def classify (x : Double) : Class :=
  let bits := x.bits.toNat
  let exponent := bits / Nat.pow 2 52 % Nat.pow 2 11
  let fraction := bits % Nat.pow 2 52
  if exponent = 2047 then
    if fraction = 0 then .infinite else .nan
  else if exponent = 0 then .finite fraction 0
  else .finite (Nat.pow 2 52 + fraction) (exponent - 1)

/-- Whether a double is not a number. -/
def isNaN (x : Double) : Bool :=
  match x.classify with
  | .nan => true
  | _ => false

/-! ### Rounding -/

/-- The bits of positive infinity. -/
def infinityBits : Nat := 2047 * Nat.pow 2 52

/-- A quotient rounded to the nearest natural number, a tie to the even one. -/
def roundedQuotient (num den : Nat) : Nat :=
  let floor := num / den
  let twice := 2 * (num % den)
  if twice < den then floor
  else if den < twice then floor + 1
  else if floor % 2 = 0 then floor else floor + 1

/-- The bits of the double nearest to `num / den`. The scale `q` leaves 53 significant bits
    before rounding, or fewer below the smallest normal number; a significand that rounds up to
    `2^53` carries into the exponent by itself. -/
def nearestBits (num den : Nat) : Nat :=
  if num = 0 then 0
  else
    -- `num / den` lies strictly between `2^(e - 1)` and `2^(e + 1)`
    let e : Int := (Nat.log2 num : Int) - Nat.log2 den
    let scaled (q : Int) : Nat × Nat :=
      if 0 ≤ q then (num, den * Nat.pow 2 q.toNat) else (num * Nat.pow 2 (-q).toNat, den)
    let low : Int := max (e - 53) (-1074)
    let floorAtLow := (scaled low).1 / (scaled low).2
    let q : Int := if Nat.pow 2 53 ≤ floorAtLow then low + 1 else low
    let m := roundedQuotient (scaled q).1 (scaled q).2
    min infinityBits ((q + 1074).toNat * Nat.pow 2 52 + m)

/-- The double nearest to `num / den`, negated on demand. -/
def nearest (negative : Bool) (num den : Nat) : Double :=
  ⟨UInt64.ofNat ((if negative then Nat.pow 2 63 else 0) + nearestBits num den)⟩

/-- The double nearest to an integer; infinite beyond the largest double. -/
def ofInt (i : Int) : Double :=
  nearest (i < 0) i.natAbs 1

/-- Infinity of either sign. -/
def infinity (negative : Bool) : Double :=
  ⟨UInt64.ofNat ((if negative then Nat.pow 2 63 else 0) + infinityBits)⟩

/-- The text of a number that is none reads as this one. -/
def nan (negative : Bool) : Double :=
  ⟨UInt64.ofNat ((if negative then Nat.pow 2 63 else 0) + infinityBits + Nat.pow 2 51)⟩

/-! ### Arithmetic -/

/-- The double as a number of the processor. -/
def toFloat (x : Double) : Float :=
  Float.ofBits x.bits

/-- The result of an operation on two numbers, neither of which is missing. -/
def ofFloat (x : Float) : Double :=
  if x.isNaN then nan true else ⟨x.toBits⟩

/-- An operation of the processor on two doubles. -/
def binary (op : Float → Float → Float) (x y : Double) : Double :=
  if x.isNaN then x else if y.isNaN then y else ofFloat (op x.toFloat y.toFloat)

def add : Double → Double → Double := binary (· + ·)

def sub : Double → Double → Double := binary (· - ·)

def mul : Double → Double → Double := binary (· * ·)

def div : Double → Double → Double := binary (· / ·)

/-- The largest whole number that is not above the double. -/
def floor (x : Double) : Double :=
  if x.isNaN then x else ofFloat x.toFloat.floor

/-- The double with its sign turned round, also for zero and for no number. -/
def neg (x : Double) : Double :=
  ⟨x.bits ^^^ 0x8000000000000000⟩

/-- The order of two doubles; none if one of them is not a number. The two zeros are equal. -/
def compare? (x y : Double) : Option Ordering :=
  if x.isNaN || y.isNaN then none
  else if x.toFloat < y.toFloat then some .lt
  else if x.toFloat == y.toFloat then some .eq
  else some .gt

end Double

end Parley
