import Parley.Double

/-!
# Shortest decimals

Among the decimals that read back as a given double, the one with the fewest digits is written,
and of several with that few digits the nearest. The reals that round to `m · 2^q` form an
interval around it, which includes its ends exactly if `m` is even. For one, two, … digits the
two neighbours of the double on the decimal grid of that many digits are tested against the
interval; if any point of the grid lies inside, one of these two does.
-/

namespace Parley.Double

/-- A positive decimal `digits · 10^exponent`. -/
structure Scaled where
  digits : Nat
  exponent : Int

/-- The reals that round to a double, as numerators over a common denominator. -/
structure Interval where
  low : Nat
  value : Nat
  high : Nat
  den : Nat
  /-- Whether the ends round to the double too. -/
  closed : Bool

/-- The rounding interval of the double `m · 2^(q - 1074)`. Below a power of two the
    neighbouring double is only half as far. -/
def interval (m q : Nat) : Interval :=
  let below := if m = Nat.pow 2 52 ∧ 0 < q then 1 else 2
  let up := if 1074 ≤ q then Nat.pow 2 (q - 1074) else 1
  let down := if 1074 ≤ q then 1 else Nat.pow 2 (1074 - q)
  { low := (4 * m - below) * up
    value := 4 * m * up
    high := (4 * m + 2) * up
    den := 4 * down
    closed := m % 2 = 0 }

namespace Interval

/-- The exponent `k` with `10^(k - 1) ≤ value < 10^k`. -/
def magnitude (i : Interval) : Int :=
  if i.den ≤ i.value then ((Nat.toDigits 10 (i.value / i.den)).length : Int)
  else
    let zeros := (List.range 400).find? fun j => i.den ≤ i.value * Nat.pow 10 j
    1 - (zeros.getD 400 : Int)

/-- Whether `digits · 10^exponent` rounds to the double. -/
def contains (i : Interval) (d : Scaled) : Bool :=
  let up := Nat.pow 10 d.exponent.toNat
  let down := Nat.pow 10 (-d.exponent).toNat
  let x := d.digits * up * i.den
  let low := i.low * down
  let high := i.high * down
  if i.closed then low ≤ x && x ≤ high else low < x && x < high

/-- The better of the two neighbours of the double on the grid of a power of ten, if one of
    them rounds to it. Halfway between them the upper one is taken. -/
def onGrid (i : Interval) (exponent : Int) : Option Scaled :=
  let num := i.value * Nat.pow 10 (-exponent).toNat
  let den := i.den * Nat.pow 10 exponent.toNat
  let floor : Scaled := ⟨num / den, exponent⟩
  let ceiling : Scaled := ⟨num / den + 1, exponent⟩
  match i.contains floor, i.contains ceiling with
  | true, true => some (if 2 * (num % den) < den then floor else ceiling)
  | true, false => some floor
  | false, true => some ceiling
  | false, false => none

/-- The first grid with a hit, from one digit to seventeen. -/
def shortest (i : Interval) : Scaled :=
  let k := i.magnitude
  let grids := (List.range 17).map fun n => k - (n + 1 : Nat)
  (grids.findSome? i.onGrid).getD ⟨i.value / i.den, 0⟩

end Interval

/-- Moves the zeros at the end of the digits into the exponent. -/
def Scaled.trimmed (d : Scaled) : Scaled :=
  let digits := Nat.toDigits 10 d.digits
  let dropped := (digits.reverse.takeWhile (· == '0')).length
  ⟨d.digits / Nat.pow 10 dropped, d.exponent + (dropped : Int)⟩

/-- The shortest decimal that reads back as the positive double `m · 2^(q - 1074)`. -/
def shortest (m q : Nat) : Scaled :=
  (interval m q).shortest.trimmed

end Parley.Double
