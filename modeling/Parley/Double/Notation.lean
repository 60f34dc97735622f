import Parley.Double.Shortest

/-!
# Writing doubles

A layout says where positional notation begins and ends. The machine has one layout: a double
from a ten-thousandth up to ten quadrillions is written in positions, always with a fraction;
one outside is written with an exponent, without a sign for a positive one.
-/

namespace Parley.Double

/-- The choices that the digits leave open. -/
structure Layout where
  /-- The least decimal exponent written in positions. -/
  least : Int
  /-- The least decimal exponent beyond `least` that is not written in positions. -/
  beyond : Int
  exponentMark : String
  nan : String
  infinity : String

/-- The layout of printed doubles. -/
def layout : Layout where
  least := -4
  beyond := 16
  exponentMark := "e"
  nan := "NaN"
  infinity := "inf"

/-- The digits with the point after the first `point` of them, and zeros where they do not
    reach the point. -/
def positional (digits : List Char) (point : Int) : List Char :=
  if point ≤ 0 then
    '0' :: '.' :: (List.replicate (-point).toNat '0' ++ digits)
  else if (digits.length : Int) ≤ point then
    digits ++ List.replicate (point.toNat - digits.length) '0' ++ ['.', '0']
  else
    digits.take point.toNat ++ '.' :: digits.drop point.toNat

/-- The digits with the point after the first one, without a point if there is only one. -/
def significand : List Char → List Char
  | [] => []
  | [d] => [d]
  | d :: rest => d :: '.' :: rest

/-- The text of a positive decimal. -/
def Layout.decimal (l : Layout) (d : Scaled) : String :=
  let digits := Nat.toDigits 10 d.digits
  let exponent : Int := d.exponent + digits.length - 1
  if l.least ≤ exponent ∧ exponent < l.beyond then
    String.ofList (positional digits (exponent + 1))
  else
    String.ofList (significand digits) ++ l.exponentMark ++ exponent.repr

/-- The text of a double. -/
def Layout.text (l : Layout) (x : Double) : String :=
  let sign := if x.isNegative then "-" else ""
  match x.classify with
  | .nan => l.nan
  | .infinite => sign ++ l.infinity
  | .finite 0 _ => sign ++ "0.0"
  | .finite m q => sign ++ l.decimal (shortest m q)

/-- The text of a double as the machine prints it. -/
def text (x : Double) : String :=
  layout.text x

end Parley.Double
