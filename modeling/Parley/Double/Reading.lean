import Parley.Double

/-!
# Reading numbers

Integers and decimals as texts. A decimal has digits with at most one point among them, and may
have a sign in front and an exponent behind; the words for infinity and for no number are read
in any case. A decimal is read as the double nearest to it.
-/

namespace Parley

/-- The value of a list of decimal digits; none if it is empty or holds anything else. -/
def natural? (digits : List Char) : Option Nat :=
  if digits.isEmpty || !digits.all Char.isDigit then none
  else some (digits.foldl (fun n c => 10 * n + (c.toNat - '0'.toNat)) 0)

/-- Splits a sign off the front, true for a minus. -/
def signed : List Char → Bool × List Char
  | '-' :: rest => (true, rest)
  | '+' :: rest => (false, rest)
  | rest => (false, rest)

/-- Reads an integer with an optional sign. -/
def integer? (s : String) : Option Int :=
  let (negative, digits) := signed s.toList
  (natural? digits).map fun n => if negative then -(n : Int) else n

namespace Double

/-- The double nearest to `digits · 10^exponent`. A decimal whose point lies more than 400
    places off is infinite or zero anyway, so no larger power of ten is formed. -/
def ofScaled (negative : Bool) (digits : Nat) (exponent : Int) : Double :=
  let size : Int := (Nat.toDigits 10 digits).length
  if digits = 0 ∨ size + exponent < -400 then nearest negative 0 1
  else if 400 < size + exponent then infinity negative
  else nearest negative (digits * Nat.pow 10 exponent.toNat) (Nat.pow 10 (-exponent).toNat)

/-- The exponent behind a decimal, zero if there is none. -/
def exponent? : List Char → Option Int
  | [] => some 0
  | c :: rest =>
    if c = 'e' ∨ c = 'E' then
      let (negative, digits) := signed rest
      (natural? digits).map fun n => if negative then -(n : Int) else n
    else none

/-- Reads a decimal without its sign. -/
def unsigned? (negative : Bool) (s : List Char) : Option Double :=
  let whole := s.takeWhile Char.isDigit
  let (fraction, rest) := match s.dropWhile Char.isDigit with
    | '.' :: rest => (rest.takeWhile Char.isDigit, rest.dropWhile Char.isDigit)
    | rest => ([], rest)
  match natural? (whole ++ fraction), exponent? rest with
  | some digits, some exponent => some (ofScaled negative digits (exponent - fraction.length))
  | _, _ => none

/-- Reads a double. -/
def ofText? (s : String) : Option Double :=
  let (negative, rest) := signed s.toList
  match String.ofList (rest.map Char.toLower) with
  | "nan" => some (nan negative)
  | "inf" | "infinity" => some (infinity negative)
  | _ => unsigned? negative rest

end Double

end Parley
