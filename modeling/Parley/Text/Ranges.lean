/-!
# Ranges of characters

A property of characters is given by a table: the ranges of code points that have it, both ends
included, in ascending order. A search stops at the first range that begins beyond the
character, so the characters that come first are also found first.
-/

namespace Parley.Text

/-- Ascending ranges of code points, both ends included. -/
abbrev Ranges := List (Nat × Nat)

namespace Ranges

/-- Whether a code point lies in one of the ranges. -/
def covers : Ranges → Nat → Bool
  | [], _ => false
  | (first, last) :: rest, n => if n < first then false else n ≤ last || covers rest n

/-- Whether a character lies in one of the ranges. -/
def holds (r : Ranges) (c : Char) : Bool :=
  r.covers c.toNat

end Ranges

end Parley.Text
