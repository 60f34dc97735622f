/-!
# Laying out text

Columns, separators and numbers of a fixed width, as the listings of the machine use them.
-/

namespace Parley.Text

/-- The text followed by blanks up to a width; a longer text stays as it is. -/
def padRight (width : Nat) (s : String) : String :=
  s ++ String.ofList (List.replicate (width - s.length) ' ')

/-- The decimal digits of a number, with zeros in front up to a width. -/
def padZeros (width n : Nat) : String :=
  let digits := Nat.repr n
  String.ofList (List.replicate (width - digits.length) '0') ++ digits

/-- The texts one after another with a separator between neighbours. -/
def joined (separator : String) (parts : List String) : String :=
  separator.intercalate parts

/-- The lines of a text; the empty line after a final line end is not one. -/
def lines (s : String) : List String :=
  match (s.splitOn "\n").reverse with
  | "" :: earlier => earlier.reverse
  | all => all.reverse

/-- The words `true` and `false`. -/
def truth (b : Bool) : String :=
  if b then "true" else "false"

end Parley.Text
