import Parley.Text.Alphabetic

/-!
# Selectors

A message is named by its selector. A selector that begins with a letter or an underscore is a
word: it takes one argument for each colon in it. Any other selector is an operator with one
argument, except the empty one, which takes none.
-/

namespace Parley

/-- The name of a message, or of anything else that a program can name. -/
abbrev Selector := String

/-- How many arguments a message with this selector takes, the receiver not counted. -/
def Selector.arity (s : Selector) : Nat :=
  match s.toList with
  | [] => 0
  | c :: rest => if Text.isAlphabetic c || c == '_' then (c :: rest).count ':' else 1

/-- A selector or symbol in listings, after a number sign. -/
def Selector.hashed (s : Selector) : String :=
  "#" ++ s

end Parley
