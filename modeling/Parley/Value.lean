import Parley.Double
import Parley.Selector

/-!
# Values

What a program computes with. Nil, Booleans, numbers and symbols are values by themselves;
strings, arrays, blocks, instances and classes have an identity of their own. A string carries
its characters and the number of the place where it was made; the text of a symbol is one
string for all who ask for it. Everything else with identity lies in the heap or the class
table, and a value only refers to it.

Two relations compare values. Identity tells apart whatever can be told apart at all; equality
compares strings by their characters, doubles as numbers and integers by their value.
-/

namespace Parley

/-- A place in the table of classes. -/
abbrev ClassRef := Nat

/-- A place in the heap of arrays. -/
abbrev ArrayRef := Nat

/-- A place in the heap of closures. -/
abbrev BlockRef := Nat

/-- A place in the heap of instances. -/
abbrev ObjectRef := Nat

/-- A place in the heap of frames. -/
abbrev FrameRef := Nat

/-- Whose characters a string shows. -/
inductive Owner where
  /-- A string of its own, numbered in the order of making. -/
  | string (n : Nat)
  /-- The symbol with these characters. -/
  | symbol
deriving DecidableEq, Inhabited

/-- A value. -/
inductive Value where
  | nil
  | bool (b : Bool)
  /-- A small integer. -/
  | int (i : Int64)
  /-- A big integer; one that fits into a small integer only if it was made so on purpose. -/
  | big (i : Int)
  | double (d : Double)
  | string (owner : Owner) (s : String)
  | symbol (s : Selector)
  | array (a : ArrayRef)
  | block (b : BlockRef)
  | object (o : ObjectRef)
  | classRef (c : ClassRef)
deriving DecidableEq, Inhabited

namespace Value

/-- The name of the kind of a value, as error messages give it. -/
def typeName : Value → String
  | .nil => "Nil"
  | .bool true => "True"
  | .bool false => "False"
  | .int _ | .big _ => "Integer"
  | .double _ => "Double"
  | .string _ _ => "String"
  | .symbol _ => "Symbol"
  | .array _ => "Array"
  | .block _ => "Block"
  | .object _ => "Object"
  | .classRef _ => "Class"

/-- Whether a value is nil. -/
def isNil : Value → Bool
  | .nil => true
  | _ => false

/-- The integer that a value stands for. -/
def integer? : Value → Option Int
  | .int i => some i.toInt
  | .big i => some i
  | _ => none

/-- Identity: whether two values are the same thing. A small and a big integer are not, even
    where they stand for the same number. -/
def same (a b : Value) : Bool :=
  a = b

/-- Equality: strings by their characters, doubles as numbers, integers by their value, all
    else by identity. -/
def equals (a b : Value) : Bool :=
  match a, b with
  | .string _ s, .string _ t => s = t
  | .double x, .double y => x.compare? y = some .eq
  | a, b =>
    match a.integer?, b.integer? with
    | some i, some j => i = j
    | _, _ => a.same b

/-- The characters of a string or symbol. -/
def chars? : Value → Option String
  | .string _ s | .symbol s => some s
  | _ => none

end Value

end Parley
