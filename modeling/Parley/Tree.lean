import Parley.Double.Notation
import Parley.Selector

/-!
# Method trees

The input of the compiler. There is no concrete notation to read: hosts build trees. A tree can
be rendered for diagnostics; a keyword message is written with its arguments between the parts
of its selector, and a message whose arguments do not fit its selector with the first argument
only.
-/

namespace Parley

/-- A constant written in a tree. -/
inductive Constant where
  | nil
  | bool (b : Bool)
  | int (i : Int64)
  | double (d : Double)
  | string (s : String)
  | symbol (s : Selector)

/-- An expression, also in the place of a statement. -/
inductive Expr where
  | constant (c : Constant)
  /-- A variable that is read; the names of the pseudo variables are reserved. -/
  | variable (name : String)
  | assign (name : String) (value : Expr)
  | send (receiver : Expr) (selector : Selector) (arguments : List Expr)
  /-- A message to the receiver of the method, looked up above the class of the method. -/
  | superSend (selector : Selector) (arguments : List Expr)
  | block (parameters locals : List String) (body : List Expr)
  /-- Leaves the method with a value, from inside a block too. -/
  | leave (value : Expr)

/-- A method before compilation. -/
structure MethodTree where
  selector : Selector
  parameters : List String
  locals : List String
  body : List Expr

/-! ### Rendering -/

/-- The text of a constant. -/
def Constant.text : Constant → String
  | .nil => "nil"
  | .bool b => if b then "true" else "false"
  | .int i => i.toInt.repr
  | .double d => d.text
  | .string s => "'" ++ s ++ "'"
  | .symbol s => s.hashed

/-- The parts of a keyword selector, each with its colon; the rest after the last colon is a
    part of its own. -/
def Selector.parts (s : Selector) : List String :=
  go s.toList []
where
  /-- The parts of the characters left, the current part held in reverse. -/
  go : List Char → List Char → List String
    | [], [] => []
    | [], part => [String.ofList part.reverse]
    | ':' :: rest, part => String.ofList (':' :: part).reverse :: go rest []
    | c :: rest, part => go rest (c :: part)

/-- The text of a message, given the texts of its arguments. -/
def messageText (selector : Selector) (arguments : List String) : String :=
  match arguments with
  | [] => " " ++ selector
  | first :: _ =>
    let parts := selector.parts
    if parts.length = arguments.length ∧ selector.endsWith ":" then
      String.join (List.zipWith (fun p a => " " ++ p ++ " " ++ a) parts arguments)
    else
      " " ++ selector ++ " " ++ first

/-- The text of a block, given the texts of its statements. -/
def blockText (parameters locals : List String) (statements : List String) : String :=
  String.join (parameters.map fun p => ":" ++ p ++ " ")
    ++ (if parameters.isEmpty then "" else "| ")
    ++ (if locals.isEmpty then "" else "| " ++ " ".intercalate locals ++ " | ")
    ++ ". ".intercalate statements

mutual

/-- The text of an expression. -/
def Expr.text : Expr → String
  | .constant c => c.text
  | .variable name => name
  | .assign name value => name ++ " := " ++ value.text
  | .send receiver selector arguments =>
    "(" ++ receiver.text ++ messageText selector (Expr.texts arguments) ++ ")"
  | .superSend selector arguments => "(super" ++ messageText selector (Expr.texts arguments) ++ ")"
  | .block parameters locals body => "[" ++ blockText parameters locals (Expr.texts body) ++ "]"
  | .leave value => "^" ++ value.text

/-- The texts of several expressions. -/
def Expr.texts : List Expr → List String
  | [] => []
  | e :: rest => e.text :: Expr.texts rest

end

/-- Whether an expression leaves the method as its last act. -/
def Expr.isLeave : Expr → Bool
  | .leave _ => true
  | _ => false

/-- Whether a body ends by leaving the method. -/
def endsByLeaving (body : List Expr) : Bool :=
  (body.getLast?.map Expr.isLeave).getD false

end Parley
