import Parley.Program

/-!
# Names in scope

A name denotes the innermost variable of that name. In each scope the locals come before the
parameters; a name that no scope declares is a field of the class the method is compiled for, and
failing that a global. The pseudo variables come before everything else and cannot be declared
away. Scopes are counted outwards from the innermost one, and the receiver and its fields are
reached through the outermost, the scope of the method.
-/

namespace Parley

/-- The names that a scope declares. Argument zero, the receiver of a method or the block itself,
    has a name that cannot be used for it. -/
structure Scope where
  arguments : List String
  locals : List String

/-- What a name denotes at the place where it is used. -/
inductive Denotation where
  | receiver (level : UInt8)
  | argument (slot level : UInt8)
  | temporary (slot level : UInt8)
  | field (index level : UInt8)
  | constant (v : Value)
  | global (name : String)
deriving DecidableEq, Inhabited

namespace Scope

/-- The pseudo variables, given the level of the method. -/
def pseudo? (level : UInt8) : String → Option Denotation
  | "self" => some (.receiver level)
  | "super" => some (.receiver level)
  | "nil" => some (.constant .nil)
  | "true" => some (.constant (.bool true))
  | "false" => some (.constant (.bool false))
  | _ => none

/-- The variable of a name in one scope. -/
def declared? (s : Scope) (level : UInt8) (name : String) : Option Denotation :=
  match s.locals.idxOf? name with
  | some slot => some (.temporary (UInt8.ofNat slot) level)
  | none =>
    ((s.arguments.drop 1).idxOf? name).map fun slot => .argument (UInt8.ofNat (slot + 1)) level

/-- The variable of a name in the scopes given, innermost first; `level` is that of the first. -/
def visible? (name : String) : (level : Nat) → List Scope → Option Denotation
  | _, [] => none
  | level, s :: outer =>
    match s.declared? (UInt8.ofNat level) name with
    | some d => some d
    | none => visible? name (level + 1) outer

/-- What a name denotes in nested scopes, innermost first, of a method compiled for a class with
    the fields given. -/
def resolve (scopes : List Scope) (fields : List String) (name : String) : Denotation :=
  let method := UInt8.ofNat (scopes.length - 1)
  match pseudo? method name with
  | some d => d
  | none =>
    match visible? name 0 scopes with
    | some d => d
    | none =>
      match fields.idxOf? name with
      | some index => .field (UInt8.ofNat index) method
      | none => .global name

end Scope

end Parley
