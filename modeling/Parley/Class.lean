import Parley.Directory
import Parley.Program
import Parley.Number

/-!
# Classes

Every class knows its superclasses, nearest first, so that the lookup of a method is a search
through a list. It has the fields of its superclass at the time it was made, then its own, and
a *layout*, which stands for the shape of its instances: a class gets a new layout whenever a
field is added. The class of a class is its metaclass; that of a metaclass is `Metaclass`.

What a lookup finds is a method or a primitive. Installing one starts a new *epoch*; whoever
remembers what a lookup found also remembers the epoch, and looks up again in a later one.
-/

namespace Parley

/-! ### Primitives -/

/-- An operation that a call site can be bound to without a lookup, because it does what a
    primitive does for the operands it takes. -/
inductive Shortcut where
  | arith (op : Arith)
  | compare (c : Comparison)
  | identical
  | isNil
  | notNil
  | not
  /-- Evaluates a block with this many arguments. -/
  | blockValue (arguments : Nat)
  /-- Counts from the receiver to a limit. -/
  | count
deriving DecidableEq, Inhabited

/-- The name of a shortcut in listings. -/
def Shortcut.name : Shortcut → String
  | .arith op => "Int" ++ op.name
  | .compare .lt => "IntLt"
  | .compare .le => "IntLe"
  | .compare .gt => "IntGt"
  | .compare .ge => "IntGe"
  | .compare .eq => "IntEq"
  | .compare .ne => "IntNe"
  | .identical => "Identical"
  | .isNil => "IsNil"
  | .notNil => "NotNil"
  | .not => "Not"
  | .blockValue 0 => "BlockValue"
  | .blockValue 1 => "BlockValue1"
  | .blockValue _ => "BlockValue2"
  | .count => "IntToDo"

/-- What a primitive does. -/
inductive Builtin where
  -- of all objects
  | identical
  | equal
  | notEqual
  | classOf
  | isNil
  | notNil
  | yourself
  | printString
  | println
  | hashcode
  | perform
  | performWithArguments
  | respondsTo
  | instVarAt
  | instVarAtPut
  -- of classes
  | new
  | className
  | superclass
  -- of the system object
  | global
  | globalPut
  | hasGlobal
  | print
  | printNewline
  | ticks
  -- of numbers
  | arith (op : Arith)
  | quotient
  | compare (c : Comparison)
  | negated
  | asDouble
  | toDo
  | timesRepeat
  -- of strings and symbols
  | concat
  | length
  | sameText
  | asSymbol
  | asString
  -- of arrays
  | at_
  | atPut
  | newArray
  -- of Booleans
  | not
  | and
  | or
  | andThen
  | orElse
  | ifTrue
  | ifFalse
  | ifTrueIfFalse
  | ifFalseIfTrue
  -- of blocks
  | blockValue
  | numArgs
  | restart
  -- for hosts
  | collect
  | refuse
  | replay
deriving DecidableEq, Inhabited

/-- A method that is not compiled from a tree. -/
structure Primitive where
  /-- Tells primitives apart that do the same. -/
  id : Nat
  selector : Selector
  builtin : Builtin
  /-- The operation that a call site which finds the primitive may be bound to. -/
  shortcut : Option Shortcut
deriving DecidableEq, Inhabited

/-- What a lookup finds. -/
inductive Invokable where
  | method (c : Code)
  | primitive (p : Primitive)
deriving Inhabited

namespace Invokable

/-- The selector that it is installed under. -/
def signature : Invokable → Selector
  | .method c => c.signature
  | .primitive p => p.selector

/-- The arguments it takes, the receiver not counted. -/
def arity : Invokable → Nat
  | .method c => c.argumentCount - 1
  | .primitive p => p.selector.arity

/-- How many variables of enclosing frames it uses. -/
def captureCount : Invokable → Nat
  | .method c => c.program.captureCount
  | .primitive _ => 0

def isPrimitive : Invokable → Bool
  | .method _ => false
  | .primitive _ => true

/-- The operation that a call site which finds it may be bound to. -/
def shortcut? : Invokable → Option Shortcut
  | .method _ => none
  | .primitive p => p.shortcut

/-- Whether two are one and the same. -/
def same : Invokable → Invokable → Bool
  | .method c, .method d => c.id = d.id
  | .primitive p, .primitive q => p.id = q.id
  | _, _ => false

/-- The kind and selector, in listings. -/
def text : Invokable → String
  | .method c => "method " ++ c.signature
  | .primitive p => "primitive " ++ p.selector

end Invokable

/-! ### Classes -/

/-- The shape of instances. -/
structure Layout where
  /-- Tells layouts apart that have the same number of fields. -/
  id : Nat
  fieldCount : Nat
deriving DecidableEq, Inhabited

/-- A class or metaclass. -/
structure Class where
  name : String
  /-- The superclasses, nearest first. -/
  lineage : List ClassRef
  /-- The class of the class itself; none for a metaclass. -/
  metaclass : Option ClassRef
  /-- The names of the fields, inherited ones first. -/
  fields : List String
  layout : Layout
  methods : Directory Invokable
deriving Inhabited

/-- The superclass. -/
def Class.superclass (c : Class) : Option ClassRef :=
  c.lineage.head?

/-- The classes and what is installed in them. -/
structure ClassTable where
  classes : Array Class
  /-- The classes that can be asked for by name. -/
  registry : Directory ClassRef
  /-- How many methods were ever installed. -/
  epoch : Nat
  /-- How many layouts were ever made. -/
  layouts : Nat
deriving Inhabited

namespace ClassTable

variable (t : ClassTable)

/-- The class at a place in the table. -/
def get (c : ClassRef) : Class :=
  t.classes.getD c default

/-- The name of a class. -/
def name (c : ClassRef) : String :=
  (t.get c).name

/-- The class of a class. -/
def metaclass? (c : ClassRef) : Option ClassRef :=
  (t.get c).metaclass

/-- The method of a class itself. -/
def own? (c : ClassRef) (s : Selector) : Option Invokable :=
  (t.get c).methods.get? s

/-- The method that a message to an instance of a class finds: that of the class, or of the
    nearest superclass which has one. -/
def lookup (c : ClassRef) (s : Selector) : Option Invokable :=
  (c :: (t.get c).lineage).findSome? fun k => t.own? k s

/-- The class registered under a name. -/
def byName? (name : String) : Option ClassRef :=
  t.registry.get? name

/-- The class with a name in programs: a registered one, or the metaclass of one. -/
def named? (name : String) : Option ClassRef :=
  match t.byName? name with
  | some c => some c
  | none =>
    if name.endsWith " class" then
      (t.byName? (name.dropEnd 6).toString).bind t.metaclass?
    else none

/-- Installs a method or primitive in a class, in the place of one with the same selector. -/
def install (c : ClassRef) (i : Invokable) : ClassTable :=
  { t with
    classes := t.classes.modify c fun k => { k with methods := k.methods.put i.signature i }
    epoch := t.epoch + 1 }

/-- The place of the next class. -/
def next : ClassRef :=
  t.classes.size

/-- A class that is not in the table yet, with the fields of its superclass and its own. -/
def make (name : String) (super : Option ClassRef) (fields : List String) : Class :=
  let lineage := match super with
    | some s => s :: (t.get s).lineage
    | none => []
  let inherited := match super with
    | some s => (t.get s).fields
    | none => []
  { name, lineage, metaclass := none, fields := inherited ++ fields,
    layout := ⟨t.layouts, (inherited ++ fields).length⟩, methods := .empty }

/-- Adds a class. -/
def add (k : Class) : ClassTable :=
  { t with classes := t.classes.push k, layouts := t.layouts + 1 }

/-- Gives a class its metaclass, a subclass of the metaclass of its superclass, or of `root`
    where there is none. -/
def attach (c root : ClassRef) : ClassTable :=
  let super := ((t.get c).superclass.bind t.metaclass?).getD root
  let added := t.add (t.make (t.name c ++ " class") (some super) [])
  { added with classes := added.classes.modify c fun k => { k with metaclass := some t.next } }

/-- Registers a class under its name. -/
def register (c : ClassRef) : ClassTable :=
  { t with registry := t.registry.put (t.name c) c }

/-- Appends a field to a class. The class gets a new layout; its instances follow when they are
    next looked at, its subclasses do not. -/
def addField (c : ClassRef) (name : String) : ClassTable :=
  { t with
    classes := t.classes.modify c fun k =>
      { k with fields := k.fields ++ [name], layout := ⟨t.layouts, k.fields.length + 1⟩ }
    layouts := t.layouts + 1 }

end ClassTable

/-! ### The classes of the library -/

namespace Core

def object : ClassRef := 0
def «class» : ClassRef := 1
def metaclass : ClassRef := 2
def nil : ClassRef := 6
def boolean : ClassRef := 8
def «true» : ClassRef := 10
def «false» : ClassRef := 12
def integer : ClassRef := 14
def double : ClassRef := 16
def string : ClassRef := 18
def symbol : ClassRef := 20
def array : ClassRef := 22
/-- The metaclass of `Array`. -/
def arrayClass : ClassRef := 23
def block : ClassRef := 24
def system : ClassRef := 26

/-- All of them. -/
def all : List ClassRef :=
  [object, «class», metaclass, nil, boolean, «true», «false», integer, double, string, symbol,
    array, block, system]

/-- The subclasses of the library, each with its superclass. -/
def subclasses : List (String × ClassRef) :=
  [("Nil", object), ("Boolean", object), ("True", boolean), ("False", boolean),
    ("Integer", object), ("Double", object), ("String", object), ("Symbol", string),
    ("Array", object), ("Block", object), ("System", object)]

end Core

namespace ClassTable

/-- Adds a class with its metaclass and registers it; a class that had the name goes on to exist
    but cannot be asked for any more. -/
def define (t : ClassTable) (name : String) (super : ClassRef) (fields : List String) :
    ClassTable :=
  ((t.add (t.make name (some super) fields)).attach t.next Core.class).register t.next

/-- The classes of the library, with nothing installed. The first three are made before any
    metaclass. -/
def initial : ClassTable :=
  let t : ClassTable := ⟨#[], .empty, 0, 0⟩
  let t := t.add (t.make "Object" none [])
  let t := t.add (t.make "Class" (some Core.object) [])
  let t := t.add (t.make "Metaclass" (some Core.class) [])
  let t := ((t.attach Core.object Core.class).attach Core.class Core.class).attach
    Core.metaclass Core.class
  let t := ((t.register Core.object).register Core.class).register Core.metaclass
  Core.subclasses.foldl (fun t (name, super) => t.define name super []) t

end ClassTable

end Parley
