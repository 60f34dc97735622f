import Parley.World

/-!
# Installing the library

A new world gets the primitives, class by class, and two methods compiled from trees: the loops
`whileTrue:` and `whileFalse:` for blocks that the compiler did not see. Then every class is
bound to a global of its name, and an instance of `System` to the global `system`.

A loop evaluates its condition and its body and then asks for its own activation to start again:

    (self value) ifFalse: [^nil].
    body value.
    self restart
-/

namespace Parley

namespace Library

/-- What a class gets: a selector, what it does, and the shortcut for it, for each primitive. -/
abbrev Entries := List (Selector × Builtin × Option Shortcut)

/-- The primitives of all objects. -/
def ofObjects : Entries :=
  [("==", .identical, some .identical), ("=", .equal, none), ("~=", .notEqual, none),
    ("class", .classOf, none), ("isNil", .isNil, some .isNil), ("notNil", .notNil, some .notNil),
    ("value", .yourself, none), ("printString", .printString, none), ("println", .println, none),
    ("hashcode", .hashcode, none), ("perform:", .perform, none), ("perform:with:", .perform, none),
    ("perform:withArguments:", .performWithArguments, none), ("respondsTo:", .respondsTo, none),
    ("instVarAt:", .instVarAt, none), ("instVarAt:put:", .instVarAtPut, none)]

/-- The primitives of classes. -/
def ofClasses : Entries :=
  [("new", .new, none), ("name", .className, none), ("superclass", .superclass, none)]

/-- The primitives of the system object. -/
def ofSystem : Entries :=
  [("global:", .global, none), ("global:put:", .globalPut, none), ("hasGlobal:", .hasGlobal, none),
    ("printString:", .print, none), ("printNewline", .printNewline, none), ("ticks", .ticks, none)]

/-- The primitives of integers. -/
def ofIntegers : Entries :=
  [("+", .arith .add, some (.arith .add)), ("-", .arith .sub, some (.arith .sub)),
    ("*", .arith .mul, some (.arith .mul)), ("//", .arith .quo, none),
    ("\\\\", .arith .rem, none), ("<", .compare .lt, some (.compare .lt)),
    ("<=", .compare .le, some (.compare .le)), (">", .compare .gt, some (.compare .gt)),
    (">=", .compare .ge, some (.compare .ge)), ("=", .compare .eq, some (.compare .eq)),
    ("~=", .compare .ne, some (.compare .ne)), ("negated", .negated, none),
    ("printString", .printString, none), ("asDouble", .asDouble, none),
    ("to:do:", .toDo, some .count), ("timesRepeat:", .timesRepeat, none)]

/-- The primitives of doubles. -/
def ofDoubles : Entries :=
  [("+", .arith .add, none), ("-", .arith .sub, none), ("*", .arith .mul, none),
    ("/", .quotient, none), ("<", .compare .lt, none), ("<=", .compare .le, none),
    (">", .compare .gt, none), (">=", .compare .ge, none), ("=", .compare .eq, none),
    ("printString", .printString, none)]

/-- The primitives of Booleans. -/
def ofBooleans : Entries :=
  [("not", .not, some .not), ("&", .and, none), ("|", .or, none), ("and:", .andThen, none),
    ("or:", .orElse, none), ("ifTrue:", .ifTrue, none), ("ifFalse:", .ifFalse, none),
    ("ifTrue:ifFalse:", .ifTrueIfFalse, none), ("ifFalse:ifTrue:", .ifFalseIfTrue, none)]

/-- The primitives of blocks. -/
def ofBlocks : Entries :=
  [("value", .blockValue, some (.blockValue 0)), ("value:", .blockValue, some (.blockValue 1)),
    ("value:with:", .blockValue, some (.blockValue 2)), ("numArgs", .numArgs, none),
    ("restart", .restart, none)]

/-- The primitives of strings. -/
def ofStrings : Entries :=
  [(",", .concat, none), ("length", .length, none), ("=", .sameText, none),
    ("printString", .printString, none), ("asSymbol", .asSymbol, none)]

/-- The primitives of symbols. -/
def ofSymbols : Entries :=
  [("asString", .asString, none)]

/-- The primitives of arrays. -/
def ofArrays : Entries :=
  [("at:", .at_, none), ("at:put:", .atPut, none), ("length", .length, none)]

/-- The primitives of the class of arrays. -/
def ofArrayClass : Entries :=
  [("new:", .newArray, none)]

/-- All primitives, in the order of installing. -/
def primitives : List (ClassRef × Entries) :=
  [(Core.object, ofObjects), (Core.class, ofClasses), (Core.system, ofSystem),
    (Core.integer, ofIntegers), (Core.double, ofDoubles), (Core.boolean, ofBooleans),
    (Core.block, ofBlocks), (Core.string, ofStrings), (Core.symbol, ofSymbols),
    (Core.array, ofArrays), (Core.arrayClass, ofArrayClass)]

/-- A loop as a method of blocks. `exit` is the message that leaves it. -/
def loop (selector exit : Selector) : MethodTree where
  selector
  parameters := ["body"]
  locals := []
  body :=
    [.send (.send (.variable "self") "value" []) exit
        [.block [] [] [.leave (.variable "nil")]],
      .send (.variable "body") "value" [],
      .send (.variable "self") "restart" []]

/-- The methods of blocks that are compiled. -/
def loops : List MethodTree :=
  [loop "whileTrue:" "ifFalse:", loop "whileFalse:" "ifTrue:"]

end Library

namespace World

/-- Installs a primitive in a class. -/
def installPrimitive (w : World) (c : ClassRef) (selector : Selector) (builtin : Builtin)
    (shortcut : Option Shortcut) : World :=
  let (p, w) := w.newPrimitive selector builtin shortcut
  w.install c (.primitive p)

/-- Compiles methods for a class and installs them, up to one that is not compiled. -/
def defineAll (w : World) (c : ClassRef) :
    List MethodTree → Except (Selector × CompileError) Unit × World
  | [] => (.ok (), w)
  | m :: rest =>
    match w.define c m with
    | (.error e, w) => (.error (m.selector, e), w)
    | (.ok _, w) => w.defineAll c rest

/-- Binds every class that has a name to a global. -/
def bindClasses (w : World) : World :=
  w.classes.registry.entries.foldl (fun w (name, c) => w.writeGlobal name (.classRef c)) w

/-- Installs the library. -/
def installLibrary (w : World) : World :=
  let w := Library.primitives.foldl (fun w (c, entries) =>
    entries.foldl (fun w (selector, builtin, shortcut) =>
      w.installPrimitive c selector builtin shortcut) w) w
  let (_, w) := w.defineAll Core.block Library.loops
  let w := w.bindClasses
  let (system, w) := w.newInstance Core.system
  let w := w.writeGlobal "system" system
  w.note ⟨.debug, Topic.dispatch, "core library installed",
    [("classes", w.classes.registry.entries.length.repr), ("epoch", w.classes.epoch.repr)]⟩

/-- A new world with the library. -/
def boot (settings : Settings) (handler : Handler) (sink : Sink) (watched : Bool) : World :=
  (World.bare settings handler sink watched).installLibrary

end World

end Parley
