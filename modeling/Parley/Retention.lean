import Std.Data.HashMap
import Std.Data.HashSet
import Parley.World

/-!
# What is still there

A class that was replaced under its name goes on to exist as long as something refers to it, and
then it is gone: code that was compiled for it does not keep it. This module finds out whether a
class is still there.

Things refer to each other: a class to its superclass, its metaclass and its methods, an instance
to its class, code to its literals and to what its call sites remember, and so on. A thing that
nothing refers to is gone, and then what only it referred to. Things that refer to each other in
a circle hold each other, whether or not anything else refers to them.
-/

namespace Parley

/-- Something that exists as long as it is referred to. -/
inductive Node where
  | cls (c : ClassRef)
  | array (a : ArrayRef)
  | object (o : ObjectRef)
  | closure (b : BlockRef)
  | frame (f : FrameRef)
  | code (id : Nat)
deriving DecidableEq, Hashable, Inhabited

/-! ### References -/

/-- What a value refers to. -/
def Value.refers : Value → List Node
  | .array a => [.array a]
  | .block b => [.closure b]
  | .object o => [.object o]
  | .classRef c => [.cls c]
  | _ => []

/-- What a method or primitive refers to. -/
def Invokable.refers : Invokable → List Node
  | .method c => [.code c.id]
  | .primitive _ => []

/-- What an entry of a dispatch chain refers to. A layout is not a class. -/
def Entry.refers (e : Entry) : List Node :=
  let guarded : List Node := match e.guard with
    | .ofClass c => [.cls c]
    | .ofLayout _ => []
  match e.target with
  | .invoke i => guarded ++ i.refers
  | .notUnderstood => guarded

/-- What a dispatch chain refers to. -/
def Chain.refers (c : Chain) : List Node :=
  match c.state with
  | .cached entries => entries.flatMap Entry.refers
  | .megamorphic => []

/-- What a specialized instruction refers to. -/
def Site.refers : Site → List Node
  | .global _ => []
  | .chain c => c.refers
  | .super (some i) _ => i.refers
  | .super none _ => []
  | .eager _ cls _ _ => [.cls cls]

/-- What something that a host holds refers to. -/
def Held.refers : Held → List Node
  | .value v => v.refers
  | .code c => [.code c.id]
  | .chain c => c.refers

namespace World

variable (w : World)

/-- What a code refers to, by its literals and by its specialized instructions. -/
def codeRefers (c : Code) : List Node :=
  let literals := c.program.literals.toList.flatMap fun l =>
    match l with
    | .value v => v.refers
    | .block b => [.code b.id]
    | _ => []
  let sites := c.program.tape.starts.flatMap fun ip =>
    match w.sites[(c.id, ip)]? with
    | some site => site.refers
    | none => []
  literals ++ sites

/-- Every code that was ever made, by its identity. -/
def codeTable : Std.HashMap Nat Code :=
  (w.codes.flatMap Code.family).foldl (fun table c => table.insert c.id c) ∅

/-- What a thing refers to. -/
def refers (codes : Std.HashMap Nat Code) : Node → List Node
  | .cls c =>
    let k := w.classes.get c
    k.superclass.toList.map .cls ++ k.metaclass.toList.map .cls ++
      k.methods.entries.flatMap fun (_, i) => i.refers
  | .array a => (w.heap.array a).toList.flatMap Value.refers
  | .object o =>
    let i := w.heap.instance_ o
    .cls i.cls :: i.fields.toList.flatMap Value.refers
  | .closure b =>
    let c := w.heap.closure b
    .code c.code.id :: c.context.toList.map .frame
  | .frame f =>
    let k := w.heap.frame f
    (k.arguments.toList ++ k.locals.toList).flatMap Value.refers ++ k.outer.head?.toList.map .frame
  | .code id =>
    match codes[id]? with
    | some c => w.codeRefers c
    | none => []

/-- Everything that was ever made. -/
def nodes (codes : Std.HashMap Nat Code) : List Node :=
  (List.range w.classes.classes.size).map .cls ++ (List.range w.heap.arrays.size).map .array ++
    (List.range w.heap.instances.size).map .object ++
    (List.range w.heap.closures.size).map .closure ++
    (List.range w.heap.frames.size).map .frame ++ codes.keys.map .code

/-- What is referred to from outside: the classes of the library and those with a name, the
    globals, and what hosts hold. -/
def roots : List Node :=
  Core.all.map .cls ++
    w.classes.registry.entries.map (fun (_, c) => .cls c) ++
    w.globals.toList.flatMap (fun cell => cell.value.toList.flatMap Value.refers) ++
    w.held.flatMap Held.refers

end World

/-! ### Survival -/

/-- What is left of things when those that nothing left refers to are taken away, again and
    again. -/
def survivors (refers : Node → List Node) (roots : List Node) :
    (rounds : Nat) → List Node → List Node
  | 0, nodes => nodes
  | rounds + 1, nodes =>
    let referred : Std.HashSet Node :=
      nodes.foldl (fun set n => set.insertMany (refers n)) (.ofList roots)
    let left := nodes.filter referred.contains
    if left.length = nodes.length then nodes else survivors refers roots rounds left

namespace World

variable (w : World)

/-- Whether a class has a name, or is the metaclass of one that has. -/
def isNamed (c : ClassRef) : Bool :=
  w.classes.registry.entries.any fun (_, k) => k = c || w.classes.metaclass? k = some c

/-- Whether a class is still there, given what a run in progress refers to. -/
def isThere (inProgress : List Node) (c : ClassRef) : Bool :=
  w.isNamed c ||
    let codes := w.codeTable
    let nodes := w.nodes codes
    (survivors (w.refers codes) (inProgress ++ w.roots) nodes.length nodes).contains (.cls c)

/-- The class that a code was compiled for, if there is one still. -/
def holderOf (inProgress : List Node) (c : Code) : Option ClassRef :=
  c.holder.filter (w.isThere inProgress)

end World

end Parley
