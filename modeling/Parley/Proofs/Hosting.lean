import Parley.Proofs.Bench
import Parley.Proofs.Primitives

/-!
# Tables that host the workloads
-/

namespace Parley

namespace Workload

/-- The primitives that the workloads use, each with a class whose instances understand it. -/
def primitives : List (ClassRef × Selector × Builtin) :=
  [Comparison.lt, .le, .gt, .ge, .eq, .ne].map (fun o => (Core.integer, o.selector, .compare o)) ++
  [Arith.add, .sub, .mul, .rem].map (fun op => (Core.integer, op.selector, .arith op)) ++
  [(Core.integer, "to:do:", .toDo),
    (Core.true, "ifTrue:ifFalse:", .ifTrueIfFalse), (Core.false, "ifTrue:ifFalse:", .ifTrueIfFalse),
    (Core.true, "ifTrue:", .ifTrue), (Core.false, "ifTrue:", .ifTrue),
    (Core.true, "ifFalse:", .ifFalse), (Core.false, "ifFalse:", .ifFalse),
    (Core.block, "value", .blockValue), (Core.block, "value:", .blockValue),
    (Core.block, "restart", .restart), (Core.integer, "printString", .printString),
    (Core.double, "printString", .printString), (Core.string, "printString", .printString),
    (Core.symbol, "printString", .printString), (Core.string, "length", .length),
    (Core.array, "at:", .at_), (Core.array, "at:put:", .atPut),
    (Core.arrayClass, "new:", .newArray)]

/-- The variable of an inlined loop over the numbers from one on, after so many rounds. -/
def variableAfter : Nat → Value
  | 0 => .nil
  | k + 1 => Number.reduce (k + 1)

end Workload

open Workload

/-- A table in which the workloads find what they need. -/
structure ClassTable.Hosts (t : ClassTable) (inlining : Bool) : Prop where
  primitive : ∀ e ∈ primitives, t.Finds e.1 e.2.1 e.2.2
  arrayClass : t.metaclass? Core.array = some Core.arrayClass
  method : ∀ e ∈ sketches inlining,
    ∃ c, t.lookup bench e.1.selector = some (.method c) ∧ c.Follows e.2
  loop : ∀ e ∈ loopSketches inlining,
    ∃ c, t.lookup Core.block e.1.selector = some (.method c) ∧ c.Follows e.2

namespace ClassTable.Hosts

variable {t : ClassTable} {inlining : Bool}

theorem finds (h : t.Hosts inlining) {c : ClassRef} {s : Selector} {b : Builtin}
    (he : (c, s, b) ∈ primitives) : t.Finds c s b :=
  h.primitive _ he

theorem compare (h : t.Hosts inlining) (o : Comparison) :
    t.Finds Core.integer o.selector (.compare o) :=
  h.finds (by cases o <;> decide)

theorem arith (h : t.Hosts inlining) (op : Arith) (hop : op.divides = false) :
    t.Finds Core.integer op.selector (.arith op) :=
  h.finds (by cases op <;> first | decide | cases hop)

end ClassTable.Hosts

namespace Scene

/-- A scene in which the workloads find what they need, with an instance of `Bench`. -/
structure Ready (σ : Scene) (inlining : Bool) (o : ObjectRef) : Prop where
  hosts : σ.classes.Hosts inlining
  receiver : σ.instances o = some bench
  array : σ.globals.read? "Array" = some (.classRef Core.array)

namespace Ready

variable {σ : Scene} {inlining : Bool} {o : ObjectRef}

theorem method (h : σ.Ready inlining o) {m : MethodTree} {k : Sketch}
    (hm : (m, k) ∈ sketches inlining) :
    ∃ c, σ.lookup? (.object o) m.selector = some (.method c) ∧ c.Follows k := by
  obtain ⟨c, hl, hc⟩ := h.hosts.method _ hm
  exact ⟨c, lookup?_object h.receiver hl, hc⟩

theorem inside (h : σ.Ready inlining o) (f : FrameRef) (F : Frame) :
    (σ.deeper.withFrame f F).Ready inlining o :=
  ⟨h.hosts, h.receiver, h.array⟩

end Ready

end Scene

end Parley
