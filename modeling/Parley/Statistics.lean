/-!
# Statistics

What a machine counts while it runs.
-/

namespace Parley

/-- The counters of a machine. -/
structure Statistics where
  sends : Nat
  quickenings : Nat
  eagerMisses : Nat
  cacheHits : Nat
  cacheMisses : Nat
  megamorphicSends : Nat
  notUnderstood : Nat
  closures : Nat
  frames : Nat
  nonLocalReturns : Nat
  escapedBlocks : Nat
  restarts : Nat
  backEdges : Nat
deriving DecidableEq, Inhabited

namespace Statistics

/-- Nothing counted yet. -/
def zero : Statistics :=
  ⟨0, 0, 0, 0, 0, 0, 0, 0, 0, 0, 0, 0, 0⟩

/-- The counters with their names, in the order in which reports list them. -/
def named (s : Statistics) : List (String × Nat) :=
  [("sends", s.sends), ("quickenings", s.quickenings), ("eager_misses", s.eagerMisses),
    ("cache_hits", s.cacheHits), ("cache_misses", s.cacheMisses),
    ("megamorphic_sends", s.megamorphicSends), ("dnu_reports", s.notUnderstood),
    ("closures_created", s.closures), ("frames_created", s.frames),
    ("non_local_returns", s.nonLocalReturns), ("escaped_blocks", s.escapedBlocks),
    ("restarts", s.restarts), ("back_edges", s.backEdges)]

/-- The counters that changed, with the difference. -/
def since (now before : Statistics) : List (String × Int) :=
  (now.named.zip before.named).filterMap fun (n, b) =>
    if n.2 = b.2 then none else some (n.1, (n.2 : Int) - b.2)

/-- The counters as lines of a report. -/
def report (s : Statistics) : String :=
  String.join (s.named.map fun (name, count) => name ++ " = " ++ count.repr ++ "\n")

end Statistics

end Parley
