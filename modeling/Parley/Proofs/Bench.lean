import Parley.Machine.Workload
import Parley.Proofs.Sketches
import Parley.Proofs.Unrolling

/-!
# What the workloads are compiled to

Sketches of the methods of `Bench` and of the loops of the library, with and without inlining. That
they are compiled to such code is computed (`Workload.compiles`), from the numbers that are free in
a new world on.
-/

namespace Parley

namespace Workload

/-! ### Loops of the library -/

/-- A loop of the library, with its exit inlined. -/
def loopInlined (on : Bool) : Sketch :=
  .mk 2 0
    [(0, .pushSelf, []), (1, .send false, [0]), (3, .jump (.test on true) false, [5]),
      (6, .pushNil, []), (7, .returnLocal, []), (8, .drop, []), (9, .push .argument, [1, 0]),
      (12, .send false, [0]), (14, .drop, []), (15, .pushSelf, []), (16, .send false, [1]),
      (18, .drop, []), (19, .returnSelf, [])]
    [.selector "value", .selector "restart"]

/-- What a loop of the library evaluates to leave. -/
def loopExit : Sketch :=
  .mk 1 0
    [(0, .pushNil, []), (1, .returnNonLocal, [1])]
    []

/-- A loop of the library, with its exit in a block. -/
def loopClosed (exit : Selector) : Sketch :=
  .mk 2 0
    [(0, .pushSelf, []), (1, .send false, [0]), (3, .pushBlock true, [1]), (5, .send false, [2]),
      (7, .drop, []), (8, .push .argument, [1, 0]), (11, .send false, [0]), (13, .drop, []),
      (14, .pushSelf, []), (15, .send false, [3]), (17, .drop, []), (18, .returnSelf, [])]
    [.selector "value", .block loopExit, .selector exit, .selector "restart"]

/-! ### Factorials -/

/-- `fact:` with its branches inlined. -/
def factInlined : Sketch :=
  .mk 2 0
    [(0, .push .argument, [1, 0]), (3, .pushOne, []), (4, .send false, [0]),
      (6, .jump (.test false false) false, [7]), (9, .pushOne, []), (10, .jump .always false, [19]),
      (13, .push .argument, [1, 0]), (16, .push .argument, [0, 0]), (19, .push .argument, [1, 0]),
      (22, .pushOne, []), (23, .send false, [1]), (25, .send false, [2]), (27, .send false, [3]),
      (29, .returnLocal, [])]
    [.selector "<=", .selector "-", .selector "fact:", .selector "*"]

/-- The branch of `fact:` for numbers up to one. -/
def factOne : Sketch :=
  .mk 1 0
    [(0, .pushOne, []), (1, .returnLocal, [])]
    []

/-- The branch of `fact:` for greater numbers. -/
def factProduct : Sketch :=
  .mk 1 0
    [(0, .push .argument, [1, 1]), (3, .push .argument, [0, 1]), (6, .push .argument, [1, 1]),
      (9, .pushOne, []), (10, .send false, [0]), (12, .send false, [1]), (14, .send false, [2]),
      (16, .returnLocal, [])]
    [.selector "-", .selector "fact:", .selector "*"]

/-- `fact:` with its branches in blocks. -/
def factClosed : Sketch :=
  .mk 2 0
    [(0, .push .argument, [1, 0]), (3, .pushOne, []), (4, .send false, [0]),
      (6, .pushBlock false, [1]), (8, .pushBlock true, [2]), (10, .send false, [3]),
      (12, .returnLocal, [])]
    [.selector "<=", .block factOne, .block factProduct, .selector "ifTrue:ifFalse:"]

/-! ### Sums -/

/-- `sumTo:` with its loop inlined. -/
def sumInlined : Sketch :=
  .mk 2 2
    [(0, .pushZero, []), (1, .dup, []), (2, .pop .temporary, [0, 0]), (5, .drop, []),
      (6, .pushOne, []), (7, .push .argument, [1, 0]), (10, .dupSecond, []),
      (11, .jump .greater false, [24]), (14, .dup, []), (15, .pop .temporary, [1, 0]),
      (18, .push .temporary, [0, 0]), (21, .push .temporary, [1, 0]), (24, .send false, [0]),
      (26, .dup, []), (27, .pop .temporary, [0, 0]), (30, .drop, []), (31, .step true, []),
      (32, .jump .back false, [21]), (35, .drop, []), (36, .push .temporary, [0, 0]),
      (39, .returnLocal, [])]
    [.selector "+"]

/-- What `sumTo:` does for each number. -/
def sumBody : Sketch :=
  .mk 2 0
    [(0, .push .temporary, [0, 1]), (3, .push .argument, [1, 0]), (6, .send false, [0]),
      (8, .dup, []), (9, .pop .temporary, [0, 1]), (12, .returnLocal, [])]
    [.selector "+"]

/-- `sumTo:` with the body of its loop in a block. -/
def sumClosed : Sketch :=
  .mk 2 1
    [(0, .pushZero, []), (1, .dup, []), (2, .pop .temporary, [0, 0]), (5, .drop, []),
      (6, .pushOne, []), (7, .push .argument, [1, 0]), (10, .pushBlock true, [0]),
      (12, .send false, [1]), (14, .drop, []), (15, .push .temporary, [0, 0]),
      (18, .returnLocal, [])]
    [.block sumBody, .selector "to:do:"]

/-! ### Receivers of four classes -/

/-- What `poly:` does before its loop, with so many locals. -/
def polyFilling (locals : Nat) : Sketch :=
  .mk 2 locals
    [(0, .pushGlobal, [0]), (2, .pushConstant, [1]), (4, .send false, [2]), (6, .dup, []),
      (7, .pop .temporary, [0, 0]), (10, .drop, []), (11, .push .temporary, [0, 0]),
      (14, .pushOne, []), (15, .pushOne, []), (16, .send false, [3]), (18, .drop, []),
      (19, .push .temporary, [0, 0]), (22, .pushConstant, [4]), (24, .pushConstant, [5]),
      (26, .send false, [3]), (28, .drop, []), (29, .push .temporary, [0, 0]),
      (32, .pushConstant, [6]), (34, .pushConstant, [7]), (36, .send false, [3]), (38, .drop, []),
      (39, .push .temporary, [0, 0]), (42, .pushConstant, [1]), (44, .pushConstant, [8]),
      (46, .send false, [3]), (48, .drop, []), (49, .pushZero, []), (50, .dup, []),
      (51, .pop .temporary, [1, 0]), (54, .drop, [])]
    [.global "Array", .value (.int 4), .selector "new:", .selector "at:put:", .value (.int 2),
      .value (.double (.nearest false 5 2)), .value (.int 3), .value (.string (.string 0) "abc"),
      .value (.symbol "sym")]

/-- `poly:` with its loop inlined. -/
def polyInlined : Sketch :=
  .mk 2 3
    [(0, .pushGlobal, [0]), (2, .pushConstant, [1]), (4, .send false, [2]), (6, .dup, []),
      (7, .pop .temporary, [0, 0]), (10, .drop, []), (11, .push .temporary, [0, 0]),
      (14, .pushOne, []), (15, .pushOne, []), (16, .send false, [3]), (18, .drop, []),
      (19, .push .temporary, [0, 0]), (22, .pushConstant, [4]), (24, .pushConstant, [5]),
      (26, .send false, [3]), (28, .drop, []), (29, .push .temporary, [0, 0]),
      (32, .pushConstant, [6]), (34, .pushConstant, [7]), (36, .send false, [3]), (38, .drop, []),
      (39, .push .temporary, [0, 0]), (42, .pushConstant, [1]), (44, .pushConstant, [8]),
      (46, .send false, [3]), (48, .drop, []), (49, .pushZero, []), (50, .dup, []),
      (51, .pop .temporary, [1, 0]), (54, .drop, []), (55, .pushOne, []),
      (56, .push .argument, [1, 0]), (59, .dupSecond, []), (60, .jump .greater false, [40]),
      (63, .dup, []), (64, .pop .temporary, [2, 0]), (67, .push .temporary, [1, 0]),
      (70, .push .temporary, [0, 0]), (73, .push .temporary, [2, 0]), (76, .pushConstant, [1]),
      (78, .send false, [9]), (80, .pushOne, []), (81, .send false, [10]), (83, .send false, [11]),
      (85, .send false, [12]), (87, .send false, [13]), (89, .send false, [10]), (91, .dup, []),
      (92, .pop .temporary, [1, 0]), (95, .drop, []), (96, .step true, []),
      (97, .jump .back false, [37]), (100, .drop, []), (101, .push .temporary, [1, 0]),
      (104, .returnLocal, [])]
    [.global "Array", .value (.int 4), .selector "new:", .selector "at:put:", .value (.int 2),
      .value (.double (.nearest false 5 2)), .value (.int 3), .value (.string (.string 0) "abc"),
      .value (.symbol "sym"), .selector "\\\\", .selector "+", .selector "at:",
      .selector "printString", .selector "length"]

/-- What `poly:` does for each number. -/
def polyBody : Sketch :=
  .mk 2 0
    [(0, .push .temporary, [1, 1]), (3, .push .temporary, [0, 1]), (6, .push .argument, [1, 0]),
      (9, .pushConstant, [0]), (11, .send false, [1]), (13, .pushOne, []), (14, .send false, [2]),
      (16, .send false, [3]), (18, .send false, [4]), (20, .send false, [5]),
      (22, .send false, [2]), (24, .dup, []), (25, .pop .temporary, [1, 1]), (28, .returnLocal, [])]
    [.value (.int 4), .selector "\\\\", .selector "+", .selector "at:", .selector "printString",
      .selector "length"]

/-- `poly:` with the body of its loop in a block. -/
def polyClosed : Sketch :=
  .mk 2 2
    [(0, .pushGlobal, [0]), (2, .pushConstant, [1]), (4, .send false, [2]), (6, .dup, []),
      (7, .pop .temporary, [0, 0]), (10, .drop, []), (11, .push .temporary, [0, 0]),
      (14, .pushOne, []), (15, .pushOne, []), (16, .send false, [3]), (18, .drop, []),
      (19, .push .temporary, [0, 0]), (22, .pushConstant, [4]), (24, .pushConstant, [5]),
      (26, .send false, [3]), (28, .drop, []), (29, .push .temporary, [0, 0]),
      (32, .pushConstant, [6]), (34, .pushConstant, [7]), (36, .send false, [3]), (38, .drop, []),
      (39, .push .temporary, [0, 0]), (42, .pushConstant, [1]), (44, .pushConstant, [8]),
      (46, .send false, [3]), (48, .drop, []), (49, .pushZero, []), (50, .dup, []),
      (51, .pop .temporary, [1, 0]), (54, .drop, []), (55, .pushOne, []),
      (56, .push .argument, [1, 0]), (59, .pushBlock true, [9]), (61, .send false, [10]),
      (63, .drop, []), (64, .push .temporary, [1, 0]), (67, .returnLocal, [])]
    [.global "Array", .value (.int 4), .selector "new:", .selector "at:put:", .value (.int 2),
      .value (.double (.nearest false 5 2)), .value (.int 3), .value (.string (.string 0) "abc"),
      .value (.symbol "sym"), .block polyBody, .selector "to:do:"]

/-! ### Escaping blocks -/

/-- `escape:` -/
def escapeSketch : Sketch :=
  .mk 2 1
    [(0, .pushSelf, []), (1, .send false, [0]), (3, .dup, []), (4, .pop .temporary, [0, 0]),
      (7, .drop, []), (8, .push .temporary, [0, 0]), (11, .push .argument, [1, 0]),
      (14, .send false, [1]), (16, .returnLocal, [])]
    [.selector "makeBlock", .selector "value:"]

/-- The block that `makeBlock` answers. -/
def escapingBlock : Sketch :=
  .mk 2 0
    [(0, .push .argument, [1, 0]), (3, .returnNonLocal, [1])]
    []

/-- `makeBlock` -/
def makeBlockSketch : Sketch :=
  .mk 1 0
    [(0, .pushBlock true, [0]), (2, .returnLocal, [])]
    [.block escapingBlock]

/-- `escapedBlock:` -/
def escapedSketch : Sketch :=
  .mk 2 0
    [(0, .pushConstant, [0]), (2, .returnLocal, [])]
    [.value (.symbol "escaped")]

/-! ### Returns out of a loop -/

/-- What `detect:` does first for each number. -/
def testStart : Sketch :=
  .mk 2 0
    [(0, .push .argument, [1, 0]), (3, .push .argument, [1, 0]), (6, .send false, [0]),
      (8, .push .argument, [1, 1]), (11, .send false, [1])]
    [.selector "*", .selector ">"]

/-- What `detect:` does for each number, with its branch inlined. -/
def testInlined : Sketch :=
  .mk 2 0
    [(0, .push .argument, [1, 0]), (3, .push .argument, [1, 0]), (6, .send false, [0]),
      (8, .push .argument, [1, 1]), (11, .send false, [1]),
      (13, .jump (.test false true) false, [8]), (16, .push .argument, [1, 0]),
      (19, .returnNonLocal, [1]), (21, .returnLocal, [])]
    [.selector "*", .selector ">"]

/-- The branch of `detect:` for a number that it is looking for. -/
def found : Sketch :=
  .mk 1 0
    [(0, .push .argument, [1, 1]), (3, .returnNonLocal, [2])]
    []

/-- What `detect:` does for each number, with its branch in a block. -/
def testClosed : Sketch :=
  .mk 2 0
    [(0, .push .argument, [1, 0]), (3, .push .argument, [1, 0]), (6, .send false, [0]),
      (8, .push .argument, [1, 1]), (11, .send false, [1]), (13, .pushBlock true, [2]),
      (15, .send false, [3]), (17, .returnLocal, [])]
    [.selector "*", .selector ">", .block found, .selector "ifTrue:"]

/-- What `detect:` does for each number. -/
def testSketch (inlining : Bool) : Sketch :=
  if inlining then testInlined else testClosed

/-- `detect:` -/
def detectSketch (inlining : Bool) : Sketch :=
  .mk 2 0
    [(0, .pushSelf, []), (1, .pushBlock true, [0]), (3, .send false, [1]), (5, .drop, []),
      (6, .pushZero, []), (7, .returnLocal, [])]
    [.block (testSketch inlining), .selector "each:"]

/-- `each:` -/
def eachSketch : Sketch :=
  .mk 2 0
    [(0, .pushOne, []), (1, .pushConstant, [0]), (3, .push .argument, [1, 0]),
      (6, .send false, [1]), (8, .drop, []), (9, .returnSelf, [])]
    [.value (.int 100000), .selector "to:do:"]

/-! ### Counting by restarts -/

/-- The condition of `countTo:` -/
def countCondition : Sketch :=
  .mk 1 0
    [(0, .push .temporary, [0, 1]), (3, .push .argument, [1, 1]), (6, .send false, [0]),
      (8, .returnLocal, [])]
    [.selector "<"]

/-- The body of `countTo:` -/
def countBody : Sketch :=
  .mk 1 0
    [(0, .push .temporary, [0, 1]), (3, .pushOne, []), (4, .send false, [0]), (6, .dup, []),
      (7, .pop .temporary, [0, 1]), (10, .returnLocal, [])]
    [.selector "+"]

/-- `countTo:` -/
def countSketch : Sketch :=
  .mk 2 3
    [(0, .pushZero, []), (1, .dup, []), (2, .pop .temporary, [0, 0]), (5, .drop, []),
      (6, .pushBlock true, [0]), (8, .dup, []), (9, .pop .temporary, [1, 0]), (12, .drop, []),
      (13, .pushBlock true, [1]), (15, .dup, []), (16, .pop .temporary, [2, 0]), (19, .drop, []),
      (20, .push .temporary, [1, 0]), (23, .push .temporary, [2, 0]), (26, .send false, [2]),
      (28, .drop, []), (29, .push .temporary, [0, 0]), (32, .returnLocal, [])]
    [.block countCondition, .block countBody, .selector "whileTrue:"]

/-! ### Compiling them -/

/-- The methods that the library compiles for blocks, and what they are compiled to. -/
def loopSketches (inlining : Bool) : List (MethodTree × Sketch) :=
  [(Library.loop "whileTrue:" "ifFalse:",
      if inlining then loopInlined true else loopClosed "ifFalse:"),
    (Library.loop "whileFalse:" "ifTrue:",
      if inlining then loopInlined false else loopClosed "ifTrue:")]

/-- The methods of `Bench`, and what they are compiled to. -/
def sketches (inlining : Bool) : List (MethodTree × Sketch) :=
  [(factMethod, if inlining then factInlined else factClosed),
    (sumMethod, if inlining then sumInlined else sumClosed),
    (polyMethod, if inlining then polyInlined else polyClosed),
    (escapeMethod, escapeSketch), (makeBlockMethod, makeBlockSketch),
    (escapedMethod, escapedSketch),
    (detectMethod, detectSketch inlining), (eachMethod, eachSketch),
    (countMethod, countSketch)]

/-- Whether methods are compiled, one after another, to codes that are as sketched; and the numbers
    left. -/
def compilesAll (c : ClassRef) (inlining : Bool) :
    List (MethodTree × Sketch) → Supply → Option Supply
  | [], supply => some supply
  | (m, k) :: rest, supply =>
    match m.lowerTo 1000 c [] inlining supply with
    | ⟨.ok code, supply, _⟩ =>
      if k.shows code && code.signature == m.selector then compilesAll c inlining rest supply
      else none
    | _ => none

/-- The class that is made first in a new world. -/
def bench : ClassRef := 28

/-- All of them are compiled to such code, the loops first. -/
theorem compiles (inlining : Bool) :
    ((compilesAll Core.block inlining (loopSketches inlining) ⟨1, 0, 0, 75⟩).bind
      (compilesAll bench inlining (sketches inlining))).isSome := by
  cases inlining <;> decide +kernel

end Workload

end Parley
