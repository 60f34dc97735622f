import Parley.Library.Install
import Parley.Machine.Step

/-!
# Workloads

Small programs that exercise the machine: deep recursion through one call site, inlined loops,
messages to receivers of many classes, escaping blocks, returns out of closures, and loops made
of restarts. They are methods of a class `Bench`, defined when one of them is first asked for.
-/

namespace Parley

/-- The workloads. -/
inductive Workload where
  /-- The factorial of a number, by recursion. -/
  | fact
  /-- The sum of the numbers up to a limit, by an inlined loop. -/
  | loop
  /-- The same message to receivers of four classes from one call site. -/
  | poly
  /-- A return by a block whose method has returned. -/
  | escape
  /-- A return out of a loop over a closure. -/
  | nlr
  /-- Counting up with a condition and a body that are variables. -/
  | while
deriving DecidableEq, Inhabited

namespace Workload

/-- All workloads, in the order of listings. -/
def all : List Workload :=
  [.fact, .loop, .poly, .escape, .nlr, .while]

def name : Workload → String
  | .fact => "fact"
  | .loop => "loop"
  | .poly => "poly"
  | .escape => "escape"
  | .nlr => "nlr"
  | .while => "while"

/-- The message that runs a workload. -/
def selector : Workload → Selector
  | .fact => "fact:"
  | .loop => "sumTo:"
  | .poly => "poly:"
  | .escape => "escape:"
  | .nlr => "detect:"
  | .while => "countTo:"

/-- The argument of a workload without any choice. -/
def standardArgument : Workload → Int64
  | .fact => 20
  | .loop => 1000000
  | .poly => 10000
  | .escape => 7
  | .nlr => 500
  | .while => 1000

/-- The workload with a name. -/
def ofName? (name : String) : Option Workload :=
  all.find? fun w => w.name == name

/-- Why there is no workload with a name. -/
def unknown (name : String) : String :=
  "unknown workload '" ++ name ++ "' (expected one of: " ++
    Text.joined ", " (all.map Workload.name) ++ ")"

/-! ### Methods -/

private def int (i : Int64) : Expr := .constant (.int i)

private def binary (a : Expr) (s : Selector) (b : Expr) : Expr := .send a s [b]

private def this : Expr := .variable "self"

/-- `^n <= 1 ifTrue: [1] ifFalse: [n * (self fact: n - 1)]` -/
def factMethod : MethodTree where
  selector := "fact:"
  parameters := ["n"]
  locals := []
  body :=
    [.leave (.send (binary (.variable "n") "<=" (int 1)) "ifTrue:ifFalse:"
      [.block [] [] [int 1],
        .block [] []
          [binary (.variable "n") "*"
            (.send this "fact:" [binary (.variable "n") "-" (int 1)])]])]

/-- `| s | s := 0. 1 to: n do: [:i | s := s + i]. ^s` -/
def sumMethod : MethodTree where
  selector := "sumTo:"
  parameters := ["n"]
  locals := ["s"]
  body :=
    [.assign "s" (int 0),
      .send (int 1) "to:do:"
        [.variable "n",
          .block ["i"] [] [.assign "s" (binary (.variable "s") "+" (.variable "i"))]],
      .leave (.variable "s")]

/-- The receivers of the message that `poly:` sends. -/
def polyItems : List Constant :=
  [.int 1, .double (.nearest false 5 2), .string "abc", .symbol "sym"]

/-- Fills an array with receivers of four classes and adds up the lengths of what they print,
    going round and round. -/
def polyMethod : MethodTree where
  selector := "poly:"
  parameters := ["n"]
  locals := ["items", "total"]
  body :=
    let filling := polyItems.zipIdx.map fun (c, i) =>
      .send (.variable "items") "at:put:" [int (Int64.ofNat (i + 1)), .constant c]
    let slot := binary (binary (.variable "i") "\\\\" (int 4)) "+" (int 1)
    let element := .send (.variable "items") "at:" [slot]
    let length := .send (.send element "printString" []) "length" []
    [.assign "items" (.send (.variable "Array") "new:" [int 4])] ++ filling ++
      [.assign "total" (int 0),
        .send (int 1) "to:do:"
          [.variable "n",
            .block ["i"] [] [.assign "total" (binary (.variable "total") "+" length)]],
        .leave (.variable "total")]

/-- `| b | b := self makeBlock. ^b value: n` -/
def escapeMethod : MethodTree where
  selector := "escape:"
  parameters := ["n"]
  locals := ["b"]
  body :=
    [.assign "b" (.send this "makeBlock" []),
      .leave (.send (.variable "b") "value:" [.variable "n"])]

/-- `^[:x | ^x]` -/
def makeBlockMethod : MethodTree where
  selector := "makeBlock"
  parameters := []
  locals := []
  body := [.leave (.block ["x"] [] [.leave (.variable "x")])]

/-- `^#escaped` -/
def escapedMethod : MethodTree where
  selector := "escapedBlock:"
  parameters := ["block"]
  locals := []
  body := [.leave (.constant (.symbol "escaped"))]

/-- `self each: [:i | i * i > n ifTrue: [^i]]. ^0` -/
def detectMethod : MethodTree where
  selector := "detect:"
  parameters := ["n"]
  locals := []
  body :=
    [.send this "each:"
        [.block ["i"] []
          [.send (binary (binary (.variable "i") "*" (.variable "i")) ">" (.variable "n"))
            "ifTrue:" [.block [] [] [.leave (.variable "i")]]]],
      .leave (int 0)]

/-- `1 to: 100000 do: aBlock` -/
def eachMethod : MethodTree where
  selector := "each:"
  parameters := ["aBlock"]
  locals := []
  body := [.send (int 1) "to:do:" [int 100000, .variable "aBlock"]]

/-- `| i cond body | i := 0. cond := [i < n]. body := [i := i + 1]. cond whileTrue: body. ^i` -/
def countMethod : MethodTree where
  selector := "countTo:"
  parameters := ["n"]
  locals := ["i", "cond", "body"]
  body :=
    [.assign "i" (int 0),
      .assign "cond" (.block [] [] [binary (.variable "i") "<" (.variable "n")]),
      .assign "body" (.block [] [] [.assign "i" (binary (.variable "i") "+" (int 1))]),
      .send (.variable "cond") "whileTrue:" [.variable "body"],
      .leave (.variable "i")]

/-- The methods of `Bench`. -/
def methods : List MethodTree :=
  [factMethod, sumMethod, polyMethod, escapeMethod, makeBlockMethod, escapedMethod, detectMethod,
    eachMethod, countMethod]

/-! ### Running -/

/-- Why a workload does not run. -/
inductive Failure where
  /-- A method of `Bench` is not compiled. -/
  | compiling (selector : Selector) (e : CompileError)
  | running (workload : Workload) (f : Fault)
  /-- The message of the workload finds a primitive. -/
  | primitive (selector : Selector)
  | missing (selector : Selector)
deriving Inhabited

/-- The texts of a failure, the cause last. -/
def Failure.messages : Failure → List String
  | .compiling selector e => ["compiling Bench>>" ++ selector, e.message]
  | .running workload f => ["workload " ++ workload.name ++ " failed", f.message]
  | .primitive selector => ["Bench>>" ++ selector ++ " is a primitive"]
  | .missing selector => ["Bench>>" ++ selector ++ " is not installed"]

/-- Defines `Bench`, unless there is a class of that name. -/
def install (w : World) : Except Failure ClassRef × World :=
  match w.classes.byName? "Bench" with
  | some c => (.ok c, w)
  | none =>
    let (c, w) := w.defineClass "Bench" Core.object []
    match w.defineAll c methods with
    | (.ok _, w) => (.ok c, w)
    | (.error (selector, e), w) => (.error (.compiling selector e), w)

/-- Runs a workload on a new instance of `Bench`. -/
def run (workload : Workload) (n : Int64) (w : World) : Except Failure Value × World :=
  match install w with
  | (.error e, w) => (.error e, w)
  | (.ok c, w) =>
    let (receiver, w) := w.newInstance c
    match w.result (.send workload.selector [receiver, .int n]) with
    | (.error f, w) => (.error (.running workload f), w)
    | (.ok v, w) => (.ok v, w)

/-- The method that a workload enters by. -/
def entry (workload : Workload) (w : World) : Except Failure Code × World :=
  match install w with
  | (.error e, w) => (.error e, w)
  | (.ok c, w) =>
    match w.classes.own? c workload.selector with
    | some (.method code) => (.ok code, w)
    | some (.primitive _) => (.error (.primitive workload.selector), w)
    | none => (.error (.missing workload.selector), w)

end Workload

end Parley
