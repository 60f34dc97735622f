import Parley.Machine.Seat
import Parley.Session.Assemble

/-!
# Running sessions

Every step is done by one of the machines. What is told about it are the answer, the counters of
that machine which changed, and the output, the reports of the handler and the events that came
about meanwhile.
-/

namespace Parley.Session

namespace Ask

/-! ### Classes and methods -/

/-- Makes a class. -/
def defineClass (name super : String) (fields : List String) (register : Option String) :
    Ask Answer := do
  let s ← cls super
  answer register (.classRef (← act fun w => w.defineClass name s fields))

/-- Compiles a method and installs it. -/
def define (name : String) (tree : MethodTree) : Ask Answer := do
  let c ← cls name
  let code ← orCompileError (← act fun w => w.define c tree)
  return .defined (← look fun w => w.classes.epoch) code

/-- Compiles a method. -/
def compile (name : String) (tree : MethodTree) (standard : Bool) (register : Option String) :
    Ask Answer := do
  let c ← cls name
  let inlining ← look fun w => standard || w.settings.inlining
  let code ← orCompileError (← act fun w => w.compile c tree inlining)
  keepMethod register code
  showCode code

/-- Describes a class. -/
def classInfo (name : String) : Ask Answer := do
  let c ← cls name
  look fun w =>
    let k := w.classes.get c
    .classInfo k (k.superclass.map w.classes.name) (k.metaclass.map w.classes.name)
      (k.methods.names.mergeSort fun s t => !(t < s))

/-- The classes that have names, in order. -/
def classes : Ask Answer :=
  look fun w =>
    .classes (w.classes.registry.names.mergeSort fun s t => !(t < s)) w.classes.epoch

/-- Installs a primitive. -/
def primitive (name : String) (s : Selector) (builtin : Builtin) : Ask Answer := do
  let c ← cls name
  change fun w => w.installPrimitive c s builtin none
  return .primitive s

/-! ### Runs -/

/-- Evaluates statements. -/
def eval (body : List Expr) (register : Option String) : Ask Answer := do
  match ← act fun w => w.eval body with
  | .ok v => answer register v
  | .error (.inl e) => throw (.compile e)
  | .error (.inr f) => throw (.fault f.message)

/-- Does a job, and tells unwinds apart. -/
def perform (job : Job) (register : Option String) : Ask Answer := do
  match ← outcome (← act fun w => w.perform job) with
  | .ok v => answer register v
  | .error e => throw e

/-- Sends a message through the dispatch chain in a register. -/
def dispatch (name : String) (arguments : List Recipe) : Ask Answer := do
  let c ← chain name
  let arguments ← makeAll arguments
  let (job, c) ← act fun w =>
    let (job, c, w) := c.dispatch arguments w
    ((job, c), w)
  keepChain name c
  let result ← outcome (← act fun w => w.perform job)
  let result ← match result with
    | .ok v => pure (.ok (← look fun w => w.picture v))
    | .error e => pure (.error e)
  return .dispatched result c

/-- Runs a workload. -/
def workload (name : String) (n : Option Int64) (register : Option String) : Ask Answer := do
  match Workload.ofName? name with
  | none => throw (.fault (Workload.unknown name))
  | some workload =>
    match ← act (workload.run (n.getD workload.standardArgument)) with
    | .ok v => answer register v
    | .error e => throw (.fault (Text.joined ": " e.messages))

/-- Lists the method that a workload enters by. -/
def workloadCode (name : String) : Ask Answer := do
  match Workload.ofName? name with
  | none => throw (.fault (Workload.unknown name))
  | some workload =>
    match ← act workload.entry with
    | .error e => throw (.fault (Text.joined ": " e.messages))
    | .ok code =>
      let lines ← finite (← look fun w => w.fullListing? code)
      let head := workload.name ++ " " ++ workload.selector ++ " " ++
        workload.standardArgument.toInt.repr
      return .lines (head :: lines)

/-! ### Several machines -/

/-- A machine that sends messages one after another, in turns with others. -/
structure Worker where
  seat : Seat
  /-- Whether a message is on its way. -/
  busy : Bool
  /-- The messages left to send. -/
  left : List (Selector × List Recipe)
  /-- What has come of those that were sent, the last first. -/
  results : List (Except String Picture)

/-- Whether all messages were sent and have come to something. -/
def Worker.isDone (w : Worker) : Bool :=
  !w.busy && w.left.isEmpty

/-- What has come of a message that a machine was sent. -/
def trial (m : Machine) : Except String Picture :=
  match m.outcome with
  | .value v => .ok (m.world.picture v)
  | .unwound u => .error (u.fault m.world).message
  | .unfinished => .error (Fault.told "the run does not end").message

/-- The steps of a turn. -/
def patience : Nat := 65536

/-- A turn of a worker: it goes on with a message, or sends the next one. -/
def turn (k : Worker) : Ask Worker := do
  if k.busy then
    let m ← act fun w =>
      let m := (k.seat.machine w).run patience
      (m, m.world)
    if m.isFinal then
      return { k with seat := m.seat, busy := false, results := trial m :: k.results }
    else return { k with seat := m.seat }
  else
    match k.left with
    | [] => return k
    | (s, recipes) :: left =>
      match ← makeAll recipes with
      | [] => return { k with left, results := .error (Fault.noReceiver s).message :: k.results }
      | arguments => return { k with left, seat := k.seat.given (.send s arguments), busy := true }

/-- Turns of workers, until all of them are done. -/
def takeTurns : (rounds : Nat) → List Worker → Ask (List Worker)
  | 0, ks => return ks
  | rounds + 1, ks => do
    if ks.all Worker.isDone then return ks
    else takeTurns rounds (← ks.mapM turn)

/-- Whether two results look the same. -/
def sameResult (a b : Except String Picture) : Bool :=
  match a, b with
  | .ok p, .ok q => p == q
  | .error s, .error t => s == t
  | _, _ => false

/-- Adds results to those that were different so far, call by call. -/
def collect (seen : List (List (Except String Picture))) (results : List (Except String Picture)) :
    List (List (Except String Picture)) :=
  List.zipWith (fun seen r => if seen.any (sameResult r) then seen else seen ++ [r]) seen results

/-- The different results of each call, when the calls were made over and over. -/
def Worker.summary (k : Worker) (rounds : Nat) (calls : List (Selector × List Recipe)) :
    List (List (Except String Picture)) :=
  let results := k.results.reverse
  (List.range rounds).foldl
    (fun seen i => collect seen ((results.drop (i * calls.length)).take calls.length))
    (calls.map fun _ => [])

/-- Sends messages over and over by several new machines that take turns. -/
def parallel (workers rounds : Nat) (calls : List (Selector × List Recipe)) : Ask Answer := do
  let thread ← look World.thread
  let worker : Worker := ⟨.idle, false, (List.replicate rounds calls).flatten, []⟩
  let ks ← takeTurns allowance (List.replicate workers worker)
  change fun w => { w with thread }
  return .parallel (ks.map fun k => k.summary rounds calls)

/-- Adds a machine. -/
def newMachine : Ask Answer :=
  modifyGet fun s => (.number s.threads.size, { s with threads := s.threads.push .new })

/-! ### Frames -/

/-- The frame that a block was made in. -/
def context (r : Recipe) : Ask (Option FrameRef) := do
  let b ← block r
  look fun w => (w.heap.closure b).context

/-- The frames that a block is nested in. -/
def contexts (r : Recipe) : Ask Answer := do
  match ← context r with
  | none => return .contexts []
  | some f =>
    look fun w => .contexts ((f :: (w.heap.frame f).outer).map fun f =>
      ((w.heap.frame f).activation, (w.heap.frame f).marker))

/-- Writes a local of a frame. -/
def setLocal (f : FrameRef) (slot : Nat) (r : Recipe) : Ask PUnit := do
  let v ← make r
  if slot < (← look fun w => (w.heap.frame f).locals.size) then
    change fun w => { w with heap := w.heap.setLocal f slot v }
  else throw (.fault (Fault.localOutOfRange slot).message)

/-- Writes an argument of a frame. -/
def setArgument (f : FrameRef) (slot : Nat) (r : Recipe) : Ask PUnit := do
  let v ← make r
  if slot < (← look fun w => (w.heap.frame f).arguments.size) then
    change fun w => { w with heap := w.heap.setArgument f slot v }
  else throw (.fault (Fault.argumentOutOfRange slot).message)

/-- Shows a frame a number of levels outwards from a block, after a write to it. -/
def frame (r : Recipe) (level slot : Nat) (newLocal newArgument : Option Recipe) : Ask Answer := do
  match ← context r with
  | none => return .nothing
  | some f =>
    match ← look fun w => w.heap.enclosing? f level with
    | none => throw (.fault (Fault.contextTooDeep level).message)
    | some f =>
      match newLocal with
      | some r => setLocal f slot r
      | none => pure ()
      match newArgument with
      | some r => setArgument f slot r
      | none => pure ()
      look fun w =>
        let k := w.heap.frame f
        .frame k (w.picture k.receiver) (k.arguments.toList.map w.picture)
          (k.locals.toList.map w.picture) (w.heap.frame (w.heap.home f)).activation

/-! ### Any step -/

/-- Does a step. -/
def step (s : Step) (register : Option String) : Ask Answer := do
  match s with
  | .defineClass name super fields => defineClass name super fields register
  | .addField name field =>
    let c ← cls name
    return .number (← act fun w => w.addField c field)
  | .define name tree => define name tree
  | .compile name tree standard => compile name tree standard register
  | .run name arguments =>
    let code ← method name
    let arguments ← makeAll arguments
    answer register (← orFault (← act fun w => w.runMethod code arguments))
  | .eval body => eval body register
  | .send s arguments =>
    let arguments ← makeAll arguments
    answer register (← orFault (← act fun w => w.send s arguments))
  | .invoke name s arguments =>
    let i ← target name s
    perform (.invoke i (← makeAll arguments)) register
  | .evaluate r arguments =>
    let b ← block r
    perform (.evaluate b (← makeAll arguments)) register
  | .value r => answer register (← make r)
  | .updateLayout r =>
    match ← make r with
    | .object o =>
      return .truth (← act fun w =>
        let (changed, heap) := w.heap.updateLayout w.classes o
        (changed, { w with heap }))
    | _ => throw (.missing "not an instance")
  | .global name =>
    match ← look fun w => w.globals.read? name with
    | some v => return .global true (← look fun w => w.picture v)
    | none => return .global false .nil
  | .setGlobal name r =>
    let v ← make r
    change fun w => w.writeGlobal name v
    return .nothing
  | .lookup name s =>
    let c ← cls name
    match ← look fun w => w.classes.lookup c s with
    | some i => return .found i
    | none => return .nothing
  | .classInfo name => classInfo name
  | .classes => classes
  | .statistics => look fun w => .statistics w.thread.statistics
  | .resetStatistics =>
    change fun w => { w with thread := { w.thread with statistics := .zero } }
    return .nothing
  | .dump m => showCode (← named m)
  | .listing m =>
    let code ← named m
    return .lines (← finite (← look fun w => w.fullListing? code))
  | .methodInfo m => return .method (← named m)
  | .newChain name s =>
    keepChain name (.new s)
    return .text (Chain.new s).text
  | .dispatch name arguments => dispatch name arguments
  | .chainInfo name => return .chain (← chain name)
  | .primitive name s builtin => primitive name s builtin
  | .sameTarget name s otherName t =>
    let i ← target name s
    return .truth (i.same (← target otherName t))
  | .contexts r => contexts r
  | .frame r level slot newLocal newArgument => frame r level slot newLocal newArgument
  | .parallel workers rounds calls => parallel workers rounds calls
  | .newMachine => newMachine
  | .check tape literals arguments locals =>
    let literals ← literals.mapM literal
    return .number (← orCompileError (tape.stackBound literals.toArray arguments locals))
  | .assemble tape literals names loops a => assemble tape literals names loops a register
  | .draft script names finish a => draft script names finish a register
  | .workload name n => workload name n register
  | .workloadCode name => workloadCode name

end Ask

/-- Does what is requested, and tells about it. -/
def request (r : Request) (s : Session) : Record × Session :=
  let thread := s.threads.getD r.machine .new
  let held := s.held
  let s := { s with
    world := { s.world with thread, held, output := "", reports := [], events := [] } }
  let (answer, s) : Except Failure Answer × Session :=
    match (Ask.step r.step r.register).run s with
    | .ok a s => (.ok a, s)
    | .error e s => (.error e, s)
  let now := s.world.thread
  let changes := match r.step with
    | .resetStatistics => []
    | _ => now.statistics.since thread.statistics
  ({ answer, statistics := changes, output := s.world.output, reports := s.world.reports.reverse,
     events := s.world.events.reverse },
    { s with threads := s.threads.setIfInBounds r.machine now })

end Parley.Session
