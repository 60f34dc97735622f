import Parley.Host
import Parley.Session.Step

/-!
# Sessions

A session is a world with several machines and with registers. Whatever the registers hold is
held in the world too, so that nothing they refer to is gone.
-/

namespace Parley

/-- A world with machines and registers. -/
structure Session where
  world : World
  /-- The machines; that of the step in progress is in the world. -/
  threads : Array Thread
  values : Directory Value
  methods : Directory Code
  chains : Directory Chain
deriving Inhabited

namespace Session

/-- A new session with one machine. -/
def start (settings : Settings) (handler : Handler) (sink : Sink) (watched : Bool) : Session where
  world := .boot settings handler sink watched
  threads := #[.new]
  values := .empty
  methods := .empty
  chains := .empty

/-- What the registers hold. -/
def held (s : Session) : List Held :=
  s.values.entries.map (fun e => .value e.2) ++ s.methods.entries.map (fun e => .code e.2) ++
    s.chains.entries.map (fun e => .chain e.2)

/-- Something to do in a session, which may come to nothing. -/
abbrev Ask := EStateM Failure Session

namespace Ask

/-- Looks at the world. -/
def look {α : Type} (f : World → α) : Ask α :=
  return f (← get).world

/-- Does something in the world. -/
def act {α : Type} (f : World → α × World) : Ask α :=
  modifyGet fun s =>
    let (a, world) := f s.world
    (a, { s with world })

/-- Changes the world. -/
def change (f : World → World) : Ask PUnit :=
  modify fun s => { s with world := f s.world }

/-- What there is, or the failure that it is missing. -/
def found {α : Type} (a : Option α) (missing : String) : Ask α :=
  match a with
  | some a => return a
  | none => throw (.missing missing)

/-- The texts of things, or the failure that there are none. -/
def finite {α : Type} (a : Option α) : Ask α :=
  match a with
  | some a => return a
  | none => throw (.fault "a value that contains itself has no text")

/-! ### Registers -/

/-- Puts a value into a register, if one is named. -/
def keepValue (register : Option String) (v : Value) : Ask PUnit :=
  match register with
  | some name => modify fun s => { s with values := s.values.put name v }
  | none => return

/-- Puts a method into a register, if one is named. -/
def keepMethod (register : Option String) (c : Code) : Ask PUnit :=
  match register with
  | some name => modify fun s => { s with methods := s.methods.put name c }
  | none => return

/-- Puts a dispatch chain into a register. -/
def keepChain (name : String) (c : Chain) : Ask PUnit :=
  modify fun s => { s with chains := s.chains.put name c }

/-- The method in a register. -/
def method (name : String) : Ask Code := do
  found ((← get).methods.get? name) ("no method register '" ++ name ++ "'")

/-- The dispatch chain in a register. -/
def chain (name : String) : Ask Chain := do
  found ((← get).chains.get? name) ("no chain register '" ++ name ++ "'")

/-! ### Names -/

/-- The class with a name. -/
def cls (name : String) : Ask ClassRef := do
  found (← look fun w => w.classes.named? name) ("no class '" ++ name ++ "'")

/-- What a lookup finds. -/
def target (name : String) (s : Selector) : Ask Invokable := do
  let c ← cls name
  found (← look fun w => w.classes.lookup c s) ("no method " ++ name ++ ">>" ++ s)

/-- A method to look at. -/
def named : MethodName → Ask Code
  | .register name => method name
  | .installed name s => do
    let c ← cls name
    match ← look fun w => w.classes.own? c s with
    | some (.method code) => return code
    | _ => throw (.missing ("no method " ++ name ++ ">>" ++ s))

/-! ### Values -/

/-- Makes a value. -/
def make (r : Recipe) : Ask Value := do
  let registers := (← get).values
  match ← act (r.make registers) with
  | .ok v => return v
  | .error e => throw (.missing e.message)

/-- Makes values one after another. -/
def makeAll (rs : List Recipe) : Ask (List Value) :=
  rs.mapM make

/-- Makes a value that must be a block. -/
def block (r : Recipe) : Ask BlockRef := do
  match ← make r with
  | .block b => return b
  | _ => throw (.missing "not a block")

/-- Keeps a value and answers with its picture. -/
def answer (register : Option String) (v : Value) : Ask Answer := do
  keepValue register v
  return .value (← look fun w => w.picture v)

/-- The value of a run for a host. -/
def orFault {α : Type} (r : Except Fault α) : Ask α :=
  match r with
  | .ok a => return a
  | .error f => throw (.fault f.message)

/-- What is compiled, or the failure. -/
def orCompileError {α : Type} (r : Except CompileError α) : Ask α :=
  match r with
  | .ok a => return a
  | .error e => throw (.compile e)

/-- The failure that an unwind is. -/
def unwound (u : Unwind) (w : World) : Failure :=
  match u.text? w with
  | some text => .unwound u (u.fault w).message text
  | none => .fault (u.fault w).message

/-- What a run comes to where unwinds are told apart. -/
def outcome (o : Outcome) : Ask (Except Failure Value) := do
  match o with
  | .value v => return .ok v
  | .unwound u => return .error (← look (unwound u))
  | .unfinished => return .error (.fault "the run does not end")

end Ask

end Session

end Parley
