/-!
# Traces

The compiler and the machine report what they do as events, for those who watch them. An event
has a level, a topic, a message and fields. Events change nothing: a machine that keeps them
does the same as one that does not.
-/

namespace Parley

/-- How much attention an event asks for. -/
inductive Level where
  | trace
  | debug
  | warn
deriving DecidableEq, Inhabited

/-- Something reported. -/
structure Event where
  level : Level
  /-- The topic, as watchers select it. -/
  topic : String
  message : String
  /-- The fields besides the message: names and texts. -/
  fields : List (String × String)
deriving Inhabited

/-- The name of a level. -/
def Level.name : Level → String
  | .trace => "TRACE"
  | .debug => "DEBUG"
  | .warn => "WARN"

namespace Topic

/-- Blocks spliced into their methods. -/
def inlining : String := "sprig::compiler::inline"

/-- Call sites and method tables. -/
def dispatch : String := "sprig::vm::dispatch"

/-- Specialized instructions. -/
def quickening : String := "sprig::vm::quicken"

/-- Operations that took a slow path. -/
def slowPath : String := "sprig::vm::slowpath"

/-- Returns out of blocks, and restarts. -/
def unwinding : String := "sprig::vm::nlr"

/-- Long loops. -/
def loops : String := "sprig::vm::osr"

/-- The machine at large. -/
def machine : String := "sprig::vm"

end Topic

end Parley
