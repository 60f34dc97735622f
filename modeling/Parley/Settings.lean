/-!
# Settings

What can be tuned about a machine: how much call sites remember, how deep activations may nest,
and how literal blocks are compiled.
-/

namespace Parley

/-- The settings of a machine. -/
structure Settings where
  /-- The most guarded entries that a call site keeps before it looks up every call. -/
  cacheSize : Nat
  /-- The most activations that may be nested. -/
  maxDepth : Nat
  /-- An activation that jumps back at least this often is reported. -/
  loopReport : Nat
  /-- Whether a call site may be bound to a built-in operation. -/
  eager : Bool
  /-- Whether literal blocks of control-flow messages are inlined. -/
  inlining : Bool
deriving DecidableEq

/-- The settings without any choice. -/
def Settings.standard : Settings where
  cacheSize := 6
  maxDepth := 10000
  loopReport := 10000
  eager := true
  inlining := true

instance : Inhabited Settings := ⟨Settings.standard⟩

end Parley
