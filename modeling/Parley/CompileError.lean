/-!
# Compile errors

Why a method is not compiled. A misfit of the splicer and a rejected tape are defects of the
compiler, the other two are the fault of the tree. None can be recovered from.
-/

namespace Parley

/-- The reasons for which a method fails to compile. -/
inductive CompileError where
  /-- Code that cannot be spliced into another program. -/
  | splice (message : String)
  /-- A tape that was rejected, and the offset at which. -/
  | rejected (ip : Nat) (message : String)
  /-- More of something than an operand can number. -/
  | limit (message : String)
  /-- A tree that the language does not allow. -/
  | invalid (message : String)
deriving DecidableEq, Inhabited

/-- The text of a compile error. -/
def CompileError.message : CompileError → String
  | .splice m => "block inliner inconsistency: " ++ m
  | .rejected ip m => "bytecode verification failed at " ++ ip.repr ++ ": " ++ m
  | .limit m => "compiler limit exceeded: " ++ m
  | .invalid m => "invalid method: " ++ m

end Parley
