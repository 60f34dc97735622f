import Parley.Machine.Step

/-!
# Machines that take turns

Machines on one world may take turns, each for some steps at a time. Between its turns a machine
keeps its job, what is pending, and its own counters; all else is in the world, where the others
change it meanwhile.
-/

namespace Parley

/-- What a machine keeps while others have their turns. -/
structure Seat where
  thread : Thread
  job : Job
  pending : List Pending
deriving Inhabited

namespace Seat

/-- A machine that has done nothing and has nothing to do. -/
def idle : Seat := ⟨.new, .answer .nil, []⟩

/-- The machine of a seat, in the world as it is now. -/
def machine (s : Seat) (w : World) : Machine :=
  ⟨{ w with thread := s.thread }, s.job, s.pending⟩

/-- A seat whose machine is given a job. -/
def given (s : Seat) (job : Job) : Seat :=
  ⟨s.thread, job, []⟩

end Seat

/-- What a machine keeps. -/
def Machine.seat (m : Machine) : Seat :=
  ⟨m.world.thread, m.job, m.pending⟩

end Parley
