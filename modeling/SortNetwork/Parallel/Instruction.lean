import SortNetwork.Barrier
import SortNetwork.SegmentTask

/-!
# SortNetwork.Parallel.Instruction

What the workers of a parallel sort are told to do.

A worker's instructions form a list, each entry one atomic step.  Some steps put further instructions in
front of those that remain: taking a task from a queue, for instance, is followed by the instructions of
that task and then by the next attempt to take one.  A strategy is nothing but the list that each worker
starts with, together with what a worker does between two polls in vain.
-/

namespace SortNetwork.Parallel

/-- One atomic step of a worker. -/
inductive Instruction where
  /-- register for the worker's own merge buffer -/
  | enter
  /-- sort a segment or merge two, here and now -/
  | perform (task : SegmentTask)
  /-- count one more stage for a segment -/
  | advance (id : Nat)
  /-- poll until a segment has completed as many stages as this worker -/
  | await (id : Nat)
  /-- count one more stage for this worker -/
  | nextStage
  /-- put a task on this worker's own queue -/
  | push (task : SegmentTask)
  /-- take a task from the queue of a worker and perform it, until there is none -/
  | drain (owner : Nat)
  /-- drain the queue of a worker if it has completed fewer stages than this one -/
  | drainIfBehind (owner : Nat)
  /-- go on with a call to the barrier -/
  | barrier (call : Barrier.Call)
  deriving DecidableEq, Repr

/-- Calls the barrier. -/
abbrev Instruction.meet : Instruction := .barrier .entering

/-- What performing a queued task takes.  Where segments are counted, the task counts those it touched. -/
def taskCode (counting : Bool) (task : SegmentTask) : List Instruction :=
  .perform task :: if counting then task.touched.map .advance else []

end SortNetwork.Parallel
