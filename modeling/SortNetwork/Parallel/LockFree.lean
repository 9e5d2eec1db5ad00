import SortNetwork.Parallel.Routine

/-!
# SortNetwork.Parallel.LockFree

Merges that wait for their segments only.

In each stage a segment is touched by one merge, which needs no more than that both its segments have
finished the stage before.  So a worker counts the stages that each segment has completed, and before a
merge it polls the counts of the two segments until both have come as far as the worker itself.
-/

namespace SortNetwork.Parallel.LockFree

/-- Waits for both segments of a pair, merges them, and counts the stage for both. -/
def pairCode (pair : Pair) : List Instruction :=
  [.await pair.lower, .await pair.upper, .perform (.merge pair), .advance pair.lower,
    .advance pair.upper]

/-- What a worker does in one stage. -/
def stageCode (share : Partition) (stage : Stage) : List Instruction :=
  (share.pairs stage).flatMap pairCode ++ [.nextStage]

/-- Sorts a segment and counts that as its first stage. -/
def sortCode (id : Nat) : List Instruction := [.perform (.sort id), .advance id]

/-- What a worker does. -/
def code (share : Partition) (stages : List Stage) : List Instruction :=
  .enter :: share.segments.flatMap sortCode ++ .nextStage :: stages.flatMap (stageCode share)

/-- Workers that wait for single segments. -/
def routine : Routine where
  counting := true
  code share _ stages := code share stages
  between _ := []

end SortNetwork.Parallel.LockFree
