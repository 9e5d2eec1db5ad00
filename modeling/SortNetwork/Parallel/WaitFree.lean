import SortNetwork.Parallel.Routine

/-!
# SortNetwork.Parallel.WaitFree

Queued tasks that wait for their segments only.

As where merges wait for single segments, a worker waits for the two segments of a pair.  But then it queues
the merge, and while it waits it drains the queue of every worker that has completed fewer stages than
itself, since such a queue may hold the very task it is waiting for.  A worker has completed a stage when it
has drained its own queue and helped those behind.
-/

namespace SortNetwork.Parallel.WaitFree

/-- Waits for both segments of a pair and queues their merge. -/
def pairCode (pair : Pair) : List Instruction :=
  [.await pair.lower, .await pair.upper, .push (.merge pair)]

/-- Completes a stage. -/
def finishCode (worker : Nat) (peers : List Nat) : List Instruction :=
  .drain worker :: peers.map .drainIfBehind ++ [.nextStage]

/-- What a worker does in one stage. -/
def stageCode (share : Partition) (peers : List Nat) (stage : Stage) : List Instruction :=
  (share.pairs stage).flatMap pairCode ++ finishCode share.worker peers

/-- What a worker does. -/
def code (share : Partition) (peers : List Nat) (stages : List Stage) : List Instruction :=
  .enter :: share.segments.map (.push ∘ .sort) ++
    (finishCode share.worker peers ++ stages.flatMap (stageCode share peers))

/-- Workers that take the tasks of those behind while they wait for single segments. -/
def routine : Routine where
  counting := true
  code := code
  between peers := peers.map .drainIfBehind

end SortNetwork.Parallel.WaitFree
