import SortNetwork.Parallel.Routine

/-!
# SortNetwork.Parallel.Stealing

Queued tasks, stages kept apart by two barriers.

Workers queue their sorts and merges, drain their own queue, and then meet.  While a worker waits at the
barrier it drains the queues of the others, so that the tasks a slow worker has left are spread.  A task
taken that way may still be running when the barrier lets everybody go.  That is why every stage begins
with another meeting, which cannot end before all workers are back from such tasks.
-/

namespace SortNetwork.Parallel.Stealing

/-- What a worker does in one stage. -/
def stageCode (share : Partition) (stage : Stage) : List Instruction :=
  .meet :: (share.pairs stage).map (.push ∘ .merge) ++ [.drain share.worker, .meet]

/-- What a worker does. -/
def code (share : Partition) (stages : List Stage) : List Instruction :=
  .enter :: share.segments.map (.push ∘ .sort) ++
    .drain share.worker :: .meet :: stages.flatMap (stageCode share)

/-- Workers that take each other's tasks while they wait at a barrier. -/
def routine : Routine where
  counting := false
  code share _ stages := code share stages
  between peers := peers.map .drain

end SortNetwork.Parallel.Stealing
