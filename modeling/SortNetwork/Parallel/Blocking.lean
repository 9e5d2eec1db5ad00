import SortNetwork.Parallel.Routine

/-!
# SortNetwork.Parallel.Blocking

Stages kept apart by a barrier.

Every worker sorts its own segments and meets the others; then, stage after stage, it merges the pairs of
its share and meets the others again.  Nobody starts a stage before everybody has finished the one before.
-/

namespace SortNetwork.Parallel.Blocking

/-- What a worker does in one stage. -/
def stageCode (share : Partition) (stage : Stage) : List Instruction :=
  (share.pairs stage).map (.perform ∘ .merge) ++ [.meet]

/-- What a worker does. -/
def code (share : Partition) (stages : List Stage) : List Instruction :=
  .enter :: share.segments.map (.perform ∘ .sort) ++ .meet :: stages.flatMap (stageCode share)

/-- Workers that meet after each stage. -/
def routine : Routine where
  counting := false
  code share _ stages := code share stages
  between _ := []

end SortNetwork.Parallel.Blocking
