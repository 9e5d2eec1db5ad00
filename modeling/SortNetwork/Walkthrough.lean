import SortNetwork.Network.Partition
import SortNetwork.SegmentTask

/-!
# SortNetwork.Walkthrough

The schedule of the partitioned strategies, performed stage by stage on one worker.

Every share sorts its segments, and then, stage after stage, merges its pairs, one share after the other.
The list is recorded after the local sorts and after every stage.
-/

namespace SortNetwork.Walkthrough

variable {α : Type}

/-- The list after a stage, with the merges that led there and the worker whose share each belongs to. -/
structure Record (α : Type) where
  stage : Stage
  pairs : List (Nat × Pair)
  data : List α

/-- Performs tasks in turn; the first fault ends the walk. -/
def performTasks (order : ElementOrder α) (bench : Bench α) (tasks : List SegmentTask) :
    Except Fault (Bench α) :=
  tasks.foldlM (SegmentTask.perform order) bench

/-- The merges of a stage, share by share. -/
def stagePairs (shares : List Partition) (stage : Stage) : List (Nat × Pair) :=
  shares.flatMap fun share => (share.pairs stage).map (share.worker, ·)

/-- Performs stages in turn and records the list after each. -/
def walkStages (order : ElementOrder α) (shares : List Partition) :
    List Stage → Bench α → Except Fault (List (Record α))
  | [], _ => return []
  | stage :: stages, bench => do
    let pairs := stagePairs shares stage
    let bench ← performTasks order bench (pairs.map fun (_, pair) => .merge pair)
    let records ← walkStages order shares stages bench
    return { stage, pairs, data := bench.segments.toList } :: records

/-- Walks through a whole sort: the list after the local sorts, and the records of the stages. -/
def walk (order : ElementOrder α) (size threads : Nat) (data : List α) :
    Except Fault (List α × List (Record α)) := do
  let segments ← Segments.ofList size data
  let shares ← (List.range threads).mapM fun worker => Partition.share worker threads segments.count
  let bench ← performTasks order ⟨segments, []⟩
    (shares.flatMap fun share => share.segments.map .sort)
  let records ← walkStages order shares (stages segments.count) bench
  return (bench.segments.toList, records)

end SortNetwork.Walkthrough
