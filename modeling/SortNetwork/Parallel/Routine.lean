import SortNetwork.Parallel.Machine

/-!
# SortNetwork.Parallel.Routine

What the workers of a strategy start with, and how a sort is set up.

A routine gives each worker its instructions, from its share of the segments, the other workers in the order
in which it visits them, and the stages.  `Routine.setUp` checks every size, share and number that a worker
will use and puts together the machine's first state.
-/

namespace SortNetwork.Parallel

variable {α : Type}

/-- How the workers of a strategy go about their work. -/
structure Routine where
  /-- whether tasks count the stages of the segments they touch -/
  counting : Bool
  /-- what a worker does -/
  code : (share : Partition) → (peers : List Nat) → List Stage → List Instruction
  /-- what a worker does between two polls in vain -/
  between : (peers : List Nat) → List Instruction

/-- The other workers, starting with the next one and going round. -/
def peers (worker threads : Nat) : Except Fault (List Nat) :=
  (List.range' 1 (threads - 1)).mapM fun offset => do
    let sum ← Word.add worker offset
    Word.rem sum threads

namespace Routine

/-- A worker with its instructions. -/
def worker (routine : Routine) (threads segments number : Nat) : Except Fault Worker := do
  let share ← Partition.share number threads segments
  let others ← peers number threads
  return { code := routine.code share others (stages segments), between := routine.between others }

/-- All workers.  The first one is always there, since it is the caller. -/
def crew (routine : Routine) (threads segments : Nat) : Except Fault (List Worker) :=
  (List.range (max 1 threads)).mapM (routine.worker threads segments)

/-- The first state of a sort: the list cut into segments, counts that must be one for each segment if
they are used, and for each worker a count, a queue and a buffer. -/
def setUp (routine : Routine) (threads size : Nat) (barrier : BarrierKind) (counts : StageCounts)
    (data : List α) : Except Fault (State α) := do
  let segments ← Segments.ofList size data
  if routine.counting && counts.size != segments.count then
    throw (.valuesDiffer counts.size segments.count)
  let scratch ← Scratch.create threads size
  let workers ← routine.crew threads segments.count
  return {
    store := {
      segments
      segmentCounts := counts
      workerCounts := .start threads
      barrier := { kind := barrier }
      queues := Array.replicate threads .empty
      scratch }
    workers := workers.toArray }

/-- The machine that carries a routine out. -/
def machine (routine : Routine) (order : ElementOrder α) (threads : Nat) : Machine α :=
  { order, threads, counting := routine.counting }

end Routine

end SortNetwork.Parallel
