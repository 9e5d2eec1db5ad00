import SortNetwork.TaskQueue.Workshop

/-!
# SortNetwork.TaskQueue.Relay

Producers and consumers that share one queue.

Every producer pushes the same number of jobs and every consumer drains the queue.  A job bears the number
of its producer and its place among the producer's jobs, and is worth that place, counted from one.
-/

namespace SortNetwork.Relay

/-- Who pushed a job, and as which of its jobs. -/
structure Label where
  producer : Nat
  place : Nat
  deriving DecidableEq, Repr

/-- What is known after all consumers are done. -/
structure Result where
  /-- for each producer, what its jobs that ran are worth together -/
  sums : List Nat
  /-- how many jobs the consumers counted -/
  drained : Nat
  /-- how many jobs are still queued -/
  left : Nat
  /-- for a single consumer, whether the jobs of each producer ran in the order in which they were pushed -/
  inOrder : Option Bool
  deriving DecidableEq, Repr

/-- What a producer has to do. -/
def pushes (producer tasks : Nat) : List (Workshop.Instruction Label) :=
  (List.range tasks).map fun place => .perform (.push 0 ⟨producer, place⟩ [])

/-- The labels of the jobs that ran, in order. -/
def started (log : List (Workshop.Entry Label)) : List Label :=
  log.filterMap fun
    | .started label => some label
    | _ => none

/-- What the drains counted, together. -/
def drainedCount (log : List (Workshop.Entry Label)) : Nat :=
  total (fun
    | .drained _ count => count
    | _ => 0) log

/-- The places of a producer's jobs among those that ran. -/
def placesOf (producer : Nat) (labels : List Label) : List Nat :=
  (labels.filter (·.producer == producer)).map Label.place

/-- Lets all producers push and then all consumers drain. -/
def run (producers consumers tasks : Nat) : Result :=
  let code := (List.range producers).map (pushes · tasks) ++
    List.replicate consumers [.perform (.drain 0)]
  let shop := code.foldl (fun shop code => (shop.run code).1) (Workshop.Shop.opened 1)
  let log := shop.log.toList
  let labels := started log
  { sums := (List.range producers).map fun p => total (· + 1) (placesOf p labels)
    drained := drainedCount log
    left := total TaskQueue.size shop.queues.toList
    inOrder :=
      if consumers = 1 then
        some ((List.range producers).all fun p => placesOf p labels == List.range tasks)
      else none }

end SortNetwork.Relay
