import SortNetwork.Interleaving
import SortNetwork.Network.Partition
import SortNetwork.Parallel.Instruction
import SortNetwork.Scratch
import SortNetwork.StageCounts
import SortNetwork.TaskQueue
import SortNetwork.Total

/-!
# SortNetwork.Parallel.Machine

Workers that carry out their instructions on segments they share.

The shared store holds the segments and everything the workers use to agree on who may touch which: the
stage counts of segments and of workers, a barrier, a queue for each worker, and the merge buffers.
`execute` performs one instruction on the store; `Machine.step` does so for the first instruction of a
worker and puts what follows from it in front of the worker's list.  A poll in vain is put back behind what
the worker does between polls.  A drain takes one task at a time and keeps no count of them: no worker asks for
it, and `length_haul_lt` in `SortNetwork.Proofs.Safety` shows that a word would hold it.

`Machine.system` makes these steps a system in which the workers may act in any order.

* `step_eq_finished_iff`: a worker is done exactly when it has no instructions left.
-/

namespace SortNetwork.Parallel

variable {α : Type}

/-- What the workers share. -/
structure Store (α : Type) where
  segments : Segments α
  segmentCounts : StageCounts
  workerCounts : StageCounts
  barrier : Barrier
  queues : Array (TaskQueue SegmentTask)
  scratch : Scratch α

/-- A worker: what it has to do, what it does between two polls in vain, and its registration. -/
structure Worker where
  code : List Instruction
  between : List Instruction
  registered : Registration := none

/-- The store and the workers. -/
structure State (α : Type) where
  store : Store α
  workers : Array Worker

/-- What all workers know: the order of the elements, how many they are, and whether segments are
counted. -/
structure Machine (α : Type) where
  order : ElementOrder α
  threads : Nat
  counting : Bool

/-- What performing an instruction did. -/
inductive Effect (α : Type) where
  /-- it was performed, and `more` is to be done before anything else -/
  | done (store : Store α) (registered : Registration) (more : List Instruction)
  /-- it polled in vain -/
  | again

namespace Store

/-- Takes the oldest task from a worker's queue, if there is one. -/
def pop (store : Store α) (owner : Nat) : Except Fault (Option SegmentTask × Store α) :=
  if h : owner < store.queues.size then
    match store.queues[owner].pop? with
    | none => .ok (none, store)
    | some (task, left) => .ok (some task, { store with queues := store.queues.set owner left })
  else .error (.indexOutOfBounds store.queues.size owner)

/-- Puts a task on a worker's queue. -/
def push (store : Store α) (owner : Nat) (task : SegmentTask) : Except Fault (Store α) :=
  if h : owner < store.queues.size then
    .ok { store with queues := store.queues.set owner (store.queues[owner].push task) }
  else .error (.indexOutOfBounds store.queues.size owner)

/-- Performs a task through the buffer of a worker with this registration. -/
def perform (order : ElementOrder α) (store : Store α) (registered : Registration)
    (task : SegmentTask) : Except Fault (Store α) :=
  match task.perform order ⟨store.segments, store.scratch.contents registered⟩ with
  | .ok bench =>
    .ok { store with
      segments := bench.segments
      scratch := store.scratch.store registered bench.buffer }
  | .error fault => .error fault

end Store

namespace Machine

/-- Performs one instruction of a worker. -/
def execute (m : Machine α) (worker : Nat) (registered : Registration) (store : Store α) :
    Instruction → Except Fault (Effect α)
  | .enter => do
    let (_, registered) ← store.scratch.enter worker registered
    return .done store registered []
  | .perform task => do
    return .done (← store.perform m.order registered task) registered []
  | .advance id => do
    return .done { store with segmentCounts := ← store.segmentCounts.advance id } registered []
  | .await id => do
    let own ← store.workerCounts.load worker
    let completed ← store.segmentCounts.load id
    return if completed = own then .done store registered [] else .again
  | .nextStage => do
    return .done { store with workerCounts := ← store.workerCounts.advance worker } registered []
  | .push task => do
    return .done (← store.push worker task) registered []
  | .drain owner => do
    match ← store.pop owner with
    | (none, store) => return .done store registered []
    | (some task, store) => return .done store registered (taskCode m.counting task ++ [.drain owner])
  | .drainIfBehind owner => do
    let own ← store.workerCounts.load worker
    let theirs ← store.workerCounts.load owner
    return .done store registered (if theirs < own then [.drain owner] else [])
  | .barrier call =>
    match store.barrier.step m.threads call with
    | .moved barrier next => .ok (.done { store with barrier } registered [.barrier next])
    | .unchanged => .ok .again
    | .left barrier => .ok (.done { store with barrier } registered [])

/-- Performs the first instruction of a worker. -/
def step (m : Machine α) (worker : Nat) (s : State α) : Outcome (State α) :=
  if h : worker < s.workers.size then
    match s.workers[worker].code with
    | [] => .finished
    | instruction :: rest =>
      match m.execute worker s.workers[worker].registered s.store instruction with
      | .ok (.done store registered more) =>
        .progress {
          store
          workers := s.workers.set worker { s.workers[worker] with code := more ++ rest, registered } }
      | .ok .again =>
        .waiting { s with
          workers := s.workers.set worker { s.workers[worker] with
            code := s.workers[worker].between ++ instruction :: rest } }
      | .error cause => .fault cause
  else .finished

/-- A worker is done exactly when it has no instructions left. -/
theorem step_eq_finished_iff {m : Machine α} {worker : Nat} {s : State α} :
    m.step worker s = .finished ↔ ∀ w, s.workers[worker]? = some w → w.code = [] := by
  unfold step
  split
  · next inside =>
    rw [Array.getElem?_eq_getElem inside]
    split
    · next done => simp [done]
    · next more =>
      constructor
      · intro absurdity
        split at absurdity <;> cases absurdity
      · intro all
        cases more.symm.trans (all _ rfl)
  · next outside => simp [Array.getElem?_eq_none (Nat.not_lt.1 outside)]

/-- The workers as a system. -/
def system (m : Machine α) : System (State α) := ⟨m.threads, m.step⟩

end Machine

/-! ## the work that is left -/

/-- How many steps a queued task leads to, the one that takes it included. -/
def taskCost : Nat := 4

/-- How many steps an instruction leads to, if nobody polls in vain.  A task that is pushed counts for the
steps of whoever takes it. -/
def Instruction.cost : Instruction → Nat
  | .enter | .perform _ | .advance _ | .await _ | .nextStage | .drain _ => 1
  | .push _ => 1 + taskCost
  | .drainIfBehind _ => 2
  | .barrier .entering => 4
  | .barrier (.arriving _) => 3
  | .barrier (.resetting _) => 2
  | .barrier (.polling _) | .barrier (.releasing _) => 1

/-- How many steps a list of instructions leads to. -/
def codeCost (code : List Instruction) : Nat := total Instruction.cost code

/-- How many steps all workers together have before them. -/
def State.cost (s : State α) : Nat :=
  total (fun worker => codeCost worker.code) s.workers.toList +
    total (fun queue => taskCost * queue.size) s.store.queues.toList

/-- Lets the workers act until all are done.  A worker only acts when it can do more than poll in vain, so
the work before them bounds the steps. -/
def Machine.run (m : Machine α) (start : State α) : System.Ending (State α) :=
  m.system.run start.cost start

end SortNetwork.Parallel
