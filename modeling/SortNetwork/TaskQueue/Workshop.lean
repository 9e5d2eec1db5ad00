import SortNetwork.Fault
import SortNetwork.TaskQueue
import SortNetwork.Total

/-!
# SortNetwork.TaskQueue.Workshop

Tasks that use the queues they were taken from.

A job is a finite script: while it runs it may push further jobs, take and run others, drain a queue or set
a job aside, on its own queue or on another one, to any depth.  What a worker still has to do is a stack of
instructions; running a job puts its script on top.  One step (`Shop.step`) performs the top instruction, so
that the steps of several workers can be interleaved; `Shop.run` lets one worker finish.

A fault, such as a job that fails on purpose, drops everything the worker still had to do.  The job that
was running is gone by then, and the other jobs stay where they are.

Every job runs at most once for each time it is pushed, and a script is finite, so the work left in the shop
shrinks with every step.

* `weight_lt_of_step`: every step leaves less work.
-/

namespace SortNetwork.Workshop

variable {ι : Type}

/-! ## jobs and instructions -/

/-- An operation on the queues of a shop, or on the jobs set aside. -/
inductive Operation (ι : Type) where
  | push (queue : Nat) (label : ι) (script : List (Operation ι))
  /-- takes a job and drops it -/
  | pop (queue : Nat)
  /-- takes a job and runs it -/
  | popRun (queue : Nat)
  /-- takes a job and sets it aside -/
  | hold (queue : Nat)
  /-- runs the job set aside first, which the log tells under a queue -/
  | runHeld (queue : Nat)
  /-- pushes the job set aside first -/
  | requeueHeld (queue : Nat)
  /-- takes and runs jobs until there is none, and counts them -/
  | drain (queue : Nat)
  | measure (queue : Nat)
  | fail (message : String)

/-- A queued job: its label and what it does. -/
structure Job (ι : Type) where
  label : ι
  script : List (Operation ι)

/-- What a worker has to do next. -/
inductive Instruction (ι : Type) where
  | perform (operation : Operation ι)
  /-- the job with this label is done -/
  | finish (label : ι)
  /-- `count` jobs were drained so far, and the queue is drained on -/
  | drainOn (queue count : Nat)
  /-- the job taken from the queue is done -/
  | ran (queue : Nat)

/-- What can be seen of the work. -/
inductive Entry (ι : Type) where
  | started (label : ι)
  | ended (label : ι)
  | popped (queue : Nat) (found : Bool)
  | poppedRun (queue : Nat) (found : Bool)
  | held (queue : Nat) (found : Bool)
  | heldRun (queue : Nat) (found : Bool)
  | requeued (queue : Nat) (found : Bool)
  | drained (queue count : Nat)
  | measured (queue size : Nat)

/-- The queues, the jobs set aside and the log. -/
structure Shop (ι : Type) where
  queues : Array (TaskQueue (Job ι))
  aside : TaskQueue (Job ι)
  log : Array (Entry ι)

/-- A shop with this many empty queues. -/
def Shop.opened (queues : Nat) : Shop ι := ⟨Array.replicate queues .empty, .empty, #[]⟩

/-- What a worker does to run a job. -/
def Job.code (job : Job ι) : List (Instruction ι) :=
  job.script.map .perform ++ [.finish job.label]

namespace Shop

/-- Adds a line to the log. -/
def note (shop : Shop ι) (entry : Entry ι) : Shop ι := { shop with log := shop.log.push entry }

/-- Pushes a job. -/
def push (shop : Shop ι) (queue : Nat) (job : Job ι) : Except Fault (Shop ι) :=
  if h : queue < shop.queues.size then
    .ok { shop with queues := shop.queues.set queue (shop.queues[queue].push job) }
  else .error (.indexOutOfBounds shop.queues.size queue)

/-- Takes the oldest job of a queue, if there is one. -/
def pop (shop : Shop ι) (queue : Nat) : Except Fault (Option (Job ι) × Shop ι) :=
  if h : queue < shop.queues.size then
    match shop.queues[queue].pop? with
    | none => .ok (none, shop)
    | some (job, left) => .ok (some job, { shop with queues := shop.queues.set queue left })
  else .error (.indexOutOfBounds shop.queues.size queue)

/-- Takes the job set aside first, if there is one. -/
def unhold (shop : Shop ι) : Option (Job ι) × Shop ι :=
  match shop.aside.pop? with
  | none => (none, shop)
  | some (job, left) => (some job, { shop with aside := left })

/-! ## single steps -/

/-- What one step of a worker did. -/
inductive Turn (ι : Type) where
  /-- there was nothing to do -/
  | ended
  /-- the shop afterwards, and what the worker has to do now -/
  | moved (shop : Shop ι) (code : List (Instruction ι))
  /-- the worker gave up -/
  | failed (shop : Shop ι) (fault : Fault)

/-- Performs an operation; `rest` is what the worker does afterwards. -/
def perform (shop : Shop ι) (rest : List (Instruction ι)) : Operation ι → Turn ι
  | .push queue label script =>
    match shop.push queue ⟨label, script⟩ with
    | .ok shop => .moved shop rest
    | .error fault => .failed shop fault
  | .pop queue =>
    match shop.pop queue with
    | .ok (job, shop) => .moved (shop.note (.popped queue job.isSome)) rest
    | .error fault => .failed shop fault
  | .popRun queue =>
    match shop.pop queue with
    | .ok (none, shop) => .moved (shop.note (.poppedRun queue false)) rest
    | .ok (some job, shop) => .moved (shop.note (.started job.label)) (job.code ++ .ran queue :: rest)
    | .error fault => .failed shop fault
  | .hold queue =>
    match shop.pop queue with
    | .ok (none, shop) => .moved (shop.note (.held queue false)) rest
    | .ok (some job, shop) =>
      .moved ({ shop with aside := shop.aside.push job }.note (.held queue true)) rest
    | .error fault => .failed shop fault
  | .runHeld queue =>
    match shop.unhold with
    | (none, shop) => .moved (shop.note (.heldRun queue false)) rest
    | (some job, shop) =>
      .moved ((shop.note (.heldRun queue true)).note (.started job.label)) (job.code ++ rest)
  | .requeueHeld queue =>
    match shop.unhold with
    | (none, shop) => .moved (shop.note (.requeued queue false)) rest
    | (some job, shop) =>
      match (shop.note (.requeued queue true)).push queue job with
      | .ok shop => .moved shop rest
      | .error fault => .failed (shop.note (.requeued queue true)) fault
  | .drain queue => .moved shop (.drainOn queue 0 :: rest)
  | .measure queue =>
    if h : queue < shop.queues.size then
      .moved (shop.note (.measured queue shop.queues[queue].size)) rest
    else .failed shop (.indexOutOfBounds shop.queues.size queue)
  | .fail message => .failed shop (.taskFailed message)

/-- Performs the first instruction of a worker. -/
def step (shop : Shop ι) : List (Instruction ι) → Turn ι
  | [] => .ended
  | .perform operation :: rest => shop.perform rest operation
  | .finish label :: rest => .moved (shop.note (.ended label)) rest
  | .drainOn queue count :: rest =>
    match shop.pop queue with
    | .ok (none, shop) => .moved (shop.note (.drained queue count)) rest
    | .ok (some job, shop) =>
      .moved (shop.note (.started job.label)) (job.code ++ .drainOn queue (count + 1) :: rest)
    | .error fault => .failed shop fault
  | .ran queue :: rest => .moved (shop.note (.poppedRun queue true)) rest

end Shop

/-! ## the work that is left -/

mutual

/-- How many steps an operation can lead to, those of a job it pushes included. -/
def Operation.weight : Operation ι → Nat
  | .push _ _ script => 3 + scriptWeight script
  | .popRun _ | .runHeld _ | .drain _ => 2
  | .pop _ | .hold _ | .requeueHeld _ | .measure _ | .fail _ => 1

/-- How many steps a script can lead to. -/
def scriptWeight : List (Operation ι) → Nat
  | [] => 0
  | operation :: script => operation.weight + scriptWeight script

end

/-- How many steps a queued job can lead to. -/
def Job.weight (job : Job ι) : Nat := 2 + scriptWeight job.script

/-- How many steps an instruction can lead to. -/
def Instruction.weight : Instruction ι → Nat
  | .perform operation => operation.weight
  | .finish _ | .drainOn _ _ | .ran _ => 1

/-- How many steps a worker's instructions can lead to. -/
def codeWeight (code : List (Instruction ι)) : Nat := total Instruction.weight code

/-- How many steps the jobs of a queue can lead to. -/
def queueWeight (q : TaskQueue (Job ι)) : Nat := total Job.weight q.tasks

/-- How many steps the jobs in a shop can lead to. -/
def Shop.weight (shop : Shop ι) : Nat :=
  total queueWeight shop.queues.toList + queueWeight shop.aside

@[simp] theorem codeWeight_cons (instruction : Instruction ι) (code : List (Instruction ι)) :
    codeWeight (instruction :: code) = instruction.weight + codeWeight code := by
  simp [codeWeight]

@[simp] theorem codeWeight_append (code more : List (Instruction ι)) :
    codeWeight (code ++ more) = codeWeight code + codeWeight more := by
  simp [codeWeight]

theorem codeWeight_map_perform (script : List (Operation ι)) :
    codeWeight (script.map .perform) = scriptWeight script := by
  induction script with
  | nil => rfl
  | cons operation script ih => simp [ih, scriptWeight, Instruction.weight]

theorem codeWeight_code (job : Job ι) : codeWeight job.code = scriptWeight job.script + 1 := by
  rw [Job.code, codeWeight_append, codeWeight_map_perform]
  rfl

@[simp] theorem queueWeight_push (q : TaskQueue (Job ι)) (job : Job ι) :
    queueWeight (q.push job) = queueWeight q + job.weight := by
  simp [queueWeight]

theorem queueWeight_of_pop? {q left : TaskQueue (Job ι)} {job : Job ι}
    (h : q.pop? = some (job, left)) : queueWeight q = job.weight + queueWeight left := by
  simp [queueWeight, TaskQueue.pop?_eq_some_iff.1 h]

namespace Shop

@[simp] theorem weight_note (shop : Shop ι) (entry : Entry ι) :
    (shop.note entry).weight = shop.weight := rfl

theorem weight_of_push {shop after : Shop ι} {queue : Nat} {job : Job ι}
    (h : shop.push queue job = .ok after) : after.weight = shop.weight + job.weight := by
  unfold push at h
  split at h
  · next inside =>
    cases h
    have := total_set queueWeight shop.queues.toList queue (shop.queues[queue].push job) inside
    simp only [weight, Array.toList_set, queueWeight_push] at this ⊢
    rw [Array.getElem_toList] at this
    omega
  · cases h

theorem weight_of_pop_none {shop after : Shop ι} {queue : Nat}
    (h : shop.pop queue = .ok (none, after)) : after.weight = shop.weight := by
  unfold pop at h
  split at h
  · split at h <;> cases h
    rfl
  · cases h

theorem weight_of_pop_some {shop after : Shop ι} {queue : Nat} {job : Job ι}
    (h : shop.pop queue = .ok (some job, after)) : shop.weight = job.weight + after.weight := by
  unfold pop at h
  split at h
  · next inside =>
    split at h
    · cases h
    · next found =>
      cases h
      rename_i left
      have := total_set queueWeight shop.queues.toList queue left inside
      have := queueWeight_of_pop? found
      simp only [weight, Array.toList_set] at *
      rw [Array.getElem_toList] at *
      omega
  · cases h

theorem weight_of_unhold {shop after : Shop ι} {job : Job ι} (h : shop.unhold = (some job, after)) :
    shop.weight = job.weight + after.weight := by
  unfold unhold at h
  split at h
  · cases h
  · next found =>
    cases h
    have := queueWeight_of_pop? found
    simp only [weight]
    omega

theorem weight_of_unhold_none {shop after : Shop ι} (h : shop.unhold = (none, after)) :
    after.weight = shop.weight := by
  unfold unhold at h
  split at h <;> cases h
  rfl

/-- A job set aside is work as before. -/
theorem weight_hold (shop : Shop ι) (job : Job ι) :
    { shop with aside := shop.aside.push job }.weight = shop.weight + job.weight := by
  simp only [weight, queueWeight_push]
  omega

/-- Performing an operation leaves less work. -/
theorem weight_lt_of_perform {shop after : Shop ι} {rest left : List (Instruction ι)}
    {operation : Operation ι} (h : shop.perform rest operation = .moved after left) :
    codeWeight left + after.weight < operation.weight + codeWeight rest + shop.weight := by
  cases operation with
  | push queue label script =>
    simp only [perform] at h
    split at h <;> cases h
    next pushed =>
    have := weight_of_push pushed
    simp only [Job.weight, Operation.weight] at *
    omega
  | pop queue =>
    simp only [perform] at h
    split at h <;> cases h
    next job _ popped =>
    cases job with
    | none =>
      have := weight_of_pop_none popped
      simp only [weight_note, Operation.weight]
      omega
    | some job =>
      have := weight_of_pop_some popped
      simp only [weight_note, Operation.weight]
      omega
  | popRun queue =>
    simp only [perform] at h
    split at h <;> cases h
    · next popped =>
      have := weight_of_pop_none popped
      simp only [weight_note, Operation.weight]
      omega
    · next popped =>
      have := weight_of_pop_some popped
      simp only [weight_note, Operation.weight, Job.weight, codeWeight_append, codeWeight_cons,
        codeWeight_code, Instruction.weight] at *
      omega
  | hold queue =>
    simp only [perform] at h
    split at h <;> cases h
    · next popped =>
      have := weight_of_pop_none popped
      simp only [weight_note, Operation.weight]
      omega
    · next popped =>
      have := weight_of_pop_some popped
      simp only [weight_note, Operation.weight, weight_hold]
      omega
  | runHeld queue =>
    simp only [perform] at h
    split at h <;> cases h
    · next unheld =>
      have := weight_of_unhold_none unheld
      simp only [weight_note, Operation.weight]
      omega
    · next unheld =>
      have := weight_of_unhold unheld
      simp only [weight_note, Operation.weight, Job.weight, codeWeight_append, codeWeight_code] at *
      omega
  | requeueHeld queue =>
    simp only [perform] at h
    split at h
    · next unheld =>
      cases h
      have := weight_of_unhold_none unheld
      simp only [weight_note, Operation.weight]
      omega
    · next unheld =>
      split at h <;> cases h
      next pushed =>
      have := weight_of_unhold unheld
      have := weight_of_push pushed
      simp only [weight_note, Operation.weight] at *
      omega
  | drain queue =>
    simp only [perform] at h
    cases h
    simp only [codeWeight_cons, Instruction.weight, Operation.weight]
    omega
  | measure queue =>
    simp only [perform] at h
    split at h <;> cases h
    simp only [weight_note, Operation.weight]
    omega
  | fail message =>
    simp only [perform] at h
    cases h

/-- Every step leaves less work. -/
theorem weight_lt_of_step {shop after : Shop ι} {code left : List (Instruction ι)}
    (h : shop.step code = .moved after left) :
    codeWeight left + after.weight < codeWeight code + shop.weight := by
  unfold step at h
  split at h
  · cases h
  · simp only [codeWeight_cons, Instruction.weight]
    exact weight_lt_of_perform h
  · cases h
    simp only [codeWeight_cons, weight_note, Instruction.weight]
    omega
  · split at h <;> cases h
    · next popped =>
      have := weight_of_pop_none popped
      simp only [codeWeight_cons, weight_note, Instruction.weight]
      omega
    · next popped =>
      have := weight_of_pop_some popped
      simp only [codeWeight_cons, codeWeight_append, codeWeight_code, weight_note,
        Instruction.weight, Job.weight] at *
      omega
  · cases h
    simp only [codeWeight_cons, weight_note, Instruction.weight]
    omega

/-! ## whole runs -/

/-- Lets one worker do what it has to do, and returns the shop with the fault that stopped the worker, if
one did. -/
def run (shop : Shop ι) (code : List (Instruction ι)) : Shop ι × Option Fault :=
  match _h : shop.step code with
  | .ended => (shop, none)
  | .failed after fault => (after, some fault)
  | .moved after left => run after left
termination_by codeWeight code + shop.weight
decreasing_by exact weight_lt_of_step _h

end Shop

end SortNetwork.Workshop
