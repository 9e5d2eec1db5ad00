import SortNetwork.Word

/-!
# SortNetwork.Scratch

Merge buffers that queued tasks borrow from the worker that runs them.

A task may run on any worker, so it cannot bring a buffer along.  Every worker registers its number for the
time of a sort, and a task uses the buffer with the number registered by the worker that runs it; without
a registration, or with a number that the buffers at hand do not reach, it gets a fresh one that nobody
keeps.

A worker has one registration, whatever buffers it is meant for.  Entering replaces it, and the guard
obtained by entering puts the old one back.

* `exists_enter_iff`: who can enter.
* `enter_restores`: the guard holds the registration that entering replaced.
* `store_unregistered`: a worker without a registration leaves all buffers alone.
-/

namespace SortNetwork

variable {α β : Type}

/-- The number that a worker has registered, if any. -/
abbrev Registration := Option Nat

/-- Puts back the registration that was there before. -/
structure WorkerGuard where
  previous : Registration
  deriving DecidableEq, Repr

/-- One merge buffer for each worker of a sort. -/
structure Scratch (α : Type) where
  buffers : Array (List α)
  deriving Repr

namespace Scratch

/-- Empty buffers for a number of workers.  Each has room for two segments, whose size must fit a word. -/
def create (workers segmentSize : Nat) : Except Fault (Scratch α) :=
  if workers = 0 then .ok ⟨#[]⟩
  else
    match Word.mul 2 segmentSize with
    | .ok _ => .ok ⟨Array.replicate workers []⟩
    | .error fault => .error fault

/-- Registers a worker, which must have a buffer. -/
def enter (scratch : Scratch α) (worker : Nat) (registered : Registration) :
    Except Fault (WorkerGuard × Registration) :=
  if worker < scratch.buffers.size then .ok (⟨registered⟩, some worker)
  else .error .workerOutOfRange

/-- The number of the buffer that a worker's tasks use. -/
def slot? (scratch : Scratch α) (registered : Registration) : Option (Fin scratch.buffers.size) :=
  match registered with
  | some worker => if h : worker < scratch.buffers.size then some ⟨worker, h⟩ else none
  | none => none

/-- The contents that a worker's task finds in its buffer. -/
def contents (scratch : Scratch α) (registered : Registration) : List α :=
  match scratch.slot? registered with
  | some slot => scratch.buffers[slot]
  | none => []

/-- The buffers after a worker's task left `after` in its own. -/
def store (scratch : Scratch α) (registered : Registration) (after : List α) : Scratch α :=
  match scratch.slot? registered with
  | some slot => ⟨scratch.buffers.set slot after⟩
  | none => scratch

/-- A worker can enter exactly when it has a buffer. -/
theorem exists_enter_iff {scratch : Scratch α} {worker : Nat} {registered : Registration} :
    (∃ entered, scratch.enter worker registered = .ok entered) ↔ worker < scratch.buffers.size := by
  unfold enter
  split
  · next inside => simp [inside]
  · next outside => simp [outside]

/-- Entering hands out the old registration and puts the worker's number in its place. -/
theorem enter_restores {scratch : Scratch α} {worker : Nat} {registered after : Registration}
    {guard : WorkerGuard} (h : scratch.enter worker registered = .ok (guard, after)) :
    guard.previous = registered ∧ after = some worker := by
  unfold enter at h
  split at h <;> cases h
  exact ⟨rfl, rfl⟩

/-- A worker without a registration leaves all buffers alone. -/
@[simp] theorem store_unregistered (scratch : Scratch α) (after : List α) :
    scratch.store none after = scratch := rfl

/-- What a task leaves in its buffer is what the worker's next task finds there. -/
theorem contents_store {scratch : Scratch α} {worker : Nat} (h : worker < scratch.buffers.size)
    (after : List α) : (scratch.store (some worker) after).contents (some worker) = after := by
  simp [store, contents, slot?, h]

/-- What a task leaves in its buffer does not show in that of another worker. -/
theorem contents_store_other {scratch : Scratch α} {worker other : Nat} (distinct : other ≠ worker)
    (after : List α) :
    (scratch.store (some worker) after).contents (some other) = scratch.contents (some other) := by
  unfold store
  split
  · next slot found =>
    have : slot.val = worker := by
      simp only [slot?] at found
      split at found <;> cases found
      rfl
    by_cases h : other < scratch.buffers.size
    · simp [contents, slot?, h, this, Ne.symm distinct]
    · simp [contents, slot?, h]
  · rfl

end Scratch

end SortNetwork
