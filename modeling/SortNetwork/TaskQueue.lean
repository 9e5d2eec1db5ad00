import SortNetwork.Variant

/-!
# SortNetwork.TaskQueue

A first-in first-out queue of tasks.

Taking a task from an empty queue finds none and never waits.

* `pop?_push_of_isEmpty`, `pop?_push_of_pop?`: a task that is pushed stands behind all others.
-/

namespace SortNetwork

/-- How a queue is kept safe from several workers at once. -/
inductive QueueKind where
  /-- one worker at a time, by a lock -/
  | locked
  deriving DecidableEq, Repr

instance : Variant QueueKind where
  noun := "task queue"
  all := [.locked]
  name
    | .locked => "locked"
  preferred := .locked

/-- The kind with a numeric tag. -/
def QueueKind.ofTag? : Nat → Option QueueKind
  | 0 => some .locked
  | _ => none

/-- A queue of tasks, the oldest first. -/
structure TaskQueue (τ : Type) where
  tasks : List τ
  deriving Repr

namespace TaskQueue

variable {τ : Type}

/-- The queue without tasks. -/
def empty : TaskQueue τ := ⟨[]⟩

/-- Adds a task behind all others. -/
def push (q : TaskQueue τ) (task : τ) : TaskQueue τ := ⟨q.tasks ++ [task]⟩

/-- Takes the oldest task. -/
def pop? (q : TaskQueue τ) : Option (τ × TaskQueue τ) :=
  match q.tasks with
  | [] => none
  | task :: tasks => some (task, ⟨tasks⟩)

/-- The number of tasks. -/
def size (q : TaskQueue τ) : Nat := q.tasks.length

/-- Whether there is no task. -/
def isEmpty (q : TaskQueue τ) : Bool := q.tasks.isEmpty

@[simp] theorem tasks_push (q : TaskQueue τ) (task : τ) : (q.push task).tasks = q.tasks ++ [task] := rfl

/-- No task is found exactly when there is none. -/
theorem pop?_eq_none_iff {q : TaskQueue τ} : q.pop? = none ↔ q.tasks = [] := by
  unfold pop?
  split <;> simp_all

/-- The task found stood before all that stay. -/
theorem pop?_eq_some_iff {q r : TaskQueue τ} {task : τ} :
    q.pop? = some (task, r) ↔ q.tasks = task :: r.tasks := by
  obtain ⟨tasks⟩ := r
  unfold pop?
  split <;> simp_all

/-- A task pushed on an empty queue is the next one. -/
theorem pop?_push_of_isEmpty {q : TaskQueue τ} (h : q.isEmpty = true) (task : τ) :
    (q.push task).pop? = some (task, empty) := by
  rw [pop?_eq_some_iff, tasks_push, List.isEmpty_iff.1 h]
  rfl

/-- A task that is pushed stands behind the oldest one. -/
theorem pop?_push_of_pop? {q r : TaskQueue τ} {oldest : τ} (h : q.pop? = some (oldest, r)) (task : τ) :
    (q.push task).pop? = some (oldest, r.push task) := by
  rw [pop?_eq_some_iff] at h ⊢
  simp [h]

end TaskQueue

end SortNetwork
