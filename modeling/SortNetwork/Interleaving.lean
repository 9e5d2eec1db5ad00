import SortNetwork.Fault

/-!
# SortNetwork.Interleaving

Workers that act one atomic step at a time, in any order.

A system says what the next step of each worker does in each state.  A step can make progress, it can be a
poll in vain, which leaves the worker waiting, or it can fault; a worker that is done takes none.  The
states that any order of steps can lead to are the reachable ones (`Reachable`).

`System.run` is one such order: it lets the first worker move that can do more than poll in vain, until all
are done.  It stalls if every worker that is not done polls in vain.

* `Reachable.invariant`: what every step keeps holds of all reachable states.
* `reachable_of_run`: whatever state a run ends in, it is reachable.
-/

namespace SortNetwork

variable {σ : Type}

/-- What the next step of a worker does. -/
inductive Outcome (σ : Type) where
  | progress (next : σ)
  /-- a poll in vain; the worker will poll again, perhaps after looking for other work -/
  | waiting (next : σ)
  | finished
  | fault (cause : Fault)

/-- A number of workers and their steps. -/
structure System (σ : Type) where
  workers : Nat
  step : Nat → σ → Outcome σ

namespace System

/-- A step of some worker. -/
inductive Step (m : System σ) : σ → σ → Prop where
  | progress {s next : σ} (worker : Nat) (inside : worker < m.workers)
      (moved : m.step worker s = .progress next) : Step m s next
  | waiting {s next : σ} (worker : Nat) (inside : worker < m.workers)
      (polled : m.step worker s = .waiting next) : Step m s next

/-- The states that steps lead to. -/
inductive Reachable (m : System σ) (start : σ) : σ → Prop where
  | start : Reachable m start start
  | step {s next : σ} (before : Reachable m start s) (move : Step m s next) : Reachable m start next

/-- Whether all workers are done. -/
def allFinished (m : System σ) (s : σ) : Bool :=
  (List.range m.workers).all fun worker =>
    match m.step worker s with
    | .finished => true
    | _ => false

/-- What the first worker from `worker` on that does more than poll in vain does, among `left` workers. -/
def moveFrom (m : System σ) (s : σ) : (worker left : Nat) → Option (Except Fault σ)
  | _, 0 => none
  | worker, left + 1 =>
    match m.step worker s with
    | .progress next => some (.ok next)
    | .fault cause => some (.error cause)
    | .waiting _ | .finished => moveFrom m s (worker + 1) left

/-- How a run ended. -/
inductive Ending (σ : Type) where
  | finished (final : σ)
  /-- no worker could do more than poll in vain, or the steps granted were used up -/
  | stalled (final : σ)
  | halted (stopped : Halted σ)

/-- The state in which a run ended. -/
def Ending.state : Ending σ → σ
  | .finished final => final
  | .stalled final => final
  | .halted stopped => stopped.state

/-- Lets workers move until all are done, for at most `steps` steps. -/
def run (m : System σ) : (steps : Nat) → σ → Ending σ
  | steps, s =>
    match m.moveFrom s 0 m.workers with
    | none => if m.allFinished s then .finished s else .stalled s
    | some (.error fault) => .halted ⟨fault, s⟩
    | some (.ok next) =>
      match steps with
      | 0 => .stalled s
      | steps + 1 => run m steps next

/-! ## runs stay within the reachable states -/

theorem step_of_moveFrom {m : System σ} {s next : σ} {worker left : Nat}
    (inside : worker + left = m.workers) (h : m.moveFrom s worker left = some (.ok next)) :
    Step m s next := by
  induction left generalizing worker with
  | zero => simp [moveFrom] at h
  | succ left ih =>
    unfold moveFrom at h
    split at h
    · next moved =>
      cases h
      exact .progress worker (by omega) moved
    · cases h
    · exact ih (by omega) h
    · exact ih (by omega) h

/-- Steps from a reachable state stay among the reachable ones. -/
theorem Reachable.trans {m : System σ} {start s next : σ} (first : Reachable m start s)
    (second : Reachable m s next) : Reachable m start next := by
  induction second with
  | start => exact first
  | step _ move ih => exact .step ih move

/-- What holds at the start and is kept by every step holds of all reachable states. -/
theorem Reachable.invariant {m : System σ} {start s : σ} {P : σ → Prop} (reached : Reachable m start s)
    (holds : P start) (keeps : ∀ s next, P s → Step m s next → P next) : P s := by
  induction reached with
  | start => exact holds
  | step _ move ih => exact keeps _ _ ih move

/-- Whatever state a run ends in, it is reachable. -/
theorem reachable_of_run (m : System σ) (steps : Nat) (s : σ) :
    Reachable m s (m.run steps s).state := by
  induction steps generalizing s with
  | zero =>
    unfold run
    split
    · split <;> exact .start
    · exact .start
    · exact .start
  | succ steps ih =>
    unfold run
    split
    · split <;> exact .start
    · exact .start
    · next moved =>
      exact Reachable.trans (.step .start (step_of_moveFrom (by omega) moved)) (ih _)

end System

end SortNetwork
