import Mathlib
import SortNetwork.Proofs.Parallel.Outline
import SortNetwork.Proofs.Segments

/-!
# SortNetwork.Proofs.Parallel.Execution

Runs of a machine in any order of its workers' steps, and the tasks performed on the way.

`Execution m start log s` says that some order of steps leads from `start` to `s` and performs the tasks
of `log`, in this order.  Every reachable state has an execution, and the log decides what the segments
hold (`Execution.holds`).
-/

namespace SortNetwork.Parallel

variable {α : Type}

/-- The task that an instruction performs, if any. -/
def Instruction.performed : Instruction → List SegmentTask
  | .perform task => [task]
  | _ => []

/-- The task that a worker's next step performs, if any. -/
def State.performing (s : State α) (w : Nat) : List SegmentTask :=
  ((s.outline.code w).head?.map Instruction.performed).getD []

/-- Steps of any workers in any order, and the tasks that they performed. -/
inductive Execution (m : Machine α) (start : State α) : List SegmentTask → State α → Prop where
  | start : Execution m start [] start
  | progress {log : List SegmentTask} {s next : State α} (before : Execution m start log s) (w : Nat)
      (inside : w < m.threads) (moved : m.step w s = .progress next) :
      Execution m start (log ++ s.performing w) next
  | waiting {log : List SegmentTask} {s next : State α} (before : Execution m start log s) (w : Nat)
      (inside : w < m.threads) (polled : m.step w s = .waiting next) : Execution m start log next

variable {m : Machine α} {start s : State α} {log : List SegmentTask}

theorem State.performing_of_code {w : Nat} {instruction : Instruction} {rest : List Instruction}
    (code : s.outline.code w = instruction :: rest) : s.performing w = instruction.performed := by
  rw [performing, code]
  rfl

/-- The states that executions end in are the reachable ones. -/
theorem exists_execution_iff : (∃ log, Execution m start log s) ↔ m.system.Reachable start s := by
  constructor
  · rintro ⟨log, execution⟩
    induction execution with
    | start => exact .start
    | progress _ w inside moved ih => exact .step ih (.progress w inside moved)
    | waiting _ w inside polled ih => exact .step ih (.waiting w inside polled)
  · intro reached
    induction reached with
    | start => exact ⟨[], .start⟩
    | step _ move ih =>
      obtain ⟨log, execution⟩ := ih
      cases move with
      | progress w inside moved => exact ⟨_, .progress execution w inside moved⟩
      | waiting w inside polled => exact ⟨_, .waiting execution w inside polled⟩

namespace Execution

/-- What holds of the first outline and is kept by every move, and by every poll in vain, holds of all. -/
theorem invariant {P : List SegmentTask → Outline → Prop} (execution : Execution m start log s)
    (holds : P [] start.outline)
    (moves : ∀ {log w instruction o o'}, P log o → w < m.threads →
      o.Move m.threads m.counting w instruction o' → P (log ++ instruction.performed) o')
    (idles : ∀ {log w o o'}, P log o → w < m.threads → o.Idle w o' → P log o') : P log s.outline := by
  induction execution with
  | start => exact holds
  | progress _ w inside moved ih =>
    obtain ⟨instruction, move, -, -⟩ := Machine.move_of_progress (n := 0) moved
    have kept := moves ih inside move
    obtain ⟨rest, more, effect, code, -, -⟩ := move
    rw [State.performing_of_code code]
    exact kept
  | waiting _ w inside polled ih => exact idles ih inside (Machine.idle_of_waiting (n := 0) polled).1

theorem shaped {n : Nat} (execution : Execution m start log s) (first : start.Shaped m n) :
    s.Shaped m n := by
  induction execution with
  | start => exact first
  | progress _ w inside moved ih =>
    obtain ⟨_, _, _, shaped⟩ := Machine.move_of_progress moved
    exact shaped ih
  | waiting _ w inside polled ih => exact (Machine.idle_of_waiting polled).2.2 ih

/-- The tasks performed decide what the segments hold. -/
theorem holds {size k : Nat} {rest : List α} {cells : Nat → List α}
    (execution : Execution m start log s) (fits : 2 ^ k * size < Word.capacity)
    (small : 2 ^ k < Word.capacity) (member : ∀ task ∈ log, task ∈ tasks (2 ^ k))
    (first : start.store.segments.Holds (2 ^ k) size rest cells) :
    s.store.segments.Holds (2 ^ k) size rest
      (log.foldl (SegmentTask.effect (Rule.runs m.order)) cells) := by
  induction execution with
  | start => exact first
  | @progress log s next _ w inside moved ih =>
    have before := ih fun task h => member task (List.mem_append_left _ h)
    obtain ⟨instruction, move, touches, -⟩ := Machine.move_of_progress (n := 0) moved
    obtain ⟨rest, more, effect, code, -, -⟩ := move
    rw [State.performing_of_code code] at member ⊢
    cases instruction with
    | perform task =>
      obtain ⟨buffer, left, performed⟩ := touches
      have isTask := member task (by simp [Instruction.performed])
      have before' : (Bench.mk s.store.segments buffer).segments.Holds (2 ^ k) size _ _ := before
      obtain ⟨bench, done, after⟩ := SegmentTask.exists_perform m.order fits small isTask before'
      cases performed.symm.trans done
      rw [List.foldl_append]
      exact after
    | _ =>
      rw [show next.store.segments = s.store.segments from touches]
      simpa [Instruction.performed] using before
  | waiting _ w inside polled ih =>
    rw [(Machine.idle_of_waiting (n := 0) polled).2.1]
    exact ih member

end Execution

end SortNetwork.Parallel
