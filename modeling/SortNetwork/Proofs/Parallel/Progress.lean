import Mathlib
import SortNetwork.Proofs.Parallel.Orderly

/-!
# SortNetwork.Proofs.Parallel.Progress

Runs that come to an end.

Every step that makes progress uses up some of the work that is left (`cost_of_progress`); so a system
that never faults, and in which some worker can always go on, comes to an end (`System.exists_finished`).
For workers that keep their tasks in order, only the second of these is left to show to a strategy
(`Steady`).
-/

namespace SortNetwork

/-! ## systems -/

namespace System

variable {σ : Type} {system : System σ}

/-- Nobody does more than poll in vain if no move is found. -/
theorem idle_of_moveFrom {s : σ} {first left w : Nat} (none_found : system.moveFrom s first left = none)
    (after : first ≤ w) (before : w < first + left) :
    system.step w s = .finished ∨ ∃ next, system.step w s = .waiting next := by
  induction left generalizing first with
  | zero => omega
  | succ left ih =>
    unfold moveFrom at none_found
    split at none_found
    · cases none_found
    · cases none_found
    · next polled =>
      obtain rfl | later := Nat.eq_or_lt_of_le after
      · exact .inr ⟨_, polled⟩
      · exact ih none_found later (by omega)
    · next done =>
      obtain rfl | later := Nat.eq_or_lt_of_le after
      · exact .inl done
      · exact ih none_found later (by omega)

/-- Whatever move is found is one of the workers'. -/
theorem exists_of_moveFrom {s : σ} {first left : Nat} {found : Except Fault σ}
    (moved : system.moveFrom s first left = some found) :
    ∃ w < first + left, (∃ next, found = .ok next ∧ system.step w s = .progress next) ∨
      ∃ cause, system.step w s = .fault cause := by
  induction left generalizing first with
  | zero => cases moved
  | succ left ih =>
    unfold moveFrom at moved
    split at moved
    · next next step =>
      cases moved
      exact ⟨first, by omega, .inl ⟨next, rfl, step⟩⟩
    · next cause step => exact ⟨first, by omega, .inr ⟨cause, step⟩⟩
    all_goals
      obtain ⟨w, inside, step⟩ := ih moved
      exact ⟨w, by omega, step⟩

/-- If no move is found although some worker can go on until all are done, then all are done. -/
theorem allFinished_of_moveFrom {s : σ} (none_found : system.moveFrom s 0 system.workers = none)
    (goes : system.allFinished s = true ∨
      ∃ w < system.workers, ∃ next, system.step w s = .progress next) :
    system.allFinished s = true := by
  obtain all | ⟨w, inside, next, step⟩ := goes
  · exact all
  · obtain done | ⟨_, polled⟩ := idle_of_moveFrom none_found (Nat.zero_le w) (by omega)
    · cases step.symm.trans done
    · cases step.symm.trans polled

/-- A run comes to an end if no step faults, some worker can always go on, and every step that makes
progress costs something. -/
theorem exists_finished (system : System σ) {P : σ → Prop} (cost : σ → Nat)
    (sound : ∀ s, P s → ∀ w < system.workers, ∀ cause, system.step w s ≠ .fault cause)
    (goes : ∀ s, P s → system.allFinished s = true ∨
      ∃ w < system.workers, ∃ next, system.step w s = .progress next)
    (keeps : ∀ s next, P s → ∀ w < system.workers, system.step w s = .progress next →
      P next ∧ cost next < cost s)
    {steps : Nat} {s : σ} (holds : P s) (enough : cost s ≤ steps) :
    ∃ final, system.run steps s = .finished final ∧ P final ∧ system.allFinished final = true := by
  induction steps generalizing s with
  | zero =>
    cases moved : system.moveFrom s 0 system.workers with
    | none =>
      have all := allFinished_of_moveFrom moved (goes s holds)
      refine ⟨s, ?_, holds, all⟩
      unfold run
      rw [moved, all]
      rfl
    | some found =>
      obtain ⟨w, inside, ⟨next, -, step⟩ | ⟨cause, step⟩⟩ := exists_of_moveFrom moved
      · have := (keeps s next holds w (by omega) step).2
        omega
      · exact absurd step (sound s holds w (by omega) cause)
  | succ steps ih =>
    unfold run
    cases moved : system.moveFrom s 0 system.workers with
    | none =>
      have all := allFinished_of_moveFrom moved (goes s holds)
      refine ⟨s, ?_, holds, all⟩
      rw [all]
      rfl
    | some found =>
      obtain ⟨w, inside, ⟨next, rfl, step⟩ | ⟨cause, step⟩⟩ := exists_of_moveFrom moved
      · obtain ⟨holds', less⟩ := keeps s next holds w (by omega) step
        exact ih holds' (by omega)
      · exact absurd step (sound s holds w (by omega) cause)

end System

namespace Parallel

variable {α : Type} {m : Machine α} {n threads w : Nat} {counting : Bool}

/-! ## the work that is left -/

/-- What the instructions of all workers and the queued tasks cost. -/
def Outline.cost (threads : Nat) (o : Outline) : Nat :=
  weight threads Instruction.cost o.code + weight threads (fun _ => taskCost) o.queue

theorem total_toList {β : Type} (f : β → Nat) (xs : Array β) :
    total f xs.toList = ∑ w ∈ Finset.range xs.size, (xs[w]?.map f).getD 0 := by
  obtain ⟨xs⟩ := xs
  simp only [List.size_toArray, List.getElem?_toArray]
  induction xs with
  | nil => rfl
  | cons x xs ih =>
    rw [List.length_cons, Finset.sum_range_succ', total_cons, ih, Nat.add_comm]
    rfl

theorem total_const {β : Type} (c : Nat) (xs : List β) : total (fun _ => c) xs = c * xs.length := by
  induction xs with
  | nil => rfl
  | cons x xs ih => rw [total_cons, ih, List.length_cons, Nat.mul_succ, Nat.add_comm]

/-- The work that is left is the same in a state and in its outline. -/
theorem State.cost_outline {s : State α} (shaped : s.Shaped m n) : s.outline.cost m.threads = s.cost := by
  rw [Outline.cost, State.cost, total_toList, total_toList, shaped.workers, shaped.queues, weight, weight]
  congr 1
  · refine Finset.sum_congr rfl fun w _ => ?_
    simp only [outline]
    cases s.workers[w]? <;> rfl
  · refine Finset.sum_congr rfl fun w _ => ?_
    rw [total_const]
    simp only [outline]
    cases s.store.queues[w]? <;> rfl

/-- A call to the barrier takes fewer steps the further it is. -/
theorem cost_lt_of_moved {barrier next : Barrier} {call call' : Barrier.Call}
    (moved : barrier.step threads call = .moved next call') :
    (Instruction.barrier call').cost < (Instruction.barrier call).cost := by
  cases call with
  | arriving snapshot =>
    simp only [Barrier.step] at moved
    cases moved
    split <;> simp [Instruction.cost]
  | polling snapshot =>
    simp only [Barrier.step] at moved
    split at moved <;> cases moved
  | _ => cases moved <;> simp [Instruction.cost]

/-- A task that is taken from a queue was queued at its cost. -/
theorem cost_taskCode_lt (counting : Bool) (task : SegmentTask) :
    total Instruction.cost (taskCode counting task) < taskCost := by
  cases counting <;> cases task <;> simp [taskCode, SegmentTask.touched, Instruction.cost, taskCost]

/-- Whatever makes progress leaves less work. -/
theorem Outline.cost_of_move {o o' : Outline} {instruction : Instruction} (inside : w < threads)
    (within : instruction.Within n threads) (move : o.Move threads counting w instruction o') :
    o'.cost threads < o.cost threads := by
  obtain ⟨rest, more, effect, code, fires, rfl⟩ := move
  have codes := weight_update inside Instruction.cost o.code (more ++ rest)
  rw [code, total_append, total_cons] at codes
  simp only [Outline.cost]
  cases fires with
  | push task =>
    have queues := weight_update inside (fun _ => taskCost) o.queue (o.queue w ++ [task])
    simp only [total_append, total_cons, total_nil, Instruction.cost] at codes queues ⊢
    omega
  | take owner task left found =>
    have queues := weight_update within (fun _ => taskCost) o.queue left
    have cheap := cost_taskCode_lt counting task
    rw [found] at queues
    simp only [total_append, total_cons, total_nil, Instruction.cost] at codes queues ⊢
    omega
  | barrier call next b moved =>
    have further := cost_lt_of_moved moved
    simp only [total_cons, total_nil] at codes ⊢
    omega
  | left call b left =>
    have positive : 0 < (Instruction.barrier call).cost := by cases call <;> simp [Instruction.cost]
    simp only [total_nil] at codes ⊢
    omega
  | _ =>
    simp only [total_cons, total_nil, Instruction.cost] at codes ⊢
    omega

/-! ## steady runs -/

/-- Whatever order the steps come in, the run is orderly, and the workers that are not done never all
wait. -/
structure Steady (m : Machine α) (start : State α) (n : Nat) : Prop where
  shaped : start.Shaped m n
  orderly : ∀ {log s}, Execution m start log s → s.outline.Orderly n m.threads log
  unblocked : ∀ {log s}, Execution m start log s → (∃ w < m.threads, s.outline.code w ≠ []) →
    ∃ w < m.threads, ∃ instruction rest, s.outline.code w = instruction :: rest ∧
      ¬s.outline.Blocked w instruction

namespace Steady

variable {size k : Nat} {rest : List α} {cells : Nat → List α} {start s : State α}
  {log : List SegmentTask}

/-- A worker that is not done makes progress, or polls in vain. -/
theorem exists_step (steady : Steady m start (2 ^ k)) (fits : 2 ^ k * size < Word.capacity)
    (small : 2 ^ k < Word.capacity) (holds : start.store.segments.Holds (2 ^ k) size rest cells)
    (execution : Execution m start log s) (inside : w < m.threads) {instruction : Instruction}
    {more : List Instruction} (code : s.outline.code w = instruction :: more) :
    (∃ next, m.step w s = .progress next) ∨
      (∃ next, m.step w s = .waiting next) ∧ s.outline.Blocked w instruction := by
  have orderly := steady.orderly execution
  have within : instruction.Within (2 ^ k) m.threads := orderly.within w _ (by simp [code])
  refine Machine.exists_step (execution.shaped steady.shaped) inside code within
    fun task performs buffer => ?_
  have isTask := orderly.mem_tasks (mem_pending_of_code inside code (by rw [performs]; rfl))
  have held : (Bench.mk s.store.segments buffer).segments.Holds (2 ^ k) size rest _ :=
    execution.holds_of_orderly fits small orderly holds
  obtain ⟨bench, done, -⟩ := SegmentTask.exists_perform m.order fits small isTask held
  exact ⟨bench, done⟩

/-- No worker ever faults. -/
theorem not_fault (steady : Steady m start (2 ^ k)) (fits : 2 ^ k * size < Word.capacity)
    (small : 2 ^ k < Word.capacity) (holds : start.store.segments.Holds (2 ^ k) size rest cells)
    (execution : Execution m start log s) (inside : w < m.threads) (cause : Fault) :
    m.step w s ≠ .fault cause := by
  intro faults
  cases code : s.outline.code w with
  | nil =>
    have done : m.step w s = .finished := by
      rw [Machine.step_eq_finished_iff]
      intro worker found
      simpa [State.outline, found] using code
    cases faults.symm.trans done
  | cons instruction more =>
    obtain ⟨_, step⟩ | ⟨⟨_, step⟩, -⟩ := steady.exists_step fits small holds execution inside code
    all_goals cases faults.symm.trans step

/-- Until all workers are done, some worker can make progress. -/
theorem exists_progress (steady : Steady m start (2 ^ k)) (fits : 2 ^ k * size < Word.capacity)
    (small : 2 ^ k < Word.capacity) (holds : start.store.segments.Holds (2 ^ k) size rest cells)
    (execution : Execution m start log s) :
    m.system.allFinished s = true ∨ ∃ w < m.threads, ∃ next, m.step w s = .progress next := by
  by_cases busy : ∃ w < m.threads, s.outline.code w ≠ []
  · obtain ⟨w, inside, instruction, more, code, free⟩ := steady.unblocked execution busy
    obtain progress | ⟨-, blocked⟩ := steady.exists_step fits small holds execution inside code
    · exact .inr ⟨w, inside, progress⟩
    · exact absurd blocked free
  · refine .inl (Machine.allFinished_iff.2 fun w inside => ?_)
    by_contra undone
    exact busy ⟨w, inside, undone⟩

/-- Every step that makes progress leaves less work. -/
theorem cost_of_progress (steady : Steady m start n) (execution : Execution m start log s)
    {next : State α}
    (inside : w < m.threads) (moved : m.step w s = .progress next) : next.cost < s.cost := by
  have shaped := execution.shaped steady.shaped
  obtain ⟨instruction, move, -, shaped'⟩ := Machine.move_of_progress (n := n) moved
  have within : instruction.Within n m.threads := by
    obtain ⟨more, _, _, code, _, _⟩ := move
    exact (steady.orderly execution).within w _ (by simp [code])
  rw [← State.cost_outline shaped, ← State.cost_outline (shaped' shaped)]
  exact Outline.cost_of_move inside within move

/-- From wherever an order of steps has led, the workers can act until all are done. -/
theorem exists_finished (steady : Steady m start (2 ^ k)) (fits : 2 ^ k * size < Word.capacity)
    (small : 2 ^ k < Word.capacity) (holds : start.store.segments.Holds (2 ^ k) size rest cells)
    (execution : Execution m start log s) :
    ∃ log final, m.run s = .finished final ∧ Execution m start log final ∧
      m.system.allFinished final = true := by
  obtain ⟨final, done, ⟨log, execution⟩, all⟩ := m.system.exists_finished State.cost
    (P := fun s => ∃ log, Execution m start log s)
    (fun s ⟨log, execution⟩ w inside cause => steady.not_fault fits small holds execution inside cause)
    (fun s ⟨log, execution⟩ => steady.exists_progress fits small holds execution)
    (fun s next ⟨log, execution⟩ w inside moved =>
      ⟨⟨_, .progress execution w inside moved⟩, steady.cost_of_progress execution inside moved⟩)
    ⟨log, execution⟩ (le_refl _)
  exact ⟨log, final, done, execution, all⟩

end Steady

end Parallel

end SortNetwork
