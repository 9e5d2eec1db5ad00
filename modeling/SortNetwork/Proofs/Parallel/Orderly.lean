import Mathlib
import SortNetwork.Proofs.Parallel.Pending
import SortNetwork.Proofs.Sequential

/-!
# SortNetwork.Proofs.Parallel.Orderly

Runs that lose no task and perform each task when its segments are ready.

What the strategies have in common is kept in one invariant.  A step keeps it if a task is only performed
when no pending task of its segments belongs to an earlier stage (`Orderly.of_move`); to show that is all
that is left to a strategy.  A run that ends in such an outline leaves what the network leaves
(`Execution.final`).
-/

namespace SortNetwork.Parallel

namespace Outline

/-- Nothing reaches beyond the segments and workers, no task is lost, and those performed were performed
in an admissible order. -/
structure Orderly (n threads : Nat) (log : List SegmentTask) (o : Outline) : Prop where
  helps : o.Helps threads
  within : ∀ w, ∀ instruction ∈ o.code w, instruction.Within n threads
  tended : o.Tended
  all : (log ++ o.pending threads).Perm (tasks n)
  admissible : Admissible n log

namespace Orderly

variable {m n threads w i : Nat} {counting : Bool} {log : List SegmentTask} {o o' : Outline}
  {instruction : Instruction} {task other : SegmentTask}

theorem mem_tasks (orderly : o.Orderly n threads log) (member : task ∈ o.pending threads) :
    task ∈ tasks n :=
  orderly.all.mem_iff.1 (List.mem_append_right _ member)

/-- A pending task has not been performed. -/
theorem not_mem_log (fits : n < Word.capacity) (orderly : o.Orderly n threads log)
    (member : task ∈ o.pending threads) : task ∉ log := by
  have nodup : (log ++ o.pending threads).Nodup := orderly.all.nodup_iff.2 (nodup_tasks fits)
  exact fun done => (List.nodup_append.1 nodup).2.2 _ done _ member rfl

/-- No task has been performed twice. -/
theorem nodup (fits : n < Word.capacity) (orderly : o.Orderly n threads log) : log.Nodup :=
  (List.nodup_append.1 (orderly.all.nodup_iff.2 (nodup_tasks fits))).1

/-- A segment has not been through the stage of a pending task. -/
theorem visits_le (fits : n < Word.capacity) (orderly : o.Orderly n threads log)
    (member : task ∈ o.pending threads) (touches : i ∈ task.touched) :
    visits log i ≤ task.stageNumber n := by
  have undone := orderly.not_mem_log fits member
  rw [orderly.admissible.mem_iff (orderly.mem_tasks member) touches] at undone
  exact Nat.not_lt.1 undone

/-- No two workers come to the same task. -/
theorem eq_of_code (fits : n < Word.capacity) (orderly : o.Orderly n threads log) {v : Nat}
    {rest rest' : List Instruction} (inside : w < threads) (inside' : v < threads)
    (code : o.code w = .perform task :: rest) (code' : o.code v = .perform task :: rest') : w = v := by
  by_contra distinct
  have nodup : (log ++ o.pending threads).Nodup := orderly.all.nodup_iff.2 (nodup_tasks fits)
  have once := List.nodup_iff_count_le_one.1 (List.nodup_append.1 nodup).2.1 task
  have both := add_le_sum inside inside' distinct fun u => total (isTask task) (o.code u)
  rw [count_pending, weight] at once
  simp only [code, code', total_cons, isTask, Instruction.task?, if_true] at both
  omega

theorem helps_of_move (helps : o.Helps threads) (move : o.Move threads counting w instruction o') :
    o'.Helps threads := by
  obtain ⟨_, _, _, _, fires, rfl⟩ := move
  cases fires <;> exact helps

theorem of_move (fits : 2 ^ m < Word.capacity) (orderly : o.Orderly (2 ^ m) threads log)
    (inside : w < threads) (move : o.Move threads counting w instruction o')
    (earliest : ∀ task, instruction = .perform task → ∀ i ∈ task.touched, ∀ other ∈ o.pending threads,
      i ∈ other.touched → task.stageNumber (2 ^ m) ≤ other.stageNumber (2 ^ m)) :
    o'.Orderly (2 ^ m) threads (log ++ instruction.performed) := by
  obtain ⟨rest, more, effect, code, fires, changed⟩ := move
  have within := orderly.within w
  rw [code] at within
  have here : instruction.Within (2 ^ m) threads := within _ (by simp)
  have move : o.Move threads counting w instruction o' := ⟨rest, more, effect, code, fires, changed⟩
  have left := pending_of_move inside here move
  refine ⟨helps_of_move orderly.helps move, ?_, orderly.tended.of_move move, ?_, ?_⟩
  · subst changed
    refine (Function.forall_update_iff _ fun _ (code : List Instruction) => ∀ x ∈ code,
      x.Within (2 ^ m) threads).2
      ⟨fun x member => ?_, fun u _ => orderly.within u⟩
    rcases List.mem_append.1 member with now | later
    · cases fires with
      | take owner task left found =>
        have isTask : task ∈ tasks (2 ^ m) :=
          orderly.mem_tasks (mem_pending_iff.2 ⟨owner, here, .inr (by simp [found])⟩)
        rcases List.mem_append.1 now with taken | again
        · unfold taskCode at taken
          rcases List.mem_cons.1 taken with rfl | advances
          · exact fun i touches => lt_of_mem_touched fits isTask touches
          · split at advances
            · obtain ⟨i, touches, rfl⟩ := List.mem_map.1 advances
              exact lt_of_mem_touched fits isTask touches
            · cases advances
        · rw [List.mem_singleton.1 again]
          exact here
      | help owner behind =>
        rw [List.mem_singleton.1 now]
        exact here
      | barrier call next barrier moved =>
        rw [List.mem_singleton.1 now]
        trivial
      | _ => cases now
    · exact within x (by simp [later])
  · rw [List.append_assoc]
    exact (left.append_left log).trans orderly.all
  · cases instruction with
    | perform task =>
      refine orderly.admissible.snoc_of_earliest fits orderly.all ?_ (earliest task rfl)
      exact mem_pending_of_code inside code rfl
    | _ => simpa [Instruction.performed] using orderly.admissible

theorem of_idle (orderly : o.Orderly n threads log) (inside : w < threads) (idle : o.Idle w o') :
    o'.Orderly n threads log := by
  have left := pending_of_idle inside orderly.helps idle
  have tended := orderly.tended.of_idle orderly.helps idle
  obtain ⟨_, _, _, _, rfl⟩ := idle
  refine ⟨orderly.helps, ?_, tended, (left.append_left log).trans orderly.all, orderly.admissible⟩
  refine (Function.forall_update_iff _ fun _ (code : List Instruction) => ∀ x ∈ code,
    x.Within n threads).2
    ⟨fun x member => ?_, fun u _ => orderly.within u⟩
  rcases List.mem_append.1 member with looks | later
  · obtain ⟨owner, inside, -, rfl | rfl⟩ := orderly.helps w x looks <;> exact inside
  · exact orderly.within w x later

/-- When all workers are done, their queues are empty. -/
theorem queue_eq_nil (orderly : o.Orderly n threads log) (done : o.code w = []) : o.queue w = [] := by
  by_contra holds
  have drains := orderly.tended.drains w holds
  rw [done] at drains
  exact drains

/-- When all workers are done, every task has been performed, and none twice. -/
theorem perm_tasks (orderly : o.Orderly n threads log) (done : ∀ w < threads, o.code w = []) :
    log.Perm (tasks n) := by
  have none_left : o.pending threads = [] := by
    rw [List.eq_nil_iff_forall_not_mem]
    intro task member
    obtain ⟨w, inside, absurdity⟩ := mem_pending_iff.1 member
    simp [done w inside, orderly.queue_eq_nil (done w inside)] at absurdity
  simpa [none_left] using orderly.all

end Orderly

end Outline

variable {α : Type} {m : Machine α} {start s : State α} {log : List SegmentTask} {size k : Nat}
  {data : List α}

/-- In an orderly run the segments hold what the tasks performed so far make of them. -/
theorem Execution.holds_of_orderly {threads : Nat} {rest : List α} {cells : Nat → List α}
    (execution : Execution m start log s) (fits : 2 ^ k * size < Word.capacity)
    (small : 2 ^ k < Word.capacity) (orderly : s.outline.Orderly (2 ^ k) threads log)
    (first : start.store.segments.Holds (2 ^ k) size rest cells) :
    s.store.segments.Holds (2 ^ k) size rest
      (log.foldl (SegmentTask.effect (Rule.runs m.order)) cells) :=
  execution.holds fits small (fun _ member => orderly.admissible.mem_tasks member) first

/-- An orderly run of all workers leaves what the network leaves. -/
theorem Execution.final {threads : Nat} {rest : List α} (execution : Execution m start log s)
    (suits : Suits size k data) (orderly : s.outline.Orderly (2 ^ k) threads log)
    (first : start.store.segments.Holds (2 ^ k) size rest (Segments.slice size data))
    (done : ∀ w < threads, s.outline.code w = []) :
    s.store.segments.Holds (2 ^ k) size rest (networkCells m.order size k data) :=
  holds_networkCells suits orderly.admissible (orderly.perm_tasks done)
    (execution.holds_of_orderly suits.fits suits.small orderly first)

end SortNetwork.Parallel
