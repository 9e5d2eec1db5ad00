import Mathlib
import SortNetwork.Parallel.LockFree
import SortNetwork.Proofs.Parallel.Plan

/-!
# SortNetwork.Proofs.Parallel.LockFree

Workers that wait for single segments sort as one worker does, in whatever order they act.  On the way no
two of them are ever at work on the same segment, and they never all wait in vain.
-/

namespace SortNetwork.Parallel

variable {α : Type} {n threads w : Nat}

namespace LockFree

theorem planned_code (share : Partition) (stages : List Stage) :
    planned (code share stages) = shareTasks share stages := by
  have sorts := planned_flatMap_single (f := sortCode) fun _ => rfl
  have merges : ∀ stage, planned (stageCode share stage) = (share.pairs stage).map .merge := by
    intro stage
    rw [stageCode, planned_append, planned_flatMap_single (f := pairCode) (g := .merge) fun _ => rfl]
    exact List.append_nil _
  rw [code, planned_append]
  exact congrArg₂ (· ++ ·) (sorts share.segments) (planned_flatMap merges stages)

/-- Every worker waits for the segments of a pair before it merges them. -/
theorem plan_code {m : Nat} (fits : 2 ^ m < Word.capacity) (inside : w < threads) :
    Plan (2 ^ m) threads w 0 [] (code (shareOf threads (2 ^ m) w) (stages (2 ^ m))) := by
  have later : Plan (2 ^ m) threads w 1 []
      ((stages (2 ^ m)).flatMap (stageCode (shareOf threads (2 ^ m) w))) := by
    refine stages_induction (P := fun r code => Plan (2 ^ m) threads w r [] code) fits Plan.nil
      fun r stage listed number code plan => ?_
    rw [stageCode, List.append_assoc]
    refine flatMap_append_induction plan.nextStage fun pair member code plan => ?_
    have isTask := merge_mem_tasks_of_share inside listed member
    have number := number pair (Stage.mem_pairsAmong_iff.1 member).2.1
    have within := fun i touched => lt_of_mem_touched fits isTask (i := i) touched
    have purpose : ∀ i ∈ (SegmentTask.merge pair).touched,
      ∃ task ∈ planned (taskCode true (.merge pair) ++ code),
        i ∈ task.touched ∧ task.stageNumber (2 ^ m) = r :=
      fun i touched => ⟨.merge pair, mem_planned_iff.2 (.inl (by simp [taskCode])), touched, number⟩
    have merges : Plan (2 ^ m) threads w r [pair.upper, pair.lower]
      (taskCode true (.merge pair) ++ code) :=
      plan.taskCode number within fun i touched => .inr (by simpa [or_comm] using touched)
    exact (merges.await (within _ (by simp)) (purpose _ (by simp))).await (within _ (by simp))
      (purpose _ (by simp))
  refine Plan.aside (flatMap_append_induction later.nextStage fun id member code plan => ?_) _ (.inl rfl)
  have within := lt_of_mem_shareOf inside member
  have number : (SegmentTask.sort id).stageNumber (2 ^ m) = 0 := rfl
  exact plan.taskCode number (by simpa using within) fun _ _ => .inl rfl

theorem counted_outline {m : Nat} (fits : 2 ^ m < Word.capacity) (divides : threads ∣ 2 ^ m)
    (kind : BarrierKind) :
    (routine.outline threads (2 ^ m) kind).Counted (2 ^ m) threads [] :=
  Parallel.counted_outline divides (fun _ inside => plan_code fits inside) (by simp [routine])
    fun share _ stages => planned_code share stages

theorem steady {order : ElementOrder α} {kind : BarrierKind} {segments : Segments α} {m : Nat}
    (fits : 2 ^ m < Word.capacity) (divides : threads ∣ 2 ^ m) :
    Steady (routine.machine order threads) (routine.firstState threads (2 ^ m) kind segments) (2 ^ m) :=
  steady_of_counted rfl fits (counted_outline fits divides kind)

end LockFree

/-- However the workers' steps interleave, a lock-free sort keeps its workers apart.

While a worker is at work on a segment, the count of the segment is the number of the task's stage, and no
other worker is at work on it.  No task is performed twice, and the count is the number of tasks that are
done with the segment; it grows one by one, up to the number of all stages.  And no count goes past a
worker that waits for it. -/
theorem lockFree_exclusive (order : ElementOrder α) (kind : BarrierKind) {threads size : Nat}
    {data : List α} {start s : State α} {past : List Deed}
    (word : data.length < 2 ^ 64) (power : (data.length / size).isPowerOfTwo)
    (divides : threads ∣ data.length / size)
    (ready : LockFree.routine.setUp threads size kind (.start (data.length / size)) data = .ok start)
    (history : History (LockFree.routine.machine order threads) start past s) :
    (∀ w < threads, ∀ task i, AtWork past s.outline w task i →
      s.outline.counts i = task.stageNumber (data.length / size) ∧
        ∀ v < threads, ∀ other, AtWork past s.outline v other i → v = w ∧ other = task) ∧
    (performedIn past).Nodup ∧
    (∀ i < data.length / size,
      s.outline.counts i = {task | i ∈ task.touched ∧ DoneWith past task i}.ncard) ∧
    (∀ i next, (LockFree.routine.machine order threads).system.Step s next →
      next.outline.counts i = s.outline.counts i ∨ next.outline.counts i = s.outline.counts i + 1) ∧
    (∀ i, s.outline.counts i ≤ 1 + stageCount (data.length / size)) ∧
    ∀ w < threads, ∀ i, s.outline.Waits w i → s.outline.counts i ≤ s.outline.stages w := by
  obtain ⟨k, segments, count, divides, small, -, rfl, -⟩ :=
    Routine.exists_firstState word power divides ready
  have guarded := guarded_of_counted rfl small (LockFree.counted_outline small divides kind) history
  rw [count]
  exact ⟨fun w inside task i work => ⟨guarded.counts_eq_of_atWork small inside work,
      fun v inside' other work' => guarded.eq_of_atWork small inside' inside work' work⟩,
    guarded.counted.orderly.nodup small, fun i inside => (guarded.ncard_doneWith small inside).symm,
    fun i next step => Machine.counts_eq_or step i, guarded.counted.counts_le_stageCount small,
    fun w inside i waits => guarded.counted.counts_le_of_waits small inside waits⟩

/-- One of two workers has merged both segments and counted the first of them, but not yet the second. -/
theorem lockFree_exclusive_half_counted :
    [2, 1].length < 2 ^ 64 ∧ (2 / 1 : Nat).isPowerOfTwo ∧ 2 ∣ 2 / 1 ∧
    ∃ start, LockFree.routine.setUp 2 1 .senseReversal (.start 2) [2, 1] = .ok start ∧
    ∃ past s, History (LockFree.routine.machine (.ofCmp (compare : Nat → Nat → Ordering)) 2) start past s ∧
      AtWork past s.outline 0 (.merge ⟨⟨2, 1⟩, 0, 1, .ascending⟩) 1 ∧ s.outline.counts 1 = 1 ∧
      ∀ v < 2, ∀ other, AtWork past s.outline v other 1 →
        v = 0 ∧ other = .merge ⟨⟨2, 1⟩, 0, 1, .ascending⟩ := by
  have exclusive := lockFree_exclusive (.ofCmp (compare : Nat → Nat → Ordering)) .senseReversal
    (show [2, 1].length < 2 ^ 64 by decide) (show ([2, 1].length / 1).isPowerOfTwo from ⟨1, by decide⟩)
    (show 2 ∣ [2, 1].length / 1 by decide) rfl
    (.follow .start [0, 0, 0, 0, 1, 1, 1, 1, 0, 0, 0, 0] (by decide))
  have apart := exclusive.1 0 (by decide) (.merge ⟨⟨2, 1⟩, 0, 1, .ascending⟩) 1
  exact ⟨by decide, ⟨1, by decide⟩, by decide, _, rfl, _, _, .follow .start _ (by decide),
    (and_iff_left_of_imp apart).2 ⟨.inr (by decide +kernel), by decide, by decide +kernel⟩⟩

/-- However the workers' steps interleave, a lock-free sort never gets stuck.

Until all workers are done, one of them makes progress; so they never all wait for segments whose counts
differ from their own. -/
theorem lockFree_unstuck (order : ElementOrder α) (kind : BarrierKind) {threads size : Nat}
    {data : List α} {start s : State α}
    (word : data.length < 2 ^ 64) (power : (data.length / size).isPowerOfTwo)
    (divides : threads ∣ data.length / size)
    (ready : LockFree.routine.setUp threads size kind (.start (data.length / size)) data = .ok start)
    (reached : (LockFree.routine.machine order threads).system.Reachable start s)
    (unfinished : (LockFree.routine.machine order threads).system.allFinished s = false) :
    (∃ w < threads, ∃ next, (LockFree.routine.machine order threads).step w s = .progress next) ∧
    ¬∀ w < threads, s.outline.code w ≠ [] →
      ∃ i rest, s.outline.code w = .await i :: rest ∧ s.outline.counts i ≠ s.outline.stages w := by
  obtain ⟨k, segments, -, divides, small, fits, rfl, holds⟩ :=
    Routine.exists_firstState word power divides ready
  obtain ⟨log, execution⟩ := exists_execution_iff.2 reached
  have steady : Steady (LockFree.routine.machine order threads)
      (LockFree.routine.firstState threads (2 ^ k) kind segments) (2 ^ k) := LockFree.steady small divides
  obtain ⟨w, inside, next, moved⟩ :=
    (steady.exists_progress fits small holds execution).resolve_left (by simp [unfinished])
  refine ⟨⟨w, inside, next, moved⟩, fun stuck => ?_⟩
  -- if all polled in vain, so would the worker that makes progress
  obtain ⟨instruction, ⟨rest, more, effect, code, fires, -⟩, -, -⟩ :=
    Machine.move_of_progress (n := 0) moved
  obtain ⟨i, rest', code', unready⟩ := stuck w inside (by simp [code])
  obtain ⟨rfl, -⟩ := List.cons.inj (code.symm.trans code')
  cases fires with
  | await i ready => exact unready ready

/-- The first of two workers has sorted its segment and polls the other in vain. -/
theorem lockFree_unstuck_one_ahead :
    [2, 1].length < 2 ^ 64 ∧ (2 / 1 : Nat).isPowerOfTwo ∧ 2 ∣ 2 / 1 ∧
    ∃ start, LockFree.routine.setUp 2 1 .senseReversal (.start 2) [2, 1] = .ok start ∧
    ∃ s, (LockFree.routine.machine (.ofCmp (compare : Nat → Nat → Ordering)) 2).system.Reachable start s ∧
      (LockFree.routine.machine (.ofCmp (compare : Nat → Nat → Ordering)) 2).system.allFinished s = false ∧
      s.outline.Blocked 0 (.await 1) ∧
      ∃ w < 2, ∃ next,
        (LockFree.routine.machine (.ofCmp (compare : Nat → Nat → Ordering)) 2).step w s = .progress next := by
  have unstuck := lockFree_unstuck (.ofCmp (compare : Nat → Nat → Ordering)) .senseReversal
    (show [2, 1].length < 2 ^ 64 by decide) (show ([2, 1].length / 1).isPowerOfTwo from ⟨1, by decide⟩)
    (show 2 ∣ [2, 1].length / 1 by decide) rfl
    (exists_history_iff.1 ⟨_, .follow .start [0, 0, 0, 0, 0, 0] (by decide)⟩) (by decide +kernel)
  exact ⟨by decide, ⟨1, by decide⟩, by decide, _, rfl, _,
    exists_history_iff.1 ⟨_, .follow .start _ (by decide)⟩, by decide +kernel,
    .await (by decide +kernel), unstuck.1⟩

/-- However the workers' steps interleave, a lock-free sort whose workers all finish leaves what the
segmented sort of one worker leaves, with every segment and every worker counted through the local sorts
and all stages. -/
theorem lockFree_eq_segmented (order : ElementOrder α) (kind : BarrierKind) {threads size : Nat}
    {data : List α}
    (positive : 0 < size) (short : data.length < 2 ^ 63) (power : (data.length / size).isPowerOfTwo)
    (divides : threads ∣ data.length / size) :
    ∃ start sorted,
      LockFree.routine.setUp threads size kind (.start (data.length / size)) data = .ok start ∧
      Sequential.segmented order size data = .ok sorted ∧
      ∀ log s, Execution (LockFree.routine.machine order threads) start log s →
        (LockFree.routine.machine order threads).system.allFinished s = true →
        s.store.segments.toList = sorted ∧
          s.store.segmentCounts.counts =
            Array.replicate (data.length / size) (1 + stageCount (data.length / size)) ∧
          s.store.workerCounts.counts =
            Array.replicate threads (1 + stageCount (data.length / size)) := by
  obtain ⟨k, count⟩ := power
  have suits : Suits size k data := ⟨positive, short, count⟩
  rw [count] at divides
  obtain ⟨segments, ready, holds, -⟩ := Routine.exists_setUp LockFree.routine kind suits divides
  obtain ⟨t, sequential, holds', -⟩ := Sequential.exists_segmented suits order
  refine ⟨_, _, ready, sequential, fun log s execution finished => ?_⟩
  obtain ⟨final, -, -, counts, stages⟩ := counted_final rfl suits
    (LockFree.counted_outline suits.small divides kind) holds execution finished
  rw [count]
  exact ⟨final.toList_eq.trans holds'.toList_eq.symm, counts, stages⟩

/-- Two workers take turns on four segments of one element, two of which are equal. -/
theorem lockFree_four_segments :
    0 < 1 ∧ [3, 1, 2, 1].length < 2 ^ 63 ∧ (4 / 1 : Nat).isPowerOfTwo ∧ 2 ∣ 4 / 1 ∧
    ∃ start, LockFree.routine.setUp 2 1 .senseReversal (.start 4) [3, 1, 2, 1] = .ok start ∧
      Sequential.segmented (.ofCmp (compare : Nat → Nat → Ordering)) 1 [3, 1, 2, 1] = .ok [1, 1, 2, 3] ∧
      ∃ log s,
        Execution (LockFree.routine.machine (.ofCmp (compare : Nat → Nat → Ordering)) 2) start log s ∧
        (LockFree.routine.machine (.ofCmp (compare : Nat → Nat → Ordering)) 2).system.allFinished s = true ∧
        s.store.segments.toList = [1, 1, 2, 3] ∧ s.store.segmentCounts.counts = #[4, 4, 4, 4] ∧
        s.store.workerCounts.counts = #[4, 4] := by
  obtain ⟨_, _, ready, sequential, all⟩ := lockFree_eq_segmented (.ofCmp (compare : Nat → Nat → Ordering))
    .senseReversal (show 0 < 1 by decide) (show [3, 1, 2, 1].length < 2 ^ 63 by decide) ⟨2, by decide⟩
    (show 2 ∣ 4 by decide)
  have segmented : Sequential.segmented (.ofCmp (compare : Nat → Nat → Ordering)) 1 [3, 1, 2, 1] =
      .ok [1, 1, 2, 3] := by cbv
  obtain rfl := Except.ok.inj (ready.symm.trans (rfl : _ = Except.ok _))
  obtain rfl := Except.ok.inj (sequential.symm.trans segmented)
  let inTurns := (List.replicate 32 [0, 1]).flatten
  obtain ⟨list, segments, workers⟩ :=
    all _ _ (History.follow .start inTurns (by decide)).execution (by cbv)
  exact ⟨by decide, by decide, ⟨2, by decide⟩, by decide, _, ready, segmented, _, _,
    (History.follow .start inTurns (by decide)).execution, by cbv, list, segments, workers⟩

end SortNetwork.Parallel
