import Mathlib
import SortNetwork.Parallel.Stealing
import SortNetwork.Proofs.Parallel.Progress
import SortNetwork.Proofs.Parallel.Staged

/-!
# SortNetwork.Proofs.Parallel.Stealing

Workers that take each other's tasks while they wait at a barrier keep the stages apart.

The tasks of stage number `r` are queued after `2 * r` meetings.  Whatever is pending lies at most one
phase back, and the phases of different stages lie two apart; that is what the second meeting of each
stage is for.
-/

namespace SortNetwork.Parallel

variable {α : Type} {threads w : Nat}

namespace Stealing

theorem planned_code (share : Partition) (stages : List Stage) :
    planned (code share stages) = shareTasks share stages := by
  have pushes := planned_map (f := .push) fun _ => rfl
  have merges : ∀ stage, planned (stageCode share stage) = (share.pairs stage).map .merge := by
    intro stage
    rw [stageCode, planned_append, ← List.map_map]
    exact (congrArg (· ++ _) (pushes _)).trans (List.append_nil _)
  rw [code, planned_append, ← List.map_map]
  exact congrArg₂ (· ++ ·) (pushes _) (planned_flatMap merges stages)

/-- Every worker queues the tasks of stage number `r` after `2 * r` meetings, and drains its queue before
the next one. -/
theorem timetable_code {m : Nat} (fits : 2 ^ m < Word.capacity) (inside : w < threads) :
    Timetable (2 ^ m) threads (1 + 2 * stageCount (2 ^ m)) w (2 * ·) 0
      (code (shareOf threads (2 ^ m) w) (stages (2 ^ m))) := by
  let rounds := 1 + 2 * stageCount (2 ^ m)
  have pushes : ∀ tasks : List SegmentTask, ∀ done code,
      (∀ task ∈ tasks, 2 * task.stageNumber (2 ^ m) = done ∧ ∀ i ∈ task.touched, i < 2 ^ m) →
      Timetable (2 ^ m) threads rounds w (2 * ·) done code → Drains w code →
      Timetable (2 ^ m) threads rounds w (2 * ·) done (tasks.map .push ++ code) ∧
        Drains w (tasks.map .push ++ code) := by
    intro tasks done code current table drains
    induction tasks with
    | nil => exact ⟨table, drains⟩
    | cons task tasks ih =>
      obtain ⟨table, drains⟩ := ih fun other member => current other (by simp [member])
      have here := current task (by simp)
      exact ⟨table.push drains here.1 here.2, .inr ⟨rfl, drains⟩⟩
  have later : Timetable (2 ^ m) threads rounds w (2 * ·) (2 * 1 - 1)
      ((stages (2 ^ m)).flatMap (stageCode (shareOf threads (2 ^ m) w))) := by
    refine stages_induction
      (P := fun r code => 1 ≤ r → Timetable (2 ^ m) threads rounds w (2 * ·) (2 * r - 1) code)
      fits (fun _ => ?_) (fun r stage listed number code table positive => ?_) (le_refl 1)
    · have last : 2 * (1 + stageCount (2 ^ m)) - 1 = rounds := by omega
      rw [last]
      exact Timetable.nil
    · have next : 2 * (r + 1) - 1 = 2 * r + 1 := by omega
      have before : 2 * r - 1 + 1 = 2 * r := by omega
      have table := table (by omega)
      rw [next] at table
      have merges := pushes (((shareOf threads (2 ^ m) w).pairs stage).map .merge) (2 * r)
        (.drain w :: .meet :: code) (fun task member => ?_) (table.meet.drain inside) (.inl rfl)
      · rw [stageCode, ← List.map_map, List.append_assoc]
        refine Timetable.meet ?_
        rw [before]
        exact merges.1
      · obtain ⟨pair, isPair, rfl⟩ := List.mem_map.1 member
        have isTask := merge_mem_tasks_of_share inside listed isPair
        refine ⟨?_, fun i touched => lt_of_mem_touched fits isTask touched⟩
        rw [number pair (Stage.mem_pairsAmong_iff.1 isPair).2.1]
  have sorts := pushes ((shareOf threads (2 ^ m) w).segments.map .sort) 0 (.drain w :: .meet :: _)
    (fun task member => ?_) (later.meet.drain inside) (.inl rfl)
  · rw [code, ← List.map_map]
    exact sorts.1.enter
  · obtain ⟨id, isSegment, rfl⟩ := List.mem_map.1 member
    exact ⟨rfl, by simpa using lt_of_mem_shareOf inside isSegment⟩

variable {order : ElementOrder α} {kind : BarrierKind} {k released : Nat} {segments : Segments α}
  {log : List SegmentTask} {s : State α} {o : Outline} {task other : SegmentTask}
  {rest : List Instruction}

theorem staged_outline (fits : 2 ^ k < Word.capacity) (divides : threads ∣ 2 ^ k) :
    (routine.outline threads (2 ^ k) kind).Staged (2 ^ k) threads (1 + 2 * stageCount (2 ^ k))
      (2 * ·) 0 [] := by
  refine Parallel.staged_outline divides (Nat.pos_of_dvd_of_pos divides (Nat.two_pow_pos k))
    (fun _ inside => timetable_code fits inside) (fun peers x member => ?_)
      fun share _ stages => planned_code share stages
  obtain ⟨peer, isPeer, rfl⟩ := List.mem_map.1 member
  exact ⟨peer, isPeer, rfl⟩

/-- What is pending when a task is about to be performed, or to be queued, belongs to the stage of the
task or to a later one. -/
theorem stageNumber_le_of_pending {n rounds : Nat}
    (staged : o.Staged n threads rounds (2 * ·) released log)
    (inside : w < threads) (code : o.code w = .push task :: rest ∨ o.code w = .perform task :: rest)
    (member : other ∈ o.pending threads) : task.stageNumber n ≤ other.stageNumber n := by
  have ahead : 2 * task.stageNumber n ≤ released := by
    rcases code with push | perform
    · exact (staged.phase_of_push inside push).le
    · exact staged.phase_le inside perform
  have behind : released ≤ 2 * other.stageNumber n + 1 := staged.le_phase member
  omega

/-- Whatever the workers do in which order, the run stays staged. -/
theorem exists_staged (fits : 2 ^ k < Word.capacity) (divides : threads ∣ 2 ^ k)
    (execution : Execution (routine.machine order threads)
      (routine.firstState threads (2 ^ k) kind segments) log s) :
    ∃ released, s.outline.Staged (2 ^ k) threads (1 + 2 * stageCount (2 ^ k)) (2 * ·) released log := by
  refine execution.invariant
    (P := fun log o => ∃ released, o.Staged (2 ^ k) threads _ (2 * ·) released log) ?_ ?_ ?_
  · rw [Routine.outline_firstState]
    exact ⟨0, staged_outline fits divides⟩
  · rintro log w instruction o o' ⟨released, staged⟩ inside move
    obtain ⟨released', -, staged'⟩ := staged.of_move fits inside move fun task same other member => by
      obtain ⟨rest, _, _, code, _, _⟩ := move
      exact stageNumber_le_of_pending staged inside (.inr (same ▸ code)) member
    exact ⟨released', staged'⟩
  · rintro log w o o' ⟨released, staged⟩ inside idle
    exact ⟨released, staged.of_idle inside idle⟩

theorem steady (fits : 2 ^ k < Word.capacity) (divides : threads ∣ 2 ^ k) :
    Steady (routine.machine order threads) (routine.firstState threads (2 ^ k) kind segments) (2 ^ k) where
  shaped := Routine.shaped_firstState routine order kind
  orderly execution :=
    have ⟨_, staged⟩ := exists_staged fits divides execution
    staged.orderly
  unblocked execution :=
    have ⟨_, staged⟩ := exists_staged fits divides execution
    staged.exists_unblocked

end Stealing

/-- However the workers' steps interleave: when a merge is about to be queued, or to be performed, every
task of an earlier stage has been performed, and none is queued or taken; and a sort whose workers all
finish leaves what the segmented sort of one worker leaves, with every local sort and every merge of the
network performed once, and nothing else. -/
theorem stealing_eq_segmented (order : ElementOrder α) (kind : BarrierKind) {threads size : Nat}
    {data : List α}
    (positive : 0 < size) (short : data.length < 2 ^ 63) (power : (data.length / size).isPowerOfTwo)
    (divides : threads ∣ data.length / size) :
    ∃ start sorted,
      Stealing.routine.setUp threads size kind (.start (data.length / size)) data = .ok start ∧
      Sequential.segmented order size data = .ok sorted ∧
      ∀ log s, Execution (Stealing.routine.machine order threads) start log s →
        (∀ w < threads, ∀ pair rest, s.outline.code w = .push (.merge pair) :: rest ∨
            s.outline.code w = .perform (.merge pair) :: rest →
          ∀ task ∈ tasks (data.length / size),
            task.stageNumber (data.length / size) <
              (SegmentTask.merge pair).stageNumber (data.length / size) →
            log.count task = 1 ∧ ∀ u < threads, task ∉ s.outline.queue u ∧
              .perform task ∉ s.outline.code u) ∧
        ((Stealing.routine.machine order threads).system.allFinished s = true →
          s.store.segments.toList = sorted ∧
            (∀ id < data.length / size, log.count (.sort id) = 1) ∧
            (∀ stage ∈ stages (data.length / size), ∀ pair ∈ stage.pairs (data.length / size),
              log.count (.merge pair) = 1) ∧
            log.length =
              data.length / size + data.length / size / 2 * stageCount (data.length / size)) := by
  obtain ⟨k, count⟩ := power
  have suits : Suits size k data := ⟨positive, short, count⟩
  rw [count] at divides
  obtain ⟨segments, ready, holds, -⟩ := Routine.exists_setUp Stealing.routine kind suits divides
  obtain ⟨t, sequential, holds', -⟩ := Sequential.exists_segmented suits order
  refine ⟨_, _, ready, sequential, fun log s execution => ?_⟩
  obtain ⟨released, staged⟩ := Stealing.exists_staged suits.small divides execution
  rw [count]
  constructor
  · intro w inside pair rest code task isTask earlier
    have settled : task ∉ s.outline.pending threads := fun member =>
      absurd (Stealing.stageNumber_le_of_pending staged inside code member) (Nat.not_le.2 earlier)
    refine ⟨?_, fun u hu => ⟨fun queued => ?_, fun taken => ?_⟩⟩
    · have once := staged.orderly.all.count_eq task
      rw [List.count_append, List.count_eq_zero_of_not_mem settled, (nodup_tasks suits.small).count,
        if_pos isTask] at once
      exact once
    · exact settled (mem_pending_iff.2 ⟨u, hu, .inr queued⟩)
    · exact settled (mem_pending_iff.2 ⟨u, hu, .inl (mem_planned_iff.2 (.inl taken))⟩)
  · intro finished
    have done := Machine.allFinished_iff.1 finished
    have final := execution.final suits staged.orderly holds done
    obtain ⟨sorts, merges, length⟩ := counts_of_perm suits.small (staged.orderly.perm_tasks done)
    exact ⟨final.toList_eq.trans holds'.toList_eq.symm, sorts, merges, length⟩

/-- Two workers that meet at a counting barrier, on two segments of two elements.  When the first is about to queue
the merge, both local sorts have been performed; while it pauses the second takes the merge and is about to perform
it; and when both are done the list is sorted. -/
theorem stealing_two_segments :
    0 < 2 ∧ [3, 1, 2, 1].length < 2 ^ 63 ∧ (4 / 2 : Nat).isPowerOfTwo ∧ 2 ∣ 4 / 2 ∧
    ∃ start, Stealing.routine.setUp 2 2 .stepCounter (.start 2) [3, 1, 2, 1] = .ok start ∧
      Sequential.segmented (.ofCmp (compare : Nat → Nat → Ordering)) 2 [3, 1, 2, 1] = .ok [1, 1, 2, 3] ∧
      (∃ log s,
        Execution (Stealing.routine.machine (.ofCmp (compare : Nat → Nat → Ordering)) 2) start log s ∧
        s.outline.code 0 = [.push (.merge ⟨⟨2, 1⟩, 0, 1, .ascending⟩), .drain 0, .meet] ∧
        log.count (.sort 1) = 1 ∧
        ∀ u < 2, .sort 1 ∉ s.outline.queue u ∧ .perform (.sort 1) ∉ s.outline.code u) ∧
      (∃ log s,
        Execution (Stealing.routine.machine (.ofCmp (compare : Nat → Nat → Ordering)) 2) start log s ∧
        s.outline.code 1 =
          [.perform (.merge ⟨⟨2, 1⟩, 0, 1, .ascending⟩), .drain 0, .barrier (.polling 2)] ∧
        log.count (.sort 0) = 1 ∧
        ∀ u < 2, .sort 0 ∉ s.outline.queue u ∧ .perform (.sort 0) ∉ s.outline.code u) ∧
      ∃ log s,
        Execution (Stealing.routine.machine (.ofCmp (compare : Nat → Nat → Ordering)) 2) start log s ∧
        (Stealing.routine.machine (.ofCmp (compare : Nat → Nat → Ordering)) 2).system.allFinished s = true ∧
        s.store.segments.toList = [1, 1, 2, 3] ∧ log.count (.merge ⟨⟨2, 1⟩, 0, 1, .ascending⟩) = 1 ∧
        log.length = 3 := by
  obtain ⟨_, _, ready, sequential, all⟩ := stealing_eq_segmented (.ofCmp (compare : Nat → Nat → Ordering))
    .stepCounter (show 0 < 2 by decide) (show [3, 1, 2, 1].length < 2 ^ 63 by decide) ⟨1, by decide⟩
    (show 2 ∣ 2 by decide)
  have segmented : Sequential.segmented (.ofCmp (compare : Nat → Nat → Ordering)) 2 [3, 1, 2, 1] =
      .ok [1, 1, 2, 3] := by cbv
  obtain rfl := Except.ok.inj (ready.symm.trans (rfl : _ = Except.ok _))
  obtain rfl := Except.ok.inj (sequential.symm.trans segmented)
  let toQueue := (List.replicate 14 [0, 1]).flatten
  let toTake := toQueue ++ [0, 1, 1, 1, 1, 1]
  let toEnd := toTake ++ (List.replicate 10 [1, 0]).flatten
  obtain ⟨queueing, -⟩ := all _ _ (History.follow .start toQueue (by decide)).execution
  obtain ⟨taking, -⟩ := all _ _ (History.follow .start toTake (by decide)).execution
  obtain ⟨-, finished⟩ := all _ _ (History.follow .start toEnd (by decide)).execution
  have queues := queueing 0 (by decide) ⟨⟨2, 1⟩, 0, 1, .ascending⟩ [.drain 0, .meet] (.inl (by decide +kernel))
    (.sort 1) (by decide) (by decide)
  have takes := taking 1 (by decide) ⟨⟨2, 1⟩, 0, 1, .ascending⟩ [.drain 0, .barrier (.polling 2)]
    (.inr (by decide +kernel)) (.sort 0) (by decide) (by decide)
  obtain ⟨list, -, merges, length⟩ := finished (by cbv)
  exact ⟨by decide, by decide, ⟨1, by decide⟩, by decide, _, ready, segmented,
    ⟨_, _, (History.follow .start toQueue (by decide)).execution, by decide +kernel, queues⟩,
    ⟨_, _, (History.follow .start toTake (by decide)).execution, by decide +kernel, takes⟩,
    _, _, (History.follow .start toEnd (by decide)).execution, by cbv, list,
    merges ⟨2, 1⟩ (by decide) _ (by decide), length⟩

end SortNetwork.Parallel
