import Mathlib
import SortNetwork.Parallel.WaitFree
import SortNetwork.Proofs.Parallel.Looking
import SortNetwork.Proofs.Parallel.Plan

/-!
# SortNetwork.Proofs.Parallel.WaitFree

Workers that queue their merges, and take those of workers behind, sort as one worker does, in whatever
order they act.  On the way no two of them are ever at work on the same segment, and they never all wait in
vain.
-/

namespace SortNetwork.Parallel

variable {α : Type} {threads w : Nat}

namespace WaitFree

theorem planned_finishCode (worker : Nat) (peers : List Nat) :
    planned (finishCode worker peers) = [] := by
  have looks : planned (.drain worker :: peers.map .drainIfBehind) = [] :=
    planned_looks (by simp [Instruction.looks])
  rw [finishCode, planned_append, looks]
  rfl

theorem planned_code (share : Partition) (peers : List Nat) (stages : List Stage) :
    planned (code share peers stages) = shareTasks share stages := by
  have sorts := planned_map (f := .push) fun _ => rfl
  have merges : ∀ stage, planned (stageCode share peers stage) = (share.pairs stage).map .merge := by
    intro stage
    rw [stageCode, planned_append, planned_flatMap_single (f := pairCode) (g := .merge) fun _ => rfl,
      planned_finishCode, List.append_nil]
  rw [code, planned_append, planned_append, planned_finishCode, planned_flatMap merges, ← List.map_map]
  exact congrArg (· ++ _) (sorts _)

variable {n stage : Nat} {peers : List Nat} {code : List Instruction}

/-- A worker completes a stage once it has drained its own queue and looked after those behind. -/
theorem plan_finishCode (inside : w < threads) (near : ∀ peer ∈ peers, peer < threads)
    (plan : Plan n threads w (stage + 1) [] code) :
    Plan n threads w stage [] (finishCode w peers ++ code) := by
  have looks : Plan n threads w stage [] (peers.map .drainIfBehind ++ .nextStage :: code) := by
    clear inside
    induction peers with
    | nil => exact plan.nextStage
    | cons peer peers ih =>
      exact (ih fun other member => near other (by simp [member])).aside _
        (.inr ⟨peer, near peer (by simp), .inr rfl⟩)
  rw [finishCode, List.append_assoc]
  exact looks.aside _ (.inr ⟨w, inside, .inl rfl⟩)

/-- Every worker waits for the segments of a pair before it queues their merge, and drains its queue
before it completes the stage. -/
theorem plan_code {m : Nat} (fits : 2 ^ m < Word.capacity) (inside : w < threads) :
    Plan (2 ^ m) threads w 0 []
      (WaitFree.code (shareOf threads (2 ^ m) w) (peersOf threads w) (stages (2 ^ m))) := by
  have near : ∀ peer ∈ peersOf threads w, peer < threads :=
    fun peer member => (mem_peersOf inside member).1
  have later : Plan (2 ^ m) threads w 1 []
      ((stages (2 ^ m)).flatMap (stageCode (shareOf threads (2 ^ m) w) (peersOf threads w))) := by
    refine stages_induction (P := fun r code => Plan (2 ^ m) threads w r [] code) fits Plan.nil
      fun r stage listed number code plan => ?_
    rw [stageCode, List.append_assoc]
    refine (flatMap_append_induction (P := fun code => Plan (2 ^ m) threads w r [] code ∧ Drains w code)
      ⟨plan_finishCode inside near plan, .inl rfl⟩ fun pair member code ⟨plan, drains⟩ => ?_).1
    have isTask := merge_mem_tasks_of_share inside listed member
    have number := number pair (Stage.mem_pairsAmong_iff.1 member).2.1
    have within := fun i touched => lt_of_mem_touched fits isTask (i := i) touched
    have purpose : ∀ i ∈ (SegmentTask.merge pair).touched, ∃ task ∈ planned (.push (.merge pair) :: code),
        i ∈ task.touched ∧ task.stageNumber (2 ^ m) = r :=
      fun i touched => ⟨.merge pair, mem_planned_iff.2 (.inr (by simp)), touched, number⟩
    have queues : Plan (2 ^ m) threads w r [pair.upper, pair.lower] (.push (.merge pair) :: code) :=
      plan.push drains number within fun i touched => .inr (by simpa [or_comm] using touched)
    exact ⟨(queues.await (within _ (by simp)) (purpose _ (by simp))).await (within _ (by simp))
      (purpose _ (by simp)),
      .inr ⟨rfl, .inr ⟨rfl, .inr ⟨rfl, drains⟩⟩⟩⟩
  have sorts : ∀ ids : List Nat, (∀ id ∈ ids, id < 2 ^ m) → ∀ code, Plan (2 ^ m) threads w 0 [] code →
      Drains w code → Plan (2 ^ m) threads w 0 [] (ids.map (.push ∘ .sort) ++ code) ∧
        Drains w (ids.map (.push ∘ .sort) ++ code) := by
    intro ids within code plan drains
    induction ids with
    | nil => exact ⟨plan, drains⟩
    | cons id ids ih =>
      obtain ⟨plan, drains⟩ := ih fun other member => within other (by simp [member])
      exact ⟨plan.push drains rfl (by simpa using within id (by simp)) fun _ _ => .inl rfl,
        .inr ⟨rfl, drains⟩⟩
  exact (sorts _ (fun id member => lt_of_mem_shareOf inside member) _ (plan_finishCode inside near later)
    (.inl rfl)).1.aside _ (.inl rfl)

theorem counted_outline {m : Nat} (fits : 2 ^ m < Word.capacity) (divides : threads ∣ 2 ^ m)
    (kind : BarrierKind) :
    (routine.outline threads (2 ^ m) kind).Counted (2 ^ m) threads [] := by
  refine Parallel.counted_outline divides (fun _ inside => plan_code fits inside)
    (fun peers x member => ?_)
    fun share peers stages => planned_code share peers stages
  obtain ⟨peer, isPeer, rfl⟩ := List.mem_map.1 member
  exact ⟨peer, isPeer, .inr rfl⟩

theorem steady {order : ElementOrder α} {kind : BarrierKind} {segments : Segments α} {m : Nat}
    (fits : 2 ^ m < Word.capacity) (divides : threads ∣ 2 ^ m) :
    Steady (routine.machine order threads) (routine.firstState threads (2 ^ m) kind segments) (2 ^ m) :=
  steady_of_counted rfl fits (counted_outline fits divides kind)

/-- The last thing that a worker does is to complete a stage. -/
theorem concludes_code (share : Partition) (peers : List Nat) (stages : List Stage) :
    Concludes (WaitFree.code share peers stages) := by
  have finish : ∀ before worker, Concludes (before ++ finishCode worker peers) := by
    intro before worker
    rw [finishCode, ← List.append_assoc]
    exact concludes_concat rfl
  rw [WaitFree.code, ← List.append_assoc]
  exact (finish _ _).append (concludes_flatMap (fun _ => finish _ _) _)

theorem concludes_outline (kind : BarrierKind) : ∀ w, Concludes ((routine.outline threads n kind).code w) :=
  Routine.forall_code (P := fun _ code => Concludes code) (fun _ => concludes_nil)
    fun _ _ => concludes_code _ _ _

end WaitFree

/-- However the workers' steps interleave, a wait-free sort keeps its workers apart.

From when a task is queued until it counts a segment, the count of the segment is the number of the task's
stage.  No task is performed twice, and no two workers are ever at work on the same segment, whoever queued
the tasks.  A count grows one by one, up to the number of all stages, and it never goes past a worker that
waits for it. -/
theorem waitFree_exclusive (order : ElementOrder α) (kind : BarrierKind) {threads size : Nat}
    {data : List α} {start s : State α} {past : List Deed}
    (word : data.length < 2 ^ 64) (power : (data.length / size).isPowerOfTwo)
    (divides : threads ∣ data.length / size)
    (ready : WaitFree.routine.setUp threads size kind (.start (data.length / size)) data = .ok start)
    (history : History (WaitFree.routine.machine order threads) start past s) :
    (∀ w task, ⟨w, .push task⟩ ∈ past → ∀ i ∈ task.touched, ¬DoneWith past task i →
      s.outline.counts i = task.stageNumber (data.length / size)) ∧
    (performedIn past).Nodup ∧
    (∀ w < threads, ∀ v < threads, ∀ task other i, AtWork past s.outline w task i →
      AtWork past s.outline v other i → w = v ∧ task = other) ∧
    (∀ i next, (WaitFree.routine.machine order threads).system.Step s next →
      next.outline.counts i = s.outline.counts i ∨ next.outline.counts i = s.outline.counts i + 1) ∧
    (∀ i, s.outline.counts i ≤ 1 + stageCount (data.length / size)) ∧
    ∀ w < threads, ∀ i, s.outline.Waits w i → s.outline.counts i ≤ s.outline.stages w := by
  obtain ⟨k, segments, count, divides, small, -, rfl, -⟩ :=
    Routine.exists_firstState word power divides ready
  have guarded := guarded_of_counted rfl small (WaitFree.counted_outline small divides kind) history
  rw [count]
  exact ⟨fun w task pushed i touched undone => guarded.counts_eq_of_pushed small pushed touched undone,
    guarded.counted.orderly.nodup small,
    fun w inside v inside' task other i work work' => guarded.eq_of_atWork small inside inside' work work',
    fun i next step => Machine.counts_eq_or step i, guarded.counted.counts_le_stageCount small,
    fun w inside i waits => guarded.counted.counts_le_of_waits small inside waits⟩

/-- One of two workers has queued the merge of both segments. -/
theorem waitFree_exclusive_queued :
    [2, 1].length < 2 ^ 64 ∧ (2 / 1 : Nat).isPowerOfTwo ∧ 2 ∣ 2 / 1 ∧
    ∃ start, WaitFree.routine.setUp 2 1 .senseReversal (.start 2) [2, 1] = .ok start ∧
    ∃ past s, History (WaitFree.routine.machine (.ofCmp (compare : Nat → Nat → Ordering)) 2) start past s ∧
      ⟨0, .push (.merge ⟨⟨2, 1⟩, 0, 1, .ascending⟩)⟩ ∈ past ∧
      ¬DoneWith past (.merge ⟨⟨2, 1⟩, 0, 1, .ascending⟩) 1 ∧ s.outline.counts 1 = 1 := by
  have exclusive := waitFree_exclusive (.ofCmp (compare : Nat → Nat → Ordering)) .senseReversal
    (show [2, 1].length < 2 ^ 64 by decide) (show ([2, 1].length / 1).isPowerOfTwo from ⟨1, by decide⟩)
    (show 2 ∣ [2, 1].length / 1 by decide) rfl
    (.follow .start (List.replicate 8 0 ++ List.replicate 8 1 ++ [0, 0, 0]) (by decide))
  exact ⟨by decide, ⟨1, by decide⟩, by decide, _, rfl, _, _, .follow .start _ (by decide),
    by decide +kernel, by decide +kernel,
    exclusive.1 0 (.merge ⟨⟨2, 1⟩, 0, 1, .ascending⟩) (by decide +kernel) 1 (by decide) (by decide +kernel)⟩

/-- However the workers' steps interleave, a wait-free sort never gets stuck.

Until all workers are done, one of them goes on to more than a look into a queue in vain.  In particular,
if all of them wait for segments, then one of the segments has come as far as the worker that waits for
it. -/
theorem waitFree_unstuck (order : ElementOrder α) (kind : BarrierKind) {threads size : Nat}
    {data : List α} {start s : State α}
    (word : data.length < 2 ^ 64) (power : (data.length / size).isPowerOfTwo)
    (divides : threads ∣ data.length / size)
    (ready : WaitFree.routine.setUp threads size kind (.start (data.length / size)) data = .ok start)
    (reached : (WaitFree.routine.machine order threads).system.Reachable start s)
    (unfinished : (WaitFree.routine.machine order threads).system.allFinished s = false) :
    (∃ w < threads, (WaitFree.routine.machine order threads).GoesOn w s) ∧
    ((∀ w < threads, s.outline.code w ≠ [] → ∃ i, s.outline.Waits w i) →
      ∃ w < threads, ∃ i, s.outline.Waits w i ∧ s.outline.counts i = s.outline.stages w) := by
  obtain ⟨k, segments, -, divides, small, fits, rfl, holds⟩ :=
    Routine.exists_firstState word power divides ready
  obtain ⟨log, execution⟩ := exists_execution_iff.2 reached
  have steady : Steady (WaitFree.routine.machine order threads)
      (WaitFree.routine.firstState threads (2 ^ k) kind segments) (2 ^ k) := WaitFree.steady small divides
  have outline : (WaitFree.routine.firstState threads (2 ^ k) kind segments).outline =
      WaitFree.routine.outline threads (2 ^ k) kind := Routine.outline_firstState ..
  have counted := execution.counted rfl small (outline ▸ WaitFree.counted_outline small divides kind)
  have concludes := execution.concludes (outline ▸ WaitFree.concludes_outline kind)
  have busy : ∃ w < threads, s.outline.code w ≠ [] := by
    by_contra idle
    push Not at idle
    rw [Machine.allFinished_iff.2 idle] at unfinished
    cases unfinished
  exact ⟨steady.exists_goesOn fits small holds execution counted concludes busy,
    counted.exists_ready small busy⟩

/-- Two workers have sorted two segments each, and both wait in the first stage. -/
theorem waitFree_unstuck_both_waiting :
    [3, 1, 2, 1].length < 2 ^ 64 ∧ (4 / 1 : Nat).isPowerOfTwo ∧ 2 ∣ 4 / 1 ∧
    ∃ start, WaitFree.routine.setUp 2 1 .senseReversal (.start 4) [3, 1, 2, 1] = .ok start ∧
    ∃ s, (WaitFree.routine.machine (.ofCmp (compare : Nat → Nat → Ordering)) 2).system.Reachable start s ∧
      (WaitFree.routine.machine (.ofCmp (compare : Nat → Nat → Ordering)) 2).system.allFinished s = false ∧
      (s.outline.code 0).head? = some (.await 0) ∧ (s.outline.code 1).head? = some (.await 2) ∧
      ∃ w < 2, (WaitFree.routine.machine (.ofCmp (compare : Nat → Nat → Ordering)) 2).GoesOn w s := by
  have unstuck := waitFree_unstuck (.ofCmp (compare : Nat → Nat → Ordering)) .senseReversal
    (show [3, 1, 2, 1].length < 2 ^ 64 by decide)
    (show ([3, 1, 2, 1].length / 1).isPowerOfTwo from ⟨2, by decide⟩)
    (show 2 ∣ [3, 1, 2, 1].length / 1 by decide) rfl
    (exists_history_iff.1
      ⟨_, .follow .start (List.replicate 12 0 ++ List.replicate 12 1) (by decide)⟩)
    (by decide +kernel)
  exact ⟨by decide, ⟨2, by decide⟩, by decide, _, rfl, _,
    exists_history_iff.1 ⟨_, .follow .start _ (by decide)⟩, by decide +kernel,
    by decide +kernel, by decide +kernel, unstuck.1⟩

/-- However the workers' steps interleave, a wait-free sort whose workers all finish leaves what the
segmented sort of one worker leaves.  Every local sort and every merge of the network has been performed
once, and nothing else; the queues are empty, and every segment and every worker is counted through the
local sorts and all stages. -/
theorem waitFree_eq_segmented (order : ElementOrder α) (kind : BarrierKind) {threads size : Nat}
    {data : List α}
    (positive : 0 < size) (short : data.length < 2 ^ 63) (power : (data.length / size).isPowerOfTwo)
    (divides : threads ∣ data.length / size) :
    ∃ start sorted,
      WaitFree.routine.setUp threads size kind (.start (data.length / size)) data = .ok start ∧
      Sequential.segmented order size data = .ok sorted ∧
      ∀ log s, Execution (WaitFree.routine.machine order threads) start log s →
        (WaitFree.routine.machine order threads).system.allFinished s = true →
        s.store.segments.toList = sorted ∧
          (∀ id < data.length / size, log.count (.sort id) = 1) ∧
          (∀ stage ∈ stages (data.length / size), ∀ pair ∈ stage.pairs (data.length / size),
            log.count (.merge pair) = 1) ∧
          log.length =
            data.length / size + data.length / size / 2 * stageCount (data.length / size) ∧
          s.store.queues = Array.replicate threads .empty ∧
          s.store.segmentCounts.counts =
            Array.replicate (data.length / size) (1 + stageCount (data.length / size)) ∧
          s.store.workerCounts.counts =
            Array.replicate threads (1 + stageCount (data.length / size)) := by
  obtain ⟨k, count⟩ := power
  have suits : Suits size k data := ⟨positive, short, count⟩
  rw [count] at divides
  obtain ⟨segments, ready, holds, -⟩ := Routine.exists_setUp WaitFree.routine kind suits divides
  obtain ⟨t, sequential, holds', -⟩ := Sequential.exists_segmented suits order
  refine ⟨_, _, ready, sequential, fun log s execution finished => ?_⟩
  obtain ⟨final, all, queues, counts, stages⟩ := counted_final rfl suits
    (WaitFree.counted_outline suits.small divides kind) holds execution finished
  obtain ⟨sorts, merges, length⟩ := counts_of_perm suits.small all
  rw [count]
  exact ⟨final.toList_eq.trans holds'.toList_eq.symm, sorts, merges, length, queues, counts, stages⟩

/-- Two workers take turns on four segments of two elements, with ties and one element left over. -/
theorem waitFree_four_segments :
    0 < 2 ∧ [3, 1, 2, 1, 0, 3, 3, 2, 9].length < 2 ^ 63 ∧ (9 / 2 : Nat).isPowerOfTwo ∧ 2 ∣ 9 / 2 ∧
    ∃ start,
      WaitFree.routine.setUp 2 2 .senseReversal (.start 4) [3, 1, 2, 1, 0, 3, 3, 2, 9] = .ok start ∧
      Sequential.segmented (.ofCmp (compare : Nat → Nat → Ordering)) 2 [3, 1, 2, 1, 0, 3, 3, 2, 9] =
        .ok [0, 1, 1, 2, 2, 3, 3, 3, 9] ∧
      ∃ log s,
        Execution (WaitFree.routine.machine (.ofCmp (compare : Nat → Nat → Ordering)) 2) start log s ∧
        (WaitFree.routine.machine (.ofCmp (compare : Nat → Nat → Ordering)) 2).system.allFinished s = true ∧
        s.store.segments.toList = [0, 1, 1, 2, 2, 3, 3, 3, 9] ∧ log.count (.sort 3) = 1 ∧
        log.count (.merge ⟨⟨4, 2⟩, 1, 3, .ascending⟩) = 1 ∧ log.length = 10 ∧
        s.store.queues = #[.empty, .empty] ∧ s.store.segmentCounts.counts = #[4, 4, 4, 4] ∧
        s.store.workerCounts.counts = #[4, 4] := by
  obtain ⟨_, _, ready, sequential, all⟩ := waitFree_eq_segmented (.ofCmp (compare : Nat → Nat → Ordering))
    .senseReversal (show 0 < 2 by decide) (show [3, 1, 2, 1, 0, 3, 3, 2, 9].length < 2 ^ 63 by decide)
    ⟨2, by decide⟩ (show 2 ∣ 4 by decide)
  have segmented : Sequential.segmented (.ofCmp (compare : Nat → Nat → Ordering)) 2
      [3, 1, 2, 1, 0, 3, 3, 2, 9] = .ok [0, 1, 1, 2, 2, 3, 3, 3, 9] := by cbv
  obtain rfl := Except.ok.inj (ready.symm.trans (rfl : _ = Except.ok _))
  obtain rfl := Except.ok.inj (sequential.symm.trans segmented)
  let inTurns := (List.replicate 48 [0, 1]).flatten
  obtain ⟨list, sorts, merges, length, queues, segments, workers⟩ :=
    all _ _ (History.follow .start inTurns (by decide)).execution (by cbv)
  exact ⟨by decide, by decide, ⟨2, by decide⟩, by decide, _, ready, segmented, _, _,
    (History.follow .start inTurns (by decide)).execution, by cbv, list, sorts 3 (by decide),
    merges ⟨4, 2⟩ (by decide) _ (by decide), length, queues, segments, workers⟩

end SortNetwork.Parallel
