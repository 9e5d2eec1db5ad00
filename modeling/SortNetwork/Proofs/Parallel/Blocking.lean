import Mathlib
import SortNetwork.Parallel.Blocking
import SortNetwork.Proofs.Parallel.Progress
import SortNetwork.Proofs.Parallel.Staged

/-!
# SortNetwork.Proofs.Parallel.Blocking

Workers that meet after each stage sort as one worker does, in whatever order they act.

The tasks of stage number `r` come after `r` meetings.  A worker that has a call to the barrier open does
nothing but go on with the call (`Lockstep.prompt`), so what is pending belongs to the phase that all
workers have reached, or to a later one.  When a meeting is about to be released, everybody is in it, and
what has been performed are the tasks of the phases up to it (`Lockstep.mem_log_iff`): the list is what the
segmented sort holds after the same stages (`blocking_refines_segmented`).
-/

namespace SortNetwork.Parallel

variable {α : Type} {n threads rounds released w : Nat} {phase : Nat → Nat} {log : List SegmentTask}

/-- A staged run of workers that do nothing else while they have a call to the barrier open. -/
structure Outline.Lockstep (n threads rounds : Nat) (phase : Nat → Nat) (released : Nat)
    (log : List SegmentTask)
    (o : Outline) : Prop where
  staged : o.Staged n threads rounds phase released log
  performed : ∀ task ∈ log, phase (task.stageNumber n) ≤ released
  alone : ∀ w, o.between w = []
  prompt : ∀ w, callOf (o.code w) ≠ .entering → ∃ call rest, o.code w = .barrier call :: rest

namespace Outline.Lockstep

variable {m : Nat} {o o' : Outline} {instruction : Instruction} {rest : List Instruction}
  {task : SegmentTask}

/-- A pending task does not belong to a phase before the present one. -/
theorem le_phase (lockstep : o.Lockstep n threads rounds phase released log)
    (member : task ∈ o.pending threads) :
    released ≤ phase (task.stageNumber n) := by
  have staged := lockstep.staged
  obtain ⟨w, inside, given | queued⟩ := mem_pending_iff.1 member
  · have scheduled := staged.scheduled w inside
    by_cases outside : callOf (o.code w) = .entering
    · rw [← staged.gathered.met_eq inside outside]
      exact scheduled.le_phase given
    · obtain ⟨call, rest, code⟩ := lockstep.prompt w outside
      rw [code] at scheduled given
      have later : Scheduled n rounds phase released (o.met rounds w + 1) rest := scheduled
      exact (staged.gathered.le_met inside).trans (later.le_phase given)
  · exact (staged.phase_of_queued inside queued).ge

/-- No two workers come to tasks of one segment at a time. -/
theorem eq_of_code {v i : Nat} {other : SegmentTask} {rest' : List Instruction} (fits : n < Word.capacity)
    (injective : Function.Injective phase) (lockstep : o.Lockstep n threads rounds phase released log)
    (inside : w < threads) (inside' : v < threads) (code : o.code w = .perform task :: rest)
    (code' : o.code v = .perform other :: rest') (touches : i ∈ task.touched) (touches' : i ∈ other.touched) :
    w = v := by
  have staged := lockstep.staged
  have current : ∀ {u : Nat} {task : SegmentTask} {rest : List Instruction}, u < threads →
      o.code u = .perform task :: rest → phase (task.stageNumber n) = released ∧ task ∈ tasks n := by
    intro u task rest hu here
    have member := mem_pending_of_code hu here rfl
    exact ⟨(staged.phase_le hu here).antisymm (lockstep.le_phase member), staged.orderly.mem_tasks member⟩
  obtain ⟨here, isTask⟩ := current inside code
  obtain ⟨here', isTask'⟩ := current inside' code'
  obtain rfl : task = other :=
    task_unique isTask touches isTask' touches' (injective (here.trans here'.symm))
  exact staged.orderly.eq_of_code fits inside inside' code code'

/-- When a worker is about to release a meeting, everybody has the call open that the meeting ends. -/
theorem exists_call_of_releasing (lockstep : o.Lockstep n threads rounds phase released log)
    (inside : w < threads) {snapshot : UInt32} (code : o.code w = .barrier (.releasing snapshot) :: rest)
    {u : Nat} (inside' : u < threads) :
    o.met rounds u = released ∧ ∃ call later, call ≠ .entering ∧ o.code u = .barrier call :: later := by
  have meeting := lockstep.staged.gathered.meeting
  have last : callOf (o.code w) = .releasing snapshot := by rw [code]; rfl
  have others := (meeting.phase.of_releasing inside last).1
  have fits := meeting.fits u inside'
  by_cases same : u = w
  · subst same
    rw [last] at fits
    exact ⟨fits.1, _, _, by simp, code⟩
  · have waits : callOf (o.code u) = .polling o.barrier.marker := others u inside' same
    rw [waits] at fits
    obtain ⟨call, later, here⟩ := lockstep.prompt u (by simp [waits])
    refine ⟨(fits.resolve_right fun ⟨_, absurdity⟩ => absurdity rfl).1, call, later, ?_, here⟩
    rw [here] at waits
    rintro rfl
    cases waits

/-- When a worker is about to release a meeting, the tasks performed are those of the phases up to it. -/
theorem mem_log_iff (lockstep : o.Lockstep n threads rounds phase released log) (inside : w < threads)
    {snapshot : UInt32} (code : o.code w = .barrier (.releasing snapshot) :: rest) (isTask : task ∈ tasks n) :
    task ∈ log ↔ phase (task.stageNumber n) ≤ released := by
  have staged := lockstep.staged
  refine ⟨lockstep.performed task, fun early => ?_⟩
  refine (List.mem_append.1 (staged.orderly.all.mem_iff.2 isTask)).resolve_right fun pending => ?_
  obtain ⟨u, inside', source⟩ := mem_pending_iff.1 pending
  obtain ⟨met, call, later, open_, here⟩ := lockstep.exists_call_of_releasing inside code inside'
  rcases source with given | queued
  · have scheduled := staged.scheduled u inside'
    rw [here] at scheduled given
    have after : Scheduled n rounds phase released (o.met rounds u + 1) later := scheduled
    have late := after.le_phase given
    omega
  · have drains := staged.orderly.tended.drains u (List.ne_nil_of_mem queued)
    have closed := staged.callOf_eq drains
    rw [here] at closed
    exact open_ closed

/-- When a worker is about to release a meeting, everybody has made one call more than meetings were
released. -/
theorem count_meet_eq (lockstep : o.Lockstep n threads rounds phase released log) (inside : w < threads)
    {snapshot : UInt32} (code : o.code w = .barrier (.releasing snapshot) :: rest) {u : Nat}
    (inside' : u < threads) : released + 1 + (o.code u).count .meet = rounds := by
  have gathered := lockstep.staged.gathered
  obtain ⟨met, call, later, open_, here⟩ := lockstep.exists_call_of_releasing inside code inside'
  have all := gathered.met_add inside'
  have inTurn := gathered.inTurn u
  rw [here] at inTurn all ⊢
  have fresh : Fresh later := inTurn
  rw [List.count_cons_of_ne (by simpa using open_), fresh.count_meet, ← all, total_cons, met]
  simp only [meetings]
  omega

theorem of_move (fits : 2 ^ m < Word.capacity)
    (lockstep : o.Lockstep (2 ^ m) threads rounds phase released log)
    (inside : w < threads) (move : o.Move threads false w instruction o')
    (earliest : ∀ task, instruction = .perform task → ∀ other ∈ o.pending threads,
      task.stageNumber (2 ^ m) ≤ other.stageNumber (2 ^ m)) :
    ∃ released', o'.Lockstep (2 ^ m) threads rounds phase released' (log ++ instruction.performed) := by
  obtain ⟨released', grow, staged⟩ := lockstep.staged.of_move fits inside move earliest
  have inTurn := lockstep.staged.gathered.inTurn w
  have prompt := lockstep.prompt w
  obtain ⟨rest, more, effect, code, fires, rfl⟩ := move
  rw [code] at inTurn prompt
  refine ⟨released', staged, fun task member => ?_, ?_, ?_⟩
  · rcases List.mem_append.1 member with earlier | here
    · exact (lockstep.performed task earlier).trans grow
    · cases instruction with
      | perform other =>
        rw [List.mem_singleton.1 here]
        exact (lockstep.staged.phase_le inside code).trans grow
      | _ => cases here
  · rw [fires.between]
    exact lockstep.alone
  · refine (Function.forall_update_iff o.code fun _ code => callOf code ≠ .entering →
      ∃ call rest, code = .barrier call :: rest).2 ⟨fun open_ => ?_, fun u _ => lockstep.prompt u⟩
    rcases fires.incidental with ⟨_, next, -, rfl⟩ | incidental
    · exact ⟨next, rest, rfl⟩
    · rw [callOf_append incidental] at open_
      cases instruction with
      | barrier call => exact absurd (Fresh.callOf_eq inTurn) open_
      | _ =>
        obtain ⟨_, _, absurdity⟩ := prompt open_
        cases absurdity

theorem of_idle (lockstep : o.Lockstep n threads rounds phase released log) (inside : w < threads)
    (idle : o.Idle w o') : o'.Lockstep n threads rounds phase released log := by
  have staged := lockstep.staged.of_idle inside idle
  obtain ⟨_, _, _, _, rfl⟩ := idle
  refine ⟨staged, lockstep.performed, lockstep.alone, ?_⟩
  rw [lockstep.alone w, List.nil_append, Function.update_eq_self]
  exact lockstep.prompt

end Outline.Lockstep

namespace Blocking

theorem planned_code (share : Partition) (stages : List Stage) :
    planned (code share stages) = shareTasks share stages := by
  have performs := planned_map (f := .perform) fun _ => rfl
  have merges : ∀ stage, planned (stageCode share stage) = (share.pairs stage).map .merge := by
    intro stage
    rw [stageCode, planned_append, ← List.map_map, performs]
    exact List.append_nil _
  rw [code, planned_append, ← List.map_map]
  exact congrArg₂ (· ++ ·) (performs _) (planned_flatMap merges stages)

/-- Every worker performs the tasks of stage number `r` after `r` meetings. -/
theorem timetable_code {m : Nat} (fits : 2 ^ m < Word.capacity) (inside : w < threads) :
    Timetable (2 ^ m) threads (1 + stageCount (2 ^ m)) w id 0
      (code (shareOf threads (2 ^ m) w) (stages (2 ^ m))) := by
  let rounds := 1 + stageCount (2 ^ m)
  have performs : ∀ tasks : List SegmentTask, ∀ done code,
      (∀ task ∈ tasks, task.stageNumber (2 ^ m) = done ∧ ∀ i ∈ task.touched, i < 2 ^ m) →
      Timetable (2 ^ m) threads rounds w id done code →
      Timetable (2 ^ m) threads rounds w id done (tasks.map .perform ++ code) := by
    intro tasks done code current table
    induction tasks with
    | nil => exact table
    | cons task tasks ih =>
      have here := current task (by simp)
      exact (ih fun other member => current other (by simp [member])).perform here.1 here.2
  have later : Timetable (2 ^ m) threads rounds w id 1
      ((stages (2 ^ m)).flatMap (stageCode (shareOf threads (2 ^ m) w))) := by
    refine stages_induction
      (P := fun r code => Timetable (2 ^ m) threads rounds w id r code) fits Timetable.nil
      fun r stage listed number code table => ?_
    rw [stageCode, ← List.map_map, List.append_assoc]
    refine performs _ r _ (fun task member => ?_) table.meet
    obtain ⟨pair, isPair, rfl⟩ := List.mem_map.1 member
    have isTask := merge_mem_tasks_of_share inside listed isPair
    exact ⟨number pair (Stage.mem_pairsAmong_iff.1 isPair).2.1,
      fun i touched => lt_of_mem_touched fits isTask touched⟩
  rw [code, ← List.map_map]
  refine (performs _ 0 _ (fun task member => ?_) later.meet).enter
  obtain ⟨id, isSegment, rfl⟩ := List.mem_map.1 member
  exact ⟨rfl, by simpa using lt_of_mem_shareOf inside isSegment⟩

variable {order : ElementOrder α} {kind : BarrierKind} {k : Nat} {segments : Segments α} {s : State α}

theorem lockstep_outline (fits : 2 ^ k < Word.capacity) (divides : threads ∣ 2 ^ k) :
    (routine.outline threads (2 ^ k) kind).Lockstep (2 ^ k) threads (1 + stageCount (2 ^ k)) id 0 [] := by
  have staged :
      (routine.outline threads (2 ^ k) kind).Staged (2 ^ k) threads (1 + stageCount (2 ^ k)) id 0 [] :=
    Parallel.staged_outline divides (Nat.pos_of_dvd_of_pos divides (Nat.two_pow_pos k))
      (fun _ inside => timetable_code fits inside) (fun peers x member => by cases member)
      fun share _ stages => planned_code share stages
  refine ⟨staged, by simp, fun w => ?_, fun w open_ => ?_⟩
  · simp only [Routine.outline]
    split <;> rfl
  · simp only [Routine.outline] at open_
    split at open_
    · next inside => exact absurd (timetable_code fits inside).fresh.callOf_eq open_
    · exact absurd rfl open_

/-- Whatever the workers do in which order, the run stays in lockstep. -/
theorem exists_lockstep (fits : 2 ^ k < Word.capacity) (divides : threads ∣ 2 ^ k)
    (execution : Execution (routine.machine order threads)
      (routine.firstState threads (2 ^ k) kind segments) log s) :
    ∃ released, s.outline.Lockstep (2 ^ k) threads (1 + stageCount (2 ^ k)) id released log := by
  refine execution.invariant
    (P := fun log o => ∃ released, o.Lockstep (2 ^ k) threads _ id released log) ?_ ?_ ?_
  · rw [Routine.outline_firstState]
    exact ⟨0, lockstep_outline fits divides⟩
  · rintro log w instruction o o' ⟨released, lockstep⟩ inside move
    refine lockstep.of_move fits inside move fun task same other member => ?_
    obtain ⟨rest, _, _, code, _, _⟩ := move
    exact (lockstep.staged.phase_le inside (same ▸ code)).trans (lockstep.le_phase member)
  · rintro log w o o' ⟨released, lockstep⟩ inside idle
    exact ⟨released, lockstep.of_idle inside idle⟩

theorem steady (fits : 2 ^ k < Word.capacity) (divides : threads ∣ 2 ^ k) :
    Steady (routine.machine order threads) (routine.firstState threads (2 ^ k) kind segments) (2 ^ k) where
  shaped := Routine.shaped_firstState routine order kind
  orderly execution :=
    have ⟨_, lockstep⟩ := exists_lockstep fits divides execution
    lockstep.staged.orderly
  unblocked execution :=
    have ⟨_, lockstep⟩ := exists_lockstep fits divides execution
    lockstep.staged.exists_unblocked

/-- When a worker is about to release the meeting after `r` stages, the list is what the segmented sort holds
there. -/
theorem segmentedThrough_of_releasing {size r rounds : Nat} {data : List α} {m : Machine α}
    {start : State α} (suits : Suits size k data)
    (first : start.store.segments.Holds (2 ^ k) size (data.drop (2 ^ k * size)) (Segments.slice size data))
    (execution : Execution m start log s) (lockstep : s.outline.Lockstep (2 ^ k) threads rounds id r log)
    (inside : w < threads) {snapshot : UInt32} {rest : List Instruction}
    (code : s.outline.code w = .barrier (.releasing snapshot) :: rest) (within : r ≤ stageCount (2 ^ k)) :
    Sequential.segmentedThrough m.order size r data = .ok s.store.segments.toList := by
  have orderly := lockstep.staged.orderly
  have holds := holds_stageCells suits.small orderly.admissible within
    (fun _ isTask => lockstep.mem_log_iff inside code isTask)
    (execution.holds_of_orderly suits.fits suits.small orderly first)
  obtain ⟨t, halfway, holds', -⟩ := Sequential.exists_segmentedThrough suits m.order within
  rw [halfway]
  exact congrArg Except.ok (holds'.toList_eq.trans holds.toList_eq.symm)

theorem count_meet {past : List Deed} (fits : 2 ^ k < Word.capacity) (divides : threads ∣ 2 ^ k)
    (history : History (routine.machine order threads) (routine.firstState threads (2 ^ k) kind segments)
      past s) (inside : w < threads) :
    past.count ⟨w, .meet⟩ + (s.outline.code w).count .meet = 1 + stageCount (2 ^ k) :=
  count_meet_of_timetables (fun _ inside => timetable_code fits inside)
    (lockstep_outline fits divides).staged.orderly.helps history inside

end Blocking

/-- However the workers' steps interleave, a blocking sort goes through the stages as the segmented sort of
one worker does.

Whenever a worker releases a meeting, all workers have called the barrier equally often, once for the local
sorts and once for each of `r` stages, and the list is what the segmented sort holds after its local sorts
and `r` stages.  No two workers ever come to tasks of the same segment at a time.  When all workers are
done, the list is what the segmented sort leaves. -/
theorem blocking_refines_segmented (order : ElementOrder α) (kind : BarrierKind) {threads size : Nat}
    {data : List α}
    (positive : 0 < size) (short : data.length < 2 ^ 63) (power : (data.length / size).isPowerOfTwo)
    (divides : threads ∣ data.length / size) :
    ∃ start sorted,
      Blocking.routine.setUp threads size kind (.start (data.length / size)) data = .ok start ∧
      Sequential.segmented order size data = .ok sorted ∧
      ∀ past s, History (Blocking.routine.machine order threads) start past s →
        (∀ w < threads, ∀ snapshot rest next, s.outline.code w = .barrier (.releasing snapshot) :: rest →
          (Blocking.routine.machine order threads).step w s = .progress next →
          ∃ r ≤ stageCount (data.length / size), (∀ u < threads, past.count ⟨u, .meet⟩ = 1 + r) ∧
            Sequential.segmentedThrough order size r data = .ok next.store.segments.toList) ∧
        (∀ w < threads, ∀ v < threads, ∀ task rest other rest', s.outline.code w = .perform task :: rest →
          s.outline.code v = .perform other :: rest' → ∀ i ∈ task.touched, i ∈ other.touched → w = v) ∧
        ((Blocking.routine.machine order threads).system.allFinished s = true →
          s.store.segments.toList = sorted) := by
  obtain ⟨k, count⟩ := power
  have suits : Suits size k data := ⟨positive, short, count⟩
  rw [count] at divides
  obtain ⟨segments, ready, holds, -⟩ := Routine.exists_setUp Blocking.routine kind suits divides
  obtain ⟨t, sequential, holds', -⟩ := Sequential.exists_segmented suits order
  refine ⟨_, _, ready, sequential, fun past s history => ?_⟩
  have execution := history.execution
  obtain ⟨released, lockstep⟩ := Blocking.exists_lockstep suits.small divides execution
  rw [count]
  refine ⟨?_, ?_, fun finished => ?_⟩
  · intro w inside snapshot rest next code moved
    have calls : ∀ u < threads, past.count ⟨u, .meet⟩ = 1 + released := by
      intro u inside'
      have left := lockstep.count_meet_eq inside code inside'
      have all := Blocking.count_meet suits.small divides history inside'
      omega
    have within : released ≤ stageCount (2 ^ k) := by
      have left := lockstep.count_meet_eq inside code inside
      omega
    have kept : next.store.segments = s.store.segments := by
      obtain ⟨instruction, ⟨_, _, _, code', -, -⟩, touches, -⟩ := Machine.move_of_progress (n := 0) moved
      obtain ⟨rfl, -⟩ := List.cons.inj (code.symm.trans code')
      exact touches
    refine ⟨released, within, calls, ?_⟩
    rw [kept]
    exact Blocking.segmentedThrough_of_releasing suits holds execution lockstep inside code within
  · intro w inside v inside' task rest other rest' code code' i touches touches'
    exact lockstep.eq_of_code suits.small Function.injective_id inside inside' code code' touches touches'
  · have done := Machine.allFinished_iff.1 finished
    have final := execution.final suits lockstep.staged.orderly holds done
    exact final.toList_eq.trans holds'.toList_eq.symm

/-- One of two workers is about to release the meeting that ends the first stage of four segments. -/
theorem blocking_refines_segmented_first_stage :
    0 < 1 ∧ [3, 1, 2, 1].length < 2 ^ 63 ∧ (4 / 1 : Nat).isPowerOfTwo ∧ 2 ∣ 4 / 1 ∧
    ∃ start, Blocking.routine.setUp 2 1 .stepCounter (.start 4) [3, 1, 2, 1] = .ok start ∧
    ∃ past s next rest,
      History (Blocking.routine.machine (.ofCmp (compare : Nat → Nat → Ordering)) 2) start past s ∧
      s.outline.code 0 = .barrier (.releasing 1) :: rest ∧
      (Blocking.routine.machine (.ofCmp (compare : Nat → Nat → Ordering)) 2).step 0 s = .progress next ∧
      Sequential.segmentedThrough (.ofCmp (compare : Nat → Nat → Ordering)) 1 1 [3, 1, 2, 1] =
        .ok next.store.segments.toList := by
  obtain ⟨start, sorted, ready, -, refines⟩ := blocking_refines_segmented
    (.ofCmp (compare : Nat → Nat → Ordering)) .stepCounter (show 0 < 1 by decide)
    (show [3, 1, 2, 1].length < 2 ^ 63 by decide)
    (show ([3, 1, 2, 1].length / 1).isPowerOfTwo from ⟨2, by decide⟩)
    (show 2 ∣ [3, 1, 2, 1].length / 1 by decide)
  have first : History (Blocking.routine.machine (.ofCmp (compare : Nat → Nat → Ordering)) 2) start []
    start := .start
  have concrete := Except.ok.inj ready
  subst concrete
  have history := first.follow (List.replicate 12 0 ++ List.replicate 12 1 ++ List.replicate 5 0)
    (by decide)
  generalize run : Machine.follow .. = reached at history
  have head : (reached.2.outline.code 0).head? = some (.barrier (.releasing 1)) := by
    rw [← run]
    decide +kernel
  have twice : reached.1.count ⟨0, .meet⟩ = 1 + 1 := by
    rw [← run]
    decide +kernel
  have more : (Machine.follow (Blocking.routine.machine (.ofCmp compare) 2) [0] reached.1 reached.2).1 ≠
      reached.1 := by
    rw [← run]
    decide +kernel
  obtain ⟨rest, code⟩ := List.head?_eq_some_iff.1 head
  have moved := Machine.step_of_follow more
  obtain ⟨r, -, calls, halfway⟩ := (refines _ _ history).1 0 (by decide) 1 _ _ code moved
  obtain rfl : 1 = r := Nat.add_left_cancel (twice.symm.trans (calls 0 (by decide)))
  exact ⟨by decide, by decide, ⟨2, by decide⟩, by decide, _, ready, _, _, _, _, history, code, moved,
    halfway⟩

end SortNetwork.Parallel
