import Mathlib
import SortNetwork.Proofs.Parallel.Blocking
import SortNetwork.Proofs.Parallel.Looking
import SortNetwork.Proofs.Parallel.Stealing

/-!
# SortNetwork.Proofs.Parallel.Meetings

Workers that meet at a barrier never get stuck.

Two strategies keep their stages apart by meetings (`Meets`).  All workers of either have the same number of
calls to the barrier before them, pairs or no pairs, and of those that are not done one does not wait for
the marker to move (`Outline.Staged.exists_free`).  What a worker has to do ends with a call to the barrier,
so this one comes to a step that is more than a look into a queue (`Steady.exists_goesOn_of_staged`).
-/

namespace SortNetwork.Parallel

variable {α : Type} {n threads rounds w k : Nat} {order : ElementOrder α} {kind : BarrierKind}
  {routine : Routine} {segments : Segments α} {log : List SegmentTask} {s : State α}

/-- Of workers that meet, and do not end with a look, one goes on until all are done. -/
theorem Steady.exists_goesOn_of_staged {m : Machine α} {start : State α} {size released : Nat}
    {phase : Nat → Nat} {rest : List α} {cells : Nat → List α} (steady : Steady m start (2 ^ k))
    (fits : 2 ^ k * size < Word.capacity) (small : 2 ^ k < Word.capacity)
    (holds : start.store.segments.Holds (2 ^ k) size rest cells) (execution : Execution m start log s)
    (staged : s.outline.Staged n m.threads rounds phase released log)
    (concludes : ∀ w, Concludes (s.outline.code w)) (busy : ∃ w < m.threads, s.outline.code w ≠ []) :
    ∃ w < m.threads, m.GoesOn w s := by
  obtain ⟨w, inside, undone, free⟩ := staged.exists_free busy
  obtain ⟨looks, x, later, code, isLook, other⟩ := (concludes w).exists_split undone
  refine ⟨w, inside, steady.goesOn fits small holds execution inside code isLook other fun blocked => ?_⟩
  cases blocked with
  | @await id unready =>
    refine (staged.scheduled w inside).await_not_mem (i := id) ?_
    rw [code]
    exact List.mem_append_right _ List.mem_cons_self
  | polling unchanged =>
    refine free ?_
    rw [code, callOf_append fun y member => Instruction.incidental_of_looks (isLook y member), unchanged]
    rfl

namespace Blocking

/-- The last thing that a worker does is to meet the others. -/
theorem concludes_code (share : Partition) (stages : List Stage) : Concludes (code share stages) := by
  have finish : ∀ stage, Concludes (stageCode share stage) := fun stage => concludes_concat rfl
  have sorts : Concludes (.enter :: share.segments.map (.perform ∘ .sort) ++ [.meet]) := concludes_concat rfl
  rw [code, List.append_cons]
  exact sorts.append (concludes_flatMap finish stages)

end Blocking

namespace Stealing

/-- The last thing that a worker does is to meet the others. -/
theorem concludes_code (share : Partition) (stages : List Stage) : Concludes (code share stages) := by
  have finish : ∀ stage, Concludes (stageCode share stage) := by
    intro stage
    rw [stageCode, List.append_cons]
    exact concludes_concat rfl
  have sorts : Concludes (.enter :: share.segments.map (.push ∘ .sort) ++ [.drain share.worker] ++ [.meet]) :=
    concludes_concat rfl
  rw [code, List.append_cons, List.append_cons]
  exact sorts.append (concludes_flatMap finish stages)

end Stealing

/-- The strategies whose workers meet at a barrier, and how often each worker calls it. -/
inductive Meets (n : Nat) : Routine → (rounds : Nat) → Prop where
  | blocking : Meets n Blocking.routine (1 + stageCount n)
  | stealing : Meets n Stealing.routine (1 + 2 * stageCount n)

namespace Meets

theorem exists_timetables (meets : Meets (2 ^ k) routine rounds) (threads : Nat)
    (small : 2 ^ k < Word.capacity) :
    ∃ phase, ∀ w < threads, Timetable (2 ^ k) threads rounds w phase 0
      (routine.code (shareOf threads (2 ^ k) w) (peersOf threads w) (stages (2 ^ k))) := by
  cases meets with
  | blocking => exact ⟨_, fun _ inside => Blocking.timetable_code small inside⟩
  | stealing => exact ⟨_, fun _ inside => Stealing.timetable_code small inside⟩

theorem exists_staged (meets : Meets (2 ^ k) routine rounds) (small : 2 ^ k < Word.capacity)
    (divides : threads ∣ 2 ^ k)
    (execution : Execution (routine.machine order threads)
      (routine.firstState threads (2 ^ k) kind segments) log s) :
    ∃ phase released, s.outline.Staged (2 ^ k) threads rounds phase released log := by
  cases meets with
  | blocking =>
    obtain ⟨released, lockstep⟩ := Blocking.exists_lockstep small divides execution
    exact ⟨_, released, lockstep.staged⟩
  | stealing => exact ⟨_, Stealing.exists_staged small divides execution⟩

theorem steady (meets : Meets (2 ^ k) routine rounds) (small : 2 ^ k < Word.capacity)
    (divides : threads ∣ 2 ^ k) :
    Steady (routine.machine order threads) (routine.firstState threads (2 ^ k) kind segments) (2 ^ k) := by
  cases meets with
  | blocking => exact Blocking.steady small divides
  | stealing => exact Stealing.steady small divides

theorem concludes_outline (meets : Meets n routine rounds) :
    ∀ w, Concludes ((routine.outline threads n kind).code w) := by
  refine Routine.forall_code (P := fun _ code => Concludes code) (fun _ => concludes_nil) fun w _ => ?_
  cases meets with
  | blocking => exact Blocking.concludes_code _ _
  | stealing => exact Stealing.concludes_code _ _

end Meets

/-- However the workers' steps interleave, a sort whose workers meet at a barrier never gets stuck.

Until all workers are done, one of them goes on: it comes to a step that is neither a poll in vain nor a look
in vain into a queue.  Every worker calls the barrier `rounds` times: the calls that it has made and those
that it has left to make are always as many, so that a worker that is done has made them all. -/
theorem meetings_unstuck (order : ElementOrder α) (kind : BarrierKind) {threads size rounds : Nat}
    {routine : Routine} {data : List α} {start s : State α} {past : List Deed}
    (meets : Meets (data.length / size) routine rounds)
    (word : data.length < 2 ^ 64) (power : (data.length / size).isPowerOfTwo)
    (divides : threads ∣ data.length / size)
    (ready : routine.setUp threads size kind (.start (data.length / size)) data = .ok start)
    (history : History (routine.machine order threads) start past s) :
    ((routine.machine order threads).system.allFinished s = false →
      ∃ w < threads, (routine.machine order threads).GoesOn w s) ∧
    ∀ w < threads, past.count ⟨w, .meet⟩ + (s.outline.code w).count .meet = rounds := by
  obtain ⟨k, segments, count, divides, small, fits, rfl, holds⟩ :=
    Routine.exists_firstState word power divides ready
  rw [count] at meets
  have execution := history.execution
  have steady : Steady (routine.machine order threads)
      (routine.firstState threads (2 ^ k) kind segments) (2 ^ k) := meets.steady small divides
  have outline : (routine.firstState threads (2 ^ k) kind segments).outline =
      routine.outline threads (2 ^ k) kind := Routine.outline_firstState ..
  constructor
  · intro unfinished
    obtain ⟨phase, released, staged⟩ := meets.exists_staged small divides execution
    have concludes := execution.concludes (outline ▸ meets.concludes_outline)
    exact steady.exists_goesOn_of_staged fits small holds execution staged concludes
      (Machine.exists_busy unfinished)
  · obtain ⟨phase, tables⟩ := meets.exists_timetables threads small
    have helps : (routine.outline threads (2 ^ k) kind).Helps threads :=
      outline ▸ (steady.orderly .start).helps
    exact fun w inside => count_meet_of_timetables tables helps history inside

/-- One of two workers polls in vain, the other is about to sort its first segment. -/
theorem meetings_unstuck_one_polling :
    Meets (4 / 1) Stealing.routine 7 ∧ [3, 1, 2, 1].length < 2 ^ 64 ∧ (4 / 1 : Nat).isPowerOfTwo ∧ 2 ∣ 4 / 1 ∧
    ∃ start, Stealing.routine.setUp 2 1 .senseReversal (.start 4) [3, 1, 2, 1] = .ok start ∧
    ∃ past s, History (Stealing.routine.machine (.ofCmp (compare : Nat → Nat → Ordering)) 2) start past s ∧
      (Stealing.routine.machine (.ofCmp (compare : Nat → Nat → Ordering)) 2).system.allFinished s = false ∧
      (s.outline.code 0).head? = some (.barrier (.polling 0)) ∧ s.outline.barrier.marker = 0 ∧
      (s.outline.code 1).head? = some (.perform (.sort 2)) ∧
      (∃ w < 2, (Stealing.routine.machine (.ofCmp (compare : Nat → Nat → Ordering)) 2).GoesOn w s) ∧
      ∀ w < 2, past.count ⟨w, .meet⟩ + (s.outline.code w).count .meet = 7 := by
  have unstuck := meetings_unstuck (.ofCmp (compare : Nat → Nat → Ordering)) .senseReversal
    (show Meets ([3, 1, 2, 1].length / 1) Stealing.routine 7 from .stealing)
    (show [3, 1, 2, 1].length < 2 ^ 64 by decide)
    (show ([3, 1, 2, 1].length / 1).isPowerOfTwo from ⟨2, by decide⟩)
    (show 2 ∣ [3, 1, 2, 1].length / 1 by decide) rfl
    (.follow .start (List.replicate 14 0 ++ List.replicate 4 1) (by decide))
  exact ⟨.stealing, by decide, ⟨2, by decide⟩, by decide, _, rfl, _, _, .follow .start _ (by decide),
    by decide +kernel, by decide +kernel, by decide +kernel, by decide +kernel,
    unstuck.1 (by decide +kernel), unstuck.2⟩

end SortNetwork.Parallel
