import Mathlib
import SortNetwork.Proofs.Parallel.Exclusion
import SortNetwork.Proofs.Parallel.Progress
import SortNetwork.Proofs.Parallel.SetUp

/-!
# SortNetwork.Proofs.Parallel.Plan

What the instructions of a worker that counts have to look like.

A worker's plan is good (`Plan`) if it is careful enough for a counted run to start from it, whatever the
counts may be by then.  Plans are built from the end: each lemma puts one more instruction, or one more
task, in front of a good plan.
-/

namespace SortNetwork.Parallel

/-- The instructions that are left to worker `w` in stage number `stage`, once it has waited for the
segments `awaited`. -/
structure Plan (n threads w : Nat) (stage : Nat) (awaited : List Nat) (code : List Instruction) :
    Prop where
  within : ∀ x ∈ code, x.Within n threads
  tidy : Tidy w code
  prompt : Prompt code
  clear : due code = []
  cautious : ∀ counts, Cautious n counts stage awaited code
  purposeful : Purposeful n stage code
  later : ∀ task ∈ planned code, stage ≤ task.stageNumber n
  paced : stage + total completions code = 1 + stageCount n

namespace Plan

variable {n threads w stage i owner : Nat} {awaited : List Nat} {code : List Instruction}
  {task : SegmentTask}

/-- Every segment is counted as often as it is touched. -/
theorem level (plan : Plan n threads w stage awaited code) (i : Nat) :
    total (touches i) code = total (advances i) code := by
  rw [plan.prompt.total_advances, plan.clear, List.count_nil, Nat.zero_add]

theorem nil : Plan n threads w (1 + stageCount n) [] [] where
  within := by simp
  tidy := trivial
  prompt := trivial
  clear := rfl
  cautious _ := trivial
  purposeful := trivial
  later := by simp
  paced := rfl

/-- Registering and looking into queues may come at any time. -/
theorem aside (plan : Plan n threads w stage awaited code) (x : Instruction)
    (neutral : x = .enter ∨ ∃ owner < threads, x = .drain owner ∨ x = .drainIfBehind owner) :
    Plan n threads w stage awaited (x :: code) := by
  rcases neutral with rfl | ⟨owner, inside, rfl | rfl⟩
  all_goals exact {
    within := List.forall_mem_cons.2 ⟨by first | exact inside | trivial, plan.within⟩
    tidy := ⟨by simp, plan.tidy⟩
    prompt := ⟨plan.clear, plan.prompt⟩
    clear := rfl
    cautious := plan.cautious
    purposeful := plan.purposeful
    later := plan.later
    paced := by simpa [completions] using plan.paced }

theorem nextStage (plan : Plan n threads w (stage + 1) [] code) :
    Plan n threads w stage [] (.nextStage :: code) where
  within := List.forall_mem_cons.2 ⟨trivial, plan.within⟩
  tidy := ⟨by simp, plan.tidy⟩
  prompt := ⟨plan.clear, plan.prompt⟩
  clear := rfl
  cautious := plan.cautious
  purposeful := plan.purposeful
  later task member := (Nat.le_succ _).trans (plan.later task member)
  paced := by
    rw [← plan.paced, total_cons, completions]
    omega

/-- A worker may wait for a segment if a task of the stage that is to come touches it. -/
theorem await (plan : Plan n threads w stage (i :: awaited) code) (inside : i < n)
    (purpose : ∃ task ∈ planned code, i ∈ task.touched ∧ task.stageNumber n = stage) :
    Plan n threads w stage awaited (.await i :: code) where
  within := List.forall_mem_cons.2 ⟨inside, plan.within⟩
  tidy := ⟨by simp, plan.tidy⟩
  prompt := ⟨plan.clear, plan.prompt⟩
  clear := rfl
  cautious := plan.cautious
  purposeful := ⟨plan.level, purpose, plan.later, plan.purposeful⟩
  later := plan.later
  paced := by simpa [completions] using plan.paced

theorem readyAfter {counts : Nat → Nat} (number : task.stageNumber n = stage)
    (ready : ∀ i ∈ task.touched, stage = 0 ∨ i ∈ awaited) : ReadyAfter n counts stage awaited task := by
  intro i touched
  rcases ready i touched with first | seen
  · exact .inl (by omega)
  · exact .inr ⟨number, seen⟩

/-- A worker may perform a task of its stage and count it, if it has waited for the segments. -/
theorem taskCode (plan : Plan n threads w stage [] code) (number : task.stageNumber n = stage)
    (inside : ∀ i ∈ task.touched, i < n) (ready : ∀ i ∈ task.touched, stage = 0 ∨ i ∈ awaited) :
    Plan n threads w stage awaited (taskCode true task ++ code) where
  within := by
    intro x member
    rcases List.mem_append.1 member with here | after
    · rcases List.mem_cons.1 here with rfl | counted
      · exact inside
      · obtain ⟨i, touched, rfl⟩ := List.mem_map.1 (by simpa using counted)
        exact inside i touched
    · exact plan.within x after
  tidy := plan.tidy.append fun x member => incidental_taskCode member
  prompt := by
    have counted : due (task.touched.map .advance ++ code) = task.touched ++ due code := due_append _
    rw [plan.clear, List.append_nil] at counted
    exact ⟨counted, plan.prompt.append _⟩
  clear := rfl
  cautious counts :=
    Cautious.taskCode ((plan.cautious counts).weaken (fun _ => le_refl _) (by simp))
      (readyAfter number ready)
  purposeful := plan.purposeful.append fun x member => incidental_taskCode member
  later other member := by
    rcases mem_planned_iff.1 member with member | member <;>
      rcases List.mem_append.1 member with here | after
    · rcases List.mem_cons.1 here with same | counted
      · cases same
        exact number.ge
      · simp at counted
    · exact plan.later other (mem_planned_iff.2 (.inl after))
    · simp [Parallel.taskCode] at here
    · exact plan.later other (mem_planned_iff.2 (.inr after))
  paced := by
    rw [total_append, total_completions_of_incidental fun x member => incidental_taskCode member,
      Nat.zero_add]
    exact plan.paced

/-- A worker may queue a task of its stage, if it has waited for the segments and drains its queue
afterwards. -/
theorem push (plan : Plan n threads w stage [] code) (drains : Drains w code)
    (number : task.stageNumber n = stage) (inside : ∀ i ∈ task.touched, i < n)
    (ready : ∀ i ∈ task.touched, stage = 0 ∨ i ∈ awaited) :
    Plan n threads w stage awaited (.push task :: code) where
  within := List.forall_mem_cons.2 ⟨inside, plan.within⟩
  tidy := ⟨fun _ _ => drains, plan.tidy⟩
  prompt := ⟨plan.clear, plan.prompt⟩
  clear := rfl
  cautious counts :=
    ⟨number, readyAfter number ready, (plan.cautious counts).weaken (fun _ => le_refl _) (by simp)⟩
  purposeful := plan.purposeful
  later other member := by
    rcases List.mem_cons.1 member with rfl | after
    · exact number.ge
    · exact plan.later other after
  paced := by simpa [completions] using plan.paced

end Plan

/-- A sort whose workers all have good plans starts as a counted run. -/
theorem counted_outline {routine : Routine} {n threads : Nat} {kind : BarrierKind} (divides : threads ∣ n)
    (plans : ∀ w < threads, Plan n threads w 0 []
      (routine.code (shareOf threads n w) (peersOf threads w) (stages n)))
    (looks : ∀ peers, ∀ x ∈ routine.between peers, ∃ owner ∈ peers,
      x = .drain owner ∨ x = .drainIfBehind owner)
    (given : ∀ share peers stages, planned (routine.code share peers stages) = shareTasks share stages) :
    (routine.outline threads n kind).Counted n threads [] := by
  constructor
  · exact Routine.orderly_outline divides (fun w inside => (plans w inside).within)
      (fun w inside => (plans w inside).tidy) looks given
  · intro i
    have level : ∀ w, total (advances i) ((routine.outline threads n kind).code w) =
        total (touches i) ((routine.outline threads n kind).code w) :=
      Routine.forall_code (P := fun _ code => total (advances i) code = total (touches i) code)
        (fun _ => rfl)
        fun w inside => ((plans w inside).level i).symm
    simp only [weight, level, visits_nil]
    rfl
  · exact Routine.forall_code (fun _ => trivial) fun w inside => (plans w inside).prompt
  · exact fun i => Nat.zero_le _
  · exact Routine.forall_code (P := fun _ code => Cautious n _ 0 [] code) (fun _ => trivial)
      fun w inside => (plans w inside).cautious _
  · exact Routine.forall_code (P := fun _ code => Purposeful n 0 code) (fun _ => trivial)
      fun w inside => (plans w inside).purposeful
  · intro w inside
    simp only [Routine.outline, if_pos inside]
    exact (plans w inside).paced
  · intro w task queued
    cases queued

/-! ## what is left when all workers are done -/

variable {α : Type} {routine : Routine} {order : ElementOrder α} {kind : BarrierKind}
  {threads size k : Nat}
  {data : List α} {segments : Segments α} {log : List SegmentTask} {s : State α}

theorem counts_eq_replicate {counts : StageCounts} {n value : Nat} (size : counts.size = n)
    (each : ∀ i < n, counts.counts[i]?.getD 0 = value) : counts.counts = Array.replicate n value := by
  rw [StageCounts.size] at size
  refine Array.ext (by simpa using size) fun i hi hj => ?_
  have := each i (by simpa using hj)
  simpa [Array.getElem?_eq_getElem hi] using this

theorem queues_eq_replicate (size : s.store.queues.size = threads)
    (each : ∀ w < threads, s.outline.queue w = []) : s.store.queues = Array.replicate threads .empty := by
  refine Array.ext (by simpa using size) fun w hw hw' => ?_
  have empty := each w (by simpa using hw')
  rw [State.queue_outline hw] at empty
  rw [Array.getElem_replicate]
  exact congrArg TaskQueue.mk empty

theorem steady_of_counted (counting : routine.counting = true) (fits : 2 ^ k < Word.capacity)
    (first : (routine.outline threads (2 ^ k) kind).Counted (2 ^ k) threads []) :
    Steady (routine.machine order threads) (routine.firstState threads (2 ^ k) kind segments)
      (2 ^ k) := by
  rw [← Routine.outline_firstState routine kind segments] at first
  exact {
    shaped := Routine.shaped_firstState routine order kind
    orderly := fun execution => (execution.counted counting fits first).orderly
    unblocked := fun execution => (execution.counted counting fits first).exists_unblocked fits }

theorem guarded_of_counted (counting : routine.counting = true) (fits : 2 ^ k < Word.capacity)
    (first : (routine.outline threads (2 ^ k) kind).Counted (2 ^ k) threads []) {past : List Deed}
    (history : History (routine.machine order threads)
      (routine.firstState threads (2 ^ k) kind segments) past s) :
    s.outline.Guarded (2 ^ k) threads past := by
  rw [← Routine.outline_firstState routine kind segments] at first
  exact history.guarded counting fits first

/-- Whatever order its steps come in, a counted sort leaves what the network leaves, with every task
performed once, nothing queued, and all counts at the number of stages. -/
theorem counted_final (counting : routine.counting = true) (suits : Suits size k data)
    (first : (routine.outline threads (2 ^ k) kind).Counted (2 ^ k) threads [])
    (holds : segments.Holds (2 ^ k) size (data.drop (2 ^ k * size)) (Segments.slice size data))
    (execution : Execution (routine.machine order threads)
      (routine.firstState threads (2 ^ k) kind segments) log s)
    (finished : (routine.machine order threads).system.allFinished s = true) :
    s.store.segments.Holds (2 ^ k) size (data.drop (2 ^ k * size)) (networkCells order size k data) ∧
      log.Perm (tasks (2 ^ k)) ∧
      s.store.queues = Array.replicate threads .empty ∧
      s.store.segmentCounts.counts = Array.replicate (2 ^ k) (1 + stageCount (2 ^ k)) ∧
      s.store.workerCounts.counts = Array.replicate threads (1 + stageCount (2 ^ k)) := by
  rw [← Routine.outline_firstState routine kind segments] at first
  have counted := execution.counted counting suits.small first
  have shaped := execution.shaped (Routine.shaped_firstState routine order kind)
  have done := Machine.allFinished_iff.1 finished
  refine ⟨execution.final suits counted.orderly holds done, counted.orderly.perm_tasks done, ?_, ?_, ?_⟩
  · exact queues_eq_replicate shaped.queues fun w inside => counted.orderly.queue_eq_nil (done w inside)
  · exact counts_eq_replicate shaped.segmentCounts
      fun i inside => counted.counts_eq suits.small done inside
  · exact counts_eq_replicate shaped.workerCounts fun w inside => counted.stages_eq inside (done w inside)

end SortNetwork.Parallel
