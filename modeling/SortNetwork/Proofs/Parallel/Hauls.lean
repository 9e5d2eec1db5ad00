import Mathlib
import SortNetwork.Proofs.Network.Halves
import SortNetwork.Proofs.Parallel.Blocking
import SortNetwork.Proofs.Parallel.Drains
import SortNetwork.Proofs.Parallel.LockFree
import SortNetwork.Proofs.Parallel.Stealing
import SortNetwork.Proofs.Parallel.WaitFree

/-!
# SortNetwork.Proofs.Parallel.Hauls

A word counts what a worker takes in one drain.

Where workers meet, everything they take in a drain is of one stage, and the tasks of a stage touch different
segments; so there are no more of them than segments (`Stealing.length_haul_le`).  Where they do not meet, a
drain of the own queue takes tasks of one stage as well, but the queue of another worker may be filled again
and again with tasks of later stages.  A drain of it takes no more than the whole share of its owner, which is
a word because the counts of the segments fill the memory long before (`StageCounts.Held`,
`length_shareTasks_lt`).
-/

namespace SortNetwork

/-- The counts fit into memory, of which nothing takes `2 ^ 63` bytes or more: each count has a line of the cache, of
128 bytes, to itself.  Counts that do not fit cannot be made, and no worker comes to use them. -/
def StageCounts.Held (size : Nat) : Prop := 128 * size < 2 ^ 63

/-- Tasks of one stage touch different segments, so there are no more of them than segments. -/
theorem length_le_of_stageNumber {m r : Nat} {xs : List SegmentTask} (fits : 2 ^ m < Word.capacity)
    (nodup : xs.Nodup) (isTask : ∀ task ∈ xs, task ∈ tasks (2 ^ m))
    (same : ∀ task ∈ xs, task.stageNumber (2 ^ m) = r) : xs.length ≤ 2 ^ m := by
  let first : SegmentTask → Nat := fun task => task.touched.headD 0
  have touches : ∀ task : SegmentTask, first task ∈ task.touched := by
    intro task
    cases task <;> exact List.mem_cons_self
  have distinct : (xs.map first).Nodup := by
    refine (List.nodup_map_iff_inj_on nodup).2 fun task member other member' equal => ?_
    refine task_unique (isTask task member) (touches task) (isTask other member') ?_ ?_
    · rw [equal]
      exact touches other
    · rw [same task member, same other member']
  have inside : xs.map first ⊆ List.range (2 ^ m) := by
    intro i member
    obtain ⟨task, isOne, rfl⟩ := List.mem_map.1 member
    exact List.mem_range.2 (lt_of_mem_touched fits (isTask task isOne) (touches task))
  have few := (List.subperm_of_subset distinct inside).length_le
  rwa [List.length_map, List.length_range] at few

namespace Parallel

variable {n threads w m : Nat}

/-! ## the size of a share -/

/-- A share has no more pairs in a stage than segments. -/
theorem length_pairs_shareOf_le (stage : Stage) :
    ((shareOf threads n w).pairs stage).length ≤ n / threads := by
  have few := List.length_filterMap_le stage.pair? (shareOf threads n w).segments
  rw [segments_shareOf, List.length_range'] at few
  rwa [Partition.pairs, Stage.pairsAmong, segments_shareOf]

/-- A share that consists of whole blocks of a stage has half as many pairs as segments. -/
theorem two_mul_length_pairs_shareOf {x y a : Nat} (below : y < a) (each : n / threads = 2 ^ a) :
    2 * ((shareOf threads n w).pairs ⟨2 ^ x, 2 ^ y⟩).length = n / threads := by
  have whole : n / threads = 2 ^ (a - (y + 1)) * (2 * 2 ^ y) := by
    rw [each, ← Nat.pow_succ', ← Nat.pow_add]
    congr 1
    omega
  rw [Partition.pairs, segments_shareOf, whole, ← Nat.mul_assoc w, Stage.length_pairsAmong_blocks]
  ring

theorem length_shareTasks (stages : List Stage) :
    (shareTasks (shareOf threads n w) stages).length =
      n / threads + (stages.flatMap (shareOf threads n w).pairs).length := by
  rw [shareTasks, ← List.map_flatMap, List.length_append, List.length_map, List.length_map, segments_shareOf,
    List.length_range']

/-- Two workers have all stages within their shares but one. -/
theorem length_shareTasks_two_le {a : Nat} (fits : 2 ^ (a + 2) < Word.capacity) :
    (shareTasks (shareOf 2 (2 ^ (a + 2)) w) (stages (2 ^ (a + 2)))).length ≤
      2 ^ a * (3 + stageCount (2 ^ (a + 2))) := by
  have half : 2 ^ (a + 2) / 2 = 2 ^ (a + 1) := Nat.div_eq_of_eq_mul_left Nat.two_pos (Nat.pow_succ ..)
  have last : 2 ^ (a + 1) = 2 * 2 ^ a := Nat.pow_succ'
  have each : ∀ stage ∈ stages (2 ^ (a + 2)), ((shareOf 2 (2 ^ (a + 2)) w).pairs stage).length ≤
      if stage = ⟨2 ^ (a + 2), 2 ^ (a + 1)⟩ then 2 * 2 ^ a else 2 ^ a := by
    intro stage listed
    obtain ⟨x, y, below, high, rfl⟩ := (mem_stages_iff fits).1 listed
    rw [Nat.log2_two_pow] at high
    split
    · rw [← last, ← half]
      exact length_pairs_shareOf_le _
    · next other =>
      have within : y < a + 1 := by
        by_contra far
        obtain ⟨rfl, rfl⟩ : x = a + 2 ∧ y = a + 1 := by omega
        exact other rfl
      have few := two_mul_length_pairs_shareOf (w := w) (x := x) within half
      omega
  have pairs := length_flatMap_le (nodup_stages fits) each
  rw [length_stages fits] at pairs
  rw [length_shareTasks, half]
  calc _ ≤ 2 ^ (a + 1) + (stageCount (2 ^ (a + 2)) + 1) * 2 ^ a := Nat.add_le_add_left pairs _
    _ = 2 ^ a * (3 + stageCount (2 ^ (a + 2))) := by ring

theorem length_shareTasks_le (fits : n < Word.capacity) :
    (shareTasks (shareOf threads n w) (stages n)).length ≤ n / threads * (1 + stageCount n) := by
  have pairs : ((stages n).flatMap (shareOf threads n w).pairs).length ≤ stageCount n * (n / threads) := by
    rw [← length_stages fits, List.length_flatMap]
    refine (List.sum_le_card_nsmul _ (n / threads) fun length member => ?_).trans_eq (by simp)
    obtain ⟨stage, -, rfl⟩ := List.mem_map.1 member
    exact length_pairs_shareOf_le stage
  rw [length_shareTasks]
  linarith

/-- If the counts of all segments fit into memory, a word counts the tasks of each of several workers. -/
theorem length_shareTasks_lt (fits : 2 ^ m < Word.capacity) (held : StageCounts.Held (2 ^ m))
    (divides : threads ∣ 2 ^ m) (several : 2 ≤ threads) :
    (shareTasks (shareOf threads (2 ^ m) w) (stages (2 ^ m))).length < Word.capacity := by
  obtain ⟨q, within, rfl⟩ := (Nat.dvd_prime_pow Nat.prime_two).1 divides
  have small : m ≤ 55 := by
    by_contra large
    have := Nat.pow_le_pow_right (show 0 < 2 by decide) (show 56 ≤ m by omega)
    unfold StageCounts.Held at held
    omega
  have stages_le : stageCount (2 ^ m) ≤ 1540 := stageCount_le (m := 55) (by decide) small
  have exponent : q ≠ 0 := by
    rintro rfl
    simp at several
  by_cases dealt : m - q ≤ 53
  · have each : 2 ^ m / 2 ^ q ≤ 2 ^ 53 := by
      rw [Nat.pow_div within Nat.two_pos]
      exact Nat.pow_le_pow_right Nat.two_pos dealt
    calc _ ≤ 2 ^ m / 2 ^ q * (1 + stageCount (2 ^ m)) := length_shareTasks_le fits
      _ ≤ 2 ^ 53 * (1 + 1540) := Nat.mul_le_mul each (by omega)
      _ < Word.capacity := by decide
  · obtain ⟨rfl, rfl⟩ : m = 53 + 2 ∧ q = 1 := by omega
    calc _ ≤ 2 ^ 53 * (3 + stageCount (2 ^ (53 + 2))) := length_shareTasks_two_le fits
      _ < Word.capacity := by decide

/-! ## strategies -/

variable {α : Type} {order : ElementOrder α} {kind : BarrierKind} {segments : Segments α}
  {hauls : Nat → List SegmentTask} {s : State α} {log : List SegmentTask}

section Routine

variable {routine : Routine}

/-- A queue holds only what its owner is told to queue. -/
theorem queue_subset_of_code {share : Nat → List SegmentTask}
    (helps : (routine.outline threads n kind).Helps threads)
    (pushes : ∀ w < threads, ∀ task,
      .push task ∈ routine.code (shareOf threads n w) (peersOf threads w) (stages n) → task ∈ share w)
    (execution : Execution (routine.machine order threads) (routine.firstState threads n kind segments) log s)
    (w : Nat) : s.outline.queue w ⊆ share w := by
  have outline : (routine.firstState threads n kind segments).outline = routine.outline threads n kind :=
    Routine.outline_firstState ..
  rw [← outline] at helps
  refine execution.queue_subset helps (by simp [outline, Routine.outline]) ?_ w
  rw [outline]
  exact Routine.forall_code (P := fun w code => ∀ task, .push task ∈ code → task ∈ share w) (by simp) pushes

/-- Where nothing is queued, drains take nothing. -/
theorem Hauling.eq_nil (steady : Steady (routine.machine order threads)
      (routine.firstState threads n kind segments) n) (fits : n < Word.capacity)
    (unqueued : ∀ share peers stages task, .push task ∉ routine.code share peers stages)
    (hauling : Hauling (routine.machine order threads) (routine.firstState threads n kind segments) hauls s)
    (inside : w < threads) : hauls w = [] := by
  have helps := (steady.orderly .start).helps
  rw [Routine.outline_firstState] at helps
  let nothing : Nat → List SegmentTask := fun _ => []
  have takes : Takes (routine.machine order threads) (routine.firstState threads n kind segments)
      (fun _ _ => 0) fun _ _ _ _ => False :=
    { queued := fun {_ s} execution _ _ owner _ task member => by
        have none_queued : s.outline.queue owner ⊆ nothing owner :=
          queue_subset_of_code helps (fun w _ task push => absurd push (unqueued _ _ _ task)) execution owner
        cases none_queued member
      moves := fun _ _ _ => rfl
      idles := fun _ _ _ => rfl }
  by_contra holds
  obtain ⟨-, owner, -, all⟩ := hauling.exists_owner steady fits takes inside holds
  obtain ⟨task, member⟩ := List.exists_mem_of_ne_nil _ holds
  exact (all task member).2

end Routine

/-- Workers that meet and take no tasks from each other drain no queue that holds any. -/
theorem Blocking.haul_eq_nil (fits : 2 ^ m < Word.capacity) (divides : threads ∣ 2 ^ m)
    (hauling : Hauling (Blocking.routine.machine order threads)
      (Blocking.routine.firstState threads (2 ^ m) kind segments) hauls s) (inside : w < threads) :
    hauls w = [] :=
  hauling.eq_nil (steady fits divides) fits
    (by simp [routine, code, stageCode, Instruction.meet]) inside

/-- Neither do workers that count and take no tasks from each other. -/
theorem LockFree.haul_eq_nil (fits : 2 ^ m < Word.capacity) (divides : threads ∣ 2 ^ m)
    (hauling : Hauling (LockFree.routine.machine order threads)
      (LockFree.routine.firstState threads (2 ^ m) kind segments) hauls s) (inside : w < threads) :
    hauls w = [] :=
  hauling.eq_nil (steady fits divides) fits
    (by simp [routine, code, stageCode, sortCode, pairCode]) inside

namespace Stealing

/-- A worker in a drain is through with all meetings that are released, or with all but the last; so whatever it
takes belongs to one stage. -/
theorem takes (fits : 2 ^ m < Word.capacity) (divides : threads ∣ 2 ^ m) :
    Takes (routine.machine order threads) (routine.firstState threads (2 ^ m) kind segments)
      (Outline.met (1 + 2 * stageCount (2 ^ m))) fun _ _ met task =>
        2 * task.stageNumber (2 ^ m) = met ∨ 2 * task.stageNumber (2 ^ m) = met + 1 where
  queued execution w inside owner within task member := by
    obtain ⟨released, staged⟩ := exists_staged fits divides execution
    have now := staged.phase_of_queued within member
    have behind := staged.gathered.met_le inside
    have ahead := staged.gathered.le_met inside
    omega
  moves := by
    rintro o o' w instruction ⟨rest, more, effect, code, fires, rfl⟩ v opens
    rw [Outline.Gathered.met_update]
    by_cases same : v = w
    · subst same
      have weightless : meetings instruction = 0 := by
        have := opens rfl
        cases instruction <;> first | rfl | cases this
      have incidental := fires.incidental.resolve_left fun ⟨call, _, isCall, _⟩ => by
        subst isCall
        cases opens rfl
      rw [Function.update_self, total_append, meetings_of_incidental incidental, Outline.met, code, total_cons,
        weightless]
    · rw [Function.update_of_ne same]
  idles := by
    rintro o o' w helps ⟨_, _, _, _, rfl⟩ v
    rw [Outline.Gathered.met_update, total_append, meetings_of_incidental helps.incidental, Nat.zero_add]
    exact congrFun (Function.update_eq_self w _) v

/-- Workers that take each other's tasks and meet take no more tasks in a drain than there are segments. -/
theorem length_haul_le (fits : 2 ^ m < Word.capacity) (divides : threads ∣ 2 ^ m)
    (hauling : Hauling (routine.machine order threads) (routine.firstState threads (2 ^ m) kind segments)
      hauls s) (inside : w < threads) : (hauls w).length ≤ 2 ^ m := by
  by_cases none_taken : hauls w = []
  · rw [none_taken]
    exact Nat.zero_le _
  · obtain ⟨nodup, _, -, all⟩ :=
      hauling.exists_owner (steady fits divides) fits (takes fits divides) inside none_taken
    refine length_le_of_stageNumber fits nodup (fun task member => (all task member).1)
      (r := (s.outline.met (1 + 2 * stageCount (2 ^ m)) w + 1) / 2) fun task member => ?_
    have := (all task member).2
    omega

end Stealing

namespace WaitFree

/-- A drain of the own queue takes tasks of the stage that the worker is in, and any drain takes tasks of the
owner's share. -/
theorem takes (fits : 2 ^ m < Word.capacity) (divides : threads ∣ 2 ^ m) :
    Takes (routine.machine order threads) (routine.firstState threads (2 ^ m) kind segments)
      Outline.stages fun worker owner stage task =>
        (owner = worker → task.stageNumber (2 ^ m) = stage) ∧
          task ∈ shareTasks (shareOf threads (2 ^ m) owner) (stages (2 ^ m)) where
  queued {log s} execution w inside owner within task member := by
    have outline : (routine.firstState threads (2 ^ m) kind segments).outline =
        routine.outline threads (2 ^ m) kind := Routine.outline_firstState ..
    have first := counted_outline fits divides kind
    have counted : s.outline.Counted (2 ^ m) threads log := execution.counted rfl fits (outline ▸ first)
    have shares : ∀ v < threads, ∀ task, .push task ∈ routine.code (shareOf threads (2 ^ m) v)
        (peersOf threads v) (stages (2 ^ m)) →
        task ∈ shareTasks (shareOf threads (2 ^ m) v) (stages (2 ^ m)) := by
      intro v _ task push
      rw [← planned_code _ (peersOf threads v)]
      exact mem_planned_iff.2 (.inr push)
    exact ⟨fun own => own ▸ (counted.queued owner task member).1,
      queue_subset_of_code first.orderly.helps shares execution owner member⟩
  moves := by
    rintro o o' w instruction ⟨rest, more, effect, code, fires, rfl⟩ v opens
    cases fires with
    | nextStage =>
      have other : v ≠ w := by
        rintro rfl
        cases opens rfl
      exact Function.update_of_ne other ..
    | _ => rfl
  idles := by
    rintro o o' w helps ⟨_, _, _, _, rfl⟩ v
    rfl

/-- Workers that take the tasks of those behind: if the counts of the segments fit into memory, a word counts
what they take in a drain. -/
theorem length_haul_lt (fits : 2 ^ m < Word.capacity) (held : StageCounts.Held (2 ^ m))
    (divides : threads ∣ 2 ^ m)
    (hauling : Hauling (routine.machine order threads) (routine.firstState threads (2 ^ m) kind segments)
      hauls s) (inside : w < threads) : (hauls w).length < Word.capacity := by
  by_cases none_taken : hauls w = []
  · rw [none_taken]
    decide
  · obtain ⟨nodup, owner, within, all⟩ :=
      hauling.exists_owner (steady fits divides) fits (takes fits divides) inside none_taken
    by_cases own : owner = w
    · refine (length_le_of_stageNumber fits nodup (fun task member => (all task member).1)
        fun task member => (all task member).2.1 own).trans_lt fits
    · have several : 2 ≤ threads := by
        change w < threads at inside
        change owner < threads at within
        omega
      exact (List.subperm_of_subset nodup fun task member => (all task member).2.2).length_le.trans_lt
        (length_shareTasks_lt fits held divides several)

end WaitFree

end Parallel

end SortNetwork
