import Mathlib
import SortNetwork.SegmentTask
import SortNetwork.Proofs.Network.Cells

/-!
# SortNetwork.Proofs.Tasks.Stages

The tasks of a sort, and the stage that each belongs to.

The local sorts belong to stage number zero, and the merges of the network to numbers one, two, and so on.
Every segment is touched by one task of each number (`exists_task`, `task_unique`), so the numbers order
the tasks of a segment.
-/

namespace SortNetwork

/-- All tasks of a sort of `n` segments, in the order in which one worker performs them. -/
def tasks (n : Nat) : List SegmentTask := (List.range n).map .sort ++ (schedule n).map .merge

/-- The merges of the first `r` stages. -/
def scheduleThrough (n r : Nat) : List Pair := ((stages n).take r).flatMap fun stage => stage.pairs n

/-- The local sorts and the merges of the first `r` stages, in the order in which one worker performs them. -/
def tasksThrough (n r : Nat) : List SegmentTask :=
  (List.range n).map .sort ++ (scheduleThrough n r).map .merge

/-- The number of the stage that a task belongs to: zero for a local sort, and one for the first stage of
the network. -/
def SegmentTask.stageNumber (n : Nat) : SegmentTask → Nat
  | .sort _ => 0
  | .merge pair => (stages n).idxOf pair.stage + 1

variable {n m i : Nat} {task other : SegmentTask}

namespace SegmentTask

@[simp] theorem stageNumber_sort (id : Nat) : (sort id).stageNumber n = 0 := rfl

@[simp] theorem mem_touched_sort {id : Nat} : i ∈ (sort id).touched ↔ i = id := List.mem_singleton

@[simp] theorem mem_touched_merge {pair : Pair} :
    i ∈ (merge pair).touched ↔ i = pair.lower ∨ i = pair.upper := by
  simp [touched]

end SegmentTask

theorem mem_schedule_iff {pair : Pair} :
    pair ∈ schedule n ↔ pair.stage ∈ stages n ∧ pair ∈ pair.stage.pairs n := by
  simp only [schedule, List.mem_flatMap]
  constructor
  · rintro ⟨stage, listed, member⟩
    obtain rfl : pair.stage = stage := (Stage.mem_pairsAmong_iff.1 member).2.1
    exact ⟨listed, member⟩
  · rintro ⟨listed, member⟩
    exact ⟨_, listed, member⟩

theorem sort_mem_tasks_iff {id : Nat} : SegmentTask.sort id ∈ tasks n ↔ id < n := by
  simp [tasks]

theorem merge_mem_tasks_iff {pair : Pair} :
    SegmentTask.merge pair ∈ tasks n ↔ pair.stage ∈ stages n ∧ pair ∈ pair.stage.pairs n := by
  rw [← mem_schedule_iff]
  simp [tasks]

/-- The tasks of a sort come in the order of their stages. -/
theorem pairwise_stageNumber_tasks (fits : n < Word.capacity) :
    (tasks n).Pairwise fun task other => task.stageNumber n ≤ other.stageNumber n := by
  rw [tasks, List.pairwise_append]
  refine ⟨List.pairwise_of_forall_mem_list ?_, ?_, ?_⟩
  · intro a ha b _
    obtain ⟨_, _, rfl⟩ := List.mem_map.1 ha
    exact Nat.zero_le _
  · rw [List.pairwise_map, schedule, List.pairwise_flatMap]
    constructor
    · intro stage _
      apply List.pairwise_of_forall_mem_list
      intro a ha b hb
      simp only [SegmentTask.stageNumber, (Stage.mem_pairsAmong_iff.1 ha).2.1,
        (Stage.mem_pairsAmong_iff.1 hb).2.1, le_refl]
    · rw [List.pairwise_iff_getElem]
      intro k l hk hl before a ha b hb
      simp only [SegmentTask.stageNumber, (Stage.mem_pairsAmong_iff.1 ha).2.1,
        (Stage.mem_pairsAmong_iff.1 hb).2.1, (nodup_stages fits).idxOf_getElem]
      omega
  · intro a ha b _
    obtain ⟨_, _, rfl⟩ := List.mem_map.1 ha
    exact Nat.zero_le _

/-- No task occurs twice. -/
theorem nodup_tasks (fits : n < Word.capacity) : (tasks n).Nodup := by
  rw [tasks, List.nodup_append]
  refine ⟨?_, ?_, ?_⟩
  · exact List.nodup_range.map fun a b same => by simpa using same
  · refine List.Nodup.map (fun a b same => by simpa using same) ?_
    rw [schedule, List.nodup_flatMap]
    constructor
    · exact fun stage _ => Stage.nodup_pairs
    · refine (nodup_stages fits).imp ?_
      intro stage other distinct pair ha hb
      exact distinct ((Stage.mem_pairsAmong_iff.1 ha).2.1.symm.trans (Stage.mem_pairsAmong_iff.1 hb).2.1)
  · intro a ha b hb
    obtain ⟨_, _, rfl⟩ := List.mem_map.1 ha
    obtain ⟨_, _, rfl⟩ := List.mem_map.1 hb
    simp

/-- The stage that a merge belongs to stands at the place of its number. -/
theorem getElem?_stages_of_merge {pair : Pair} (member : SegmentTask.merge pair ∈ tasks n) :
    ∃ r, (SegmentTask.merge pair).stageNumber n = r + 1 ∧ (stages n)[r]? = some pair.stage := by
  have listed := (merge_mem_tasks_iff.1 member).1
  refine ⟨_, rfl, ?_⟩
  rw [List.getElem?_eq_getElem (List.idxOf_lt_length_of_mem listed), List.getElem_idxOf]

theorem stageNumber_le (fits : n < Word.capacity) (member : task ∈ tasks n) :
    task.stageNumber n ≤ stageCount n := by
  cases task with
  | sort id => exact Nat.zero_le _
  | merge pair =>
    obtain ⟨r, number, place⟩ := getElem?_stages_of_merge member
    have := (List.getElem?_eq_some_iff.1 place).1
    rw [length_stages fits] at this
    omega

/-- The pair of a merge is the one at each of its segments. -/
theorem pair_eq_of_mem_touched {pair : Pair} (member : SegmentTask.merge pair ∈ tasks n)
    (touches : i ∈ (SegmentTask.merge pair).touched) : pair = pair.stage.pairAt i :=
  Stage.eq_pairAt_of_mem_touching (merge_mem_tasks_iff.1 member).2
    (SegmentTask.mem_touched_merge.1 touches)

/-- The two segments of a merge differ. -/
theorem lower_lt_upper_of_mem_tasks {pair : Pair} (member : SegmentTask.merge pair ∈ tasks n) :
    pair.lower < pair.upper :=
  (Stage.mem_pairs_iff.1 (merge_mem_tasks_iff.1 member).2).2.1

theorem nodup_touched (member : task ∈ tasks n) : task.touched.Nodup := by
  cases task with
  | sort id => exact List.nodup_singleton id
  | merge pair => simpa [SegmentTask.touched] using (lower_lt_upper_of_mem_tasks member).ne

/-- Tasks touch segments of the network only. -/
theorem lt_of_mem_touched (fits : 2 ^ m < Word.capacity) (member : task ∈ tasks (2 ^ m))
    (touches : i ∈ task.touched) : i < 2 ^ m := by
  cases task with
  | sort id =>
    rw [SegmentTask.mem_touched_sort.1 touches]
    exact sort_mem_tasks_iff.1 member
  | merge pair =>
    obtain ⟨listed, inside⟩ := merge_mem_tasks_iff.1 member
    obtain ⟨low, below, same⟩ := Stage.mem_pairs_iff.1 inside
    have high := Stage.upper_pairAt_lt fits listed low
    rw [← same] at high
    rcases SegmentTask.mem_touched_merge.1 touches with rfl | rfl
    · exact low
    · exact high

/-- What is given after the last stage, and what each stage gives from what the next one gives, is given
before the first. -/
theorem stages_induction {β : Type} (fits : n < Word.capacity) {P : Nat → List β → Prop}
    {f : Stage → List β}
    (last : P (1 + stageCount n) [])
    (step : ∀ r, ∀ stage ∈ stages n,
      (∀ pair : Pair, pair.stage = stage → (SegmentTask.merge pair).stageNumber n = r) →
      ∀ ys, P (r + 1) ys → P r (f stage ++ ys)) : P 1 ((stages n).flatMap f) := by
  have upTo : ∀ sts before, stages n = before ++ sts → P (before.length + 1) (sts.flatMap f) := by
    intro sts
    induction sts with
    | nil =>
      intro before all
      rw [List.append_nil] at all
      rw [← all, length_stages fits, Nat.add_comm]
      exact last
    | cons stage sts ih =>
      intro before all
      have next := ih (before ++ [stage]) (by simp [all])
      rw [List.length_append, List.length_singleton] at next
      refine step _ stage (by simp [all]) ?_ _ next
      rintro pair rfl
      have place : (stages n)[before.length]? = some pair.stage := by simp [all]
      obtain ⟨within, here⟩ := List.getElem?_eq_some_iff.1 place
      rw [SegmentTask.stageNumber, ← here, (nodup_stages fits).idxOf_getElem]
  exact upTo (stages n) [] rfl

/-- The merges of the first stages come before all others. -/
theorem exists_scheduleThrough_append (n r : Nat) : ∃ later, scheduleThrough n r ++ later = schedule n := by
  refine ⟨((stages n).drop r).flatMap fun stage => stage.pairs n, ?_⟩
  rw [scheduleThrough, schedule, ← List.flatMap_append, List.take_append_drop]

/-- The tasks up to a stage come before all others. -/
theorem exists_tasksThrough_append (n r : Nat) : ∃ later, tasksThrough n r ++ later = tasks n := by
  obtain ⟨later, split⟩ := exists_scheduleThrough_append n r
  exact ⟨later.map .merge, by rw [tasksThrough, tasks, ← split, List.map_append, List.append_assoc]⟩

theorem scheduleThrough_stageCount (fits : n < Word.capacity) :
    scheduleThrough n (stageCount n) = schedule n := by
  rw [scheduleThrough, schedule, ← length_stages fits, List.take_length]

/-- The merges of the first stages belong to the schedule. -/
theorem mem_schedule_of_mem_scheduleThrough {r : Nat} {pair : Pair} (member : pair ∈ scheduleThrough n r) :
    pair ∈ schedule n := by
  obtain ⟨later, split⟩ := exists_scheduleThrough_append n r
  rw [← split]
  exact List.mem_append_left later member

/-- The merges within blocks of up to `2 ^ x` segments are those of the first stages. -/
theorem filter_schedule (fits : 2 ^ m < Word.capacity) {x : Nat} (within : x ≤ m) :
    (schedule (2 ^ m)).filter (fun pair => pair.stage.k ≤ 2 ^ x) =
      scheduleThrough (2 ^ m) (stageCount (2 ^ x)) := by
  rw [scheduleThrough, take_stages fits within, ← filter_stages fits within, schedule, List.filter_flatMap]
  induction stages (2 ^ m) with
  | nil => rfl
  | cons stage sts ih =>
    have same : ∀ pair ∈ stage.pairs (2 ^ m), pair.stage = stage := fun pair member =>
      (Stage.mem_pairsAmong_iff.1 member).2.1
    rw [List.flatMap_cons, ih, List.filter_cons]
    by_cases low : stage.k ≤ 2 ^ x
    · rw [if_pos (decide_eq_true low), List.flatMap_cons,
        List.filter_eq_self.2 fun pair member => by rw [same pair member]; exact decide_eq_true low]
    · rw [if_neg (by simpa using low),
        List.filter_eq_nil_iff.2 fun pair member => by rw [same pair member]; simpa using low,
        List.nil_append]

/-- The tasks up to a stage are those whose number is no larger. -/
theorem mem_tasksThrough_iff {r : Nat} (member : task ∈ tasks n) :
    task ∈ tasksThrough n r ↔ task.stageNumber n ≤ r := by
  cases task with
  | sort id => simpa [tasksThrough] using sort_mem_tasks_iff.1 member
  | merge pair =>
    obtain ⟨listed, isPair⟩ := merge_mem_tasks_iff.1 member
    have early : pair.stage ∈ (stages n).take r ↔ (SegmentTask.merge pair).stageNumber n ≤ r := by
      rw [List.mem_take_iff_idxOf_lt listed, SegmentTask.stageNumber, Nat.succ_le_iff]
    rw [← early]
    simp only [tasksThrough, scheduleThrough, List.mem_append, List.mem_map, List.mem_flatMap, reduceCtorEq,
      and_false, exists_false, SegmentTask.merge.injEq, exists_eq_right, false_or]
    constructor
    · rintro ⟨stage, taken, here⟩
      rwa [(Stage.mem_pairsAmong_iff.1 here).2.1]
    · exact fun taken => ⟨_, taken, isPair⟩

/-- A segment is touched by no more than one task of each stage. -/
theorem task_unique (member : task ∈ tasks n) (touches : i ∈ task.touched) (member' : other ∈ tasks n)
    (touches' : i ∈ other.touched) (same : task.stageNumber n = other.stageNumber n) : task = other := by
  cases task with
  | sort id =>
    cases other with
    | sort id' => rw [← SegmentTask.mem_touched_sort.1 touches, ← SegmentTask.mem_touched_sort.1 touches']
    | merge pair =>
      simp only [SegmentTask.stageNumber] at same
      omega
  | merge pair =>
    cases other with
    | sort id =>
      simp only [SegmentTask.stageNumber] at same
      omega
    | merge pair' =>
      obtain ⟨r, number, place⟩ := getElem?_stages_of_merge member
      obtain ⟨r', number', place'⟩ := getElem?_stages_of_merge member'
      obtain rfl : r = r' := by omega
      have stage := Option.some.inj (place.symm.trans place')
      rw [pair_eq_of_mem_touched member touches, pair_eq_of_mem_touched member' touches', stage]

/-- A segment is touched by a task of each stage. -/
theorem exists_task (fits : 2 ^ m < Word.capacity) (inside : i < 2 ^ m) {r : Nat}
    (within : r ≤ stageCount (2 ^ m)) :
    ∃ task ∈ tasks (2 ^ m), i ∈ task.touched ∧ task.stageNumber (2 ^ m) = r := by
  cases r with
  | zero => exact ⟨.sort i, sort_mem_tasks_iff.2 inside, by simp, rfl⟩
  | succ r =>
    have place : r < (stages (2 ^ m)).length := by
      rw [length_stages fits]
      omega
    have listed := List.getElem_mem place
    refine ⟨.merge ((stages (2 ^ m))[r].pairAt i), merge_mem_tasks_iff.2 ⟨listed, ?_⟩, ?_, ?_⟩
    · exact Stage.pairAt_mem_pairs fits listed inside
    · exact SegmentTask.mem_touched_merge.2 Stage.eq_lower_or_upper_pairAt
    · simp only [SegmentTask.stageNumber, Stage.stage_pairAt, (nodup_stages fits).idxOf_getElem]

end SortNetwork
