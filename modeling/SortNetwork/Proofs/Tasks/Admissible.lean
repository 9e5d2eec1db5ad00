import Mathlib
import SortNetwork.Proofs.Tasks.Stages

/-!
# SortNetwork.Proofs.Tasks.Admissible

Orders of the tasks that respect each segment.

An order is admissible if every task is performed when each segment it touches has been through exactly
the tasks of earlier stages.  Nothing is said of segments that a task does not touch, so two tasks
without a common segment may come in either order.  Admissible orders nevertheless leave the same cells:
after `r` of its tasks a segment holds what it holds after `r` stages of the network (`foldl_effect`).

* `Admissible.snoc_of_earliest`: a task that no pending task of its segments precedes may come next.
* `admissible_of_pairwise`: an order of all tasks in which the tasks of each segment come stage by stage.
* `foldl_effect_of_through`: once the tasks up to a stage are done, the cells are those of the network there.
-/

namespace SortNetwork

variable {β : Type}

/-! ## what tasks do to cells -/

/-- The cells after a task. -/
def SegmentTask.effect (rule : Rule β) (cells : Nat → β) : SegmentTask → Nat → β
  | .sort id => Function.update cells id (rule.sort (cells id))
  | .merge pair =>
    let merged := rule.merge pair.direction (cells pair.lower) (cells pair.upper)
    Function.update (Function.update cells pair.lower merged.1) pair.upper merged.2

/-- What a place holds after `r` tasks: at first its cell, then the sorted cell, then what stage after
stage leaves there. -/
def settled (rule : Rule β) (n : Nat) (cells : Nat → β) : Nat → Nat → β
  | 0, i => cells i
  | r + 1, i => rule.through (fun place => rule.sort (cells place)) ((stages n).take r) i

/-- How many of the tasks touch a segment. -/
def visits (log : List SegmentTask) (i : Nat) : Nat := log.countP fun task => i ∈ task.touched

/-- Orders in which each task finds its segments just through the stages before its own. -/
inductive Admissible (n : Nat) : List SegmentTask → Prop where
  | nil : Admissible n []
  | snoc {log : List SegmentTask} {task : SegmentTask} (before : Admissible n log)
      (member : task ∈ tasks n) (next : ∀ i ∈ task.touched, visits log i = task.stageNumber n) :
      Admissible n (log ++ [task])

variable {n m i : Nat} {log pending : List SegmentTask} {task other : SegmentTask} {rule : Rule β}
  {cells : Nat → β}

@[simp] theorem visits_nil : visits [] i = 0 := rfl

theorem visits_snoc : visits (log ++ [task]) i = visits log i + if i ∈ task.touched then 1 else 0 := by
  simp [visits, List.countP_append, List.countP_singleton]

theorem effect_of_not_mem (untouched : i ∉ task.touched) : task.effect rule cells i = cells i := by
  cases task with
  | sort id =>
    rw [SegmentTask.mem_touched_sort] at untouched
    exact Function.update_of_ne untouched ..
  | merge pair =>
    rw [SegmentTask.mem_touched_merge, not_or] at untouched
    simp only [SegmentTask.effect, Function.update_of_ne untouched.2, Function.update_of_ne untouched.1]

/-! ## admissible orders -/

namespace Admissible

theorem mem_tasks (h : Admissible n log) (member : task ∈ log) : task ∈ tasks n := by
  induction h with
  | nil => cases member
  | snoc _ last _ ih =>
    rcases List.mem_append.1 member with earlier | here
    · exact ih earlier
    · rw [List.mem_singleton.1 here]
      exact last

/-- What comes first in an admissible order is one too. -/
theorem of_append {more : List SegmentTask} (h : Admissible n (log ++ more)) : Admissible n log := by
  induction more using List.reverseRecOn with
  | nil => rwa [List.append_nil] at h
  | append_singleton more last ih =>
    rw [← List.append_assoc] at h
    generalize all : log ++ more ++ [last] = order at h
    cases h with
    | nil => simp at all
    | snoc before _ _ =>
      obtain ⟨rfl, -⟩ := List.append_inj' all rfl
      exact ih before

theorem visits_le (fits : n < Word.capacity) (h : Admissible n log) :
    visits log i ≤ 1 + stageCount n := by
  induction h with
  | nil => exact Nat.zero_le _
  | @snoc log task _ member next ih =>
    rw [visits_snoc]
    split
    · next touches =>
      have := stageNumber_le fits member
      rw [next i touches]
      omega
    · exact ih

/-- A task has been done exactly if its segments have been through its stage. -/
theorem mem_iff (h : Admissible n log) (member : task ∈ tasks n) (touches : i ∈ task.touched) :
    task ∈ log ↔ task.stageNumber n < visits log i := by
  induction h with
  | nil => simp
  | @snoc log last before member' next ih =>
    rw [visits_snoc, List.mem_append, List.mem_singleton, ih]
    split
    · next touches' =>
      have here := next i touches'
      constructor
      · rintro (earlier | rfl)
        · omega
        · omega
      · intro reached
        by_cases same : task.stageNumber n = last.stageNumber n
        · exact .inr (task_unique member touches member' touches' same)
        · exact .inl (by omega)
    · next untouched =>
      constructor
      · rintro (earlier | rfl)
        · exact earlier
        · exact absurd touches untouched
      · exact .inl

/-- A segment that has not been through all stages has a task that is still to be done, of the stage that
is its next. -/
theorem exists_pending (fits : 2 ^ m < Word.capacity) (h : Admissible (2 ^ m) log)
    (all : (log ++ pending).Perm (tasks (2 ^ m))) (inside : i < 2 ^ m)
    (early : visits log i ≤ stageCount (2 ^ m)) :
    ∃ other ∈ pending, i ∈ other.touched ∧ other.stageNumber (2 ^ m) = visits log i := by
  obtain ⟨other, isOther, touches, number⟩ := exists_task fits inside early
  have undone : other ∉ log := by
    rw [h.mem_iff isOther touches, number]
    exact Nat.lt_irrefl _
  exact ⟨other, (List.mem_append.1 (all.mem_iff.2 isOther)).resolve_left undone, touches, number⟩

/-- A task may come next if no task that is still to be done touches one of its segments and belongs to an
earlier stage. -/
theorem snoc_of_earliest (fits : 2 ^ m < Word.capacity) (h : Admissible (2 ^ m) log)
    (all : (log ++ pending).Perm (tasks (2 ^ m))) (member : task ∈ pending)
    (earliest : ∀ i ∈ task.touched, ∀ other ∈ pending, i ∈ other.touched →
      task.stageNumber (2 ^ m) ≤ other.stageNumber (2 ^ m)) :
    Admissible (2 ^ m) (log ++ [task]) := by
  have nodup : (log ++ pending).Nodup := all.nodup_iff.2 (nodup_tasks fits)
  have isTask : task ∈ tasks (2 ^ m) := all.mem_iff.1 (List.mem_append_right _ member)
  refine h.snoc isTask fun i touches => ?_
  have notBefore : ¬task.stageNumber (2 ^ m) < visits log i := by
    rw [← h.mem_iff isTask touches]
    exact fun done => (List.nodup_append.1 nodup).2.2 _ done _ member rfl
  by_contra late
  have last := stageNumber_le fits isTask
  obtain ⟨other, waits, touches', number⟩ :=
    h.exists_pending fits all (lt_of_mem_touched fits isTask touches) (by omega)
  have := earliest i touches other waits touches'
  omega

end Admissible

/-- All tasks in an order in which the tasks of each segment come stage by stage. -/
theorem admissible_of_pairwise (fits : 2 ^ m < Word.capacity) (all : log.Perm (tasks (2 ^ m)))
    (staged : log.Pairwise fun task other => ∀ i ∈ task.touched, i ∈ other.touched →
      task.stageNumber (2 ^ m) ≤ other.stageNumber (2 ^ m)) : Admissible (2 ^ m) log := by
  -- by induction on how much of the order is done
  have upTo : ∀ k ≤ log.length, Admissible (2 ^ m) (log.take k) := by
    intro k
    induction k with
    | zero => exact fun _ => .nil
    | succ k ih =>
      intro within
      have rest := List.drop_eq_getElem_cons (show k < log.length by omega)
      rw [← List.take_concat_get' log k (by omega)]
      have split : (log.take k ++ log.drop k).Perm (tasks (2 ^ m)) := by
        rw [List.take_append_drop]
        exact all
      refine (ih (by omega)).snoc_of_earliest fits split ?_ ?_
      · rw [rest]
        exact List.mem_cons_self
      · intro i touches other member touches'
        have later : (log.drop k).Pairwise _ := staged.drop
        rw [rest] at later member
        rcases List.mem_cons.1 member with rfl | after
        · exact le_refl _
        · exact (List.pairwise_cons.1 later).1 other after i touches touches'
  simpa using upTo log.length (le_refl _)

/-- The order in which one worker performs the tasks. -/
theorem admissible_tasks (fits : 2 ^ m < Word.capacity) : Admissible (2 ^ m) (tasks (2 ^ m)) :=
  admissible_of_pairwise fits (.refl _) ((pairwise_stageNumber_tasks fits).imp fun le _ _ _ => le)

theorem admissible_tasksThrough (fits : 2 ^ m < Word.capacity) (r : Nat) :
    Admissible (2 ^ m) (tasksThrough (2 ^ m) r) := by
  obtain ⟨later, tasksOf⟩ := exists_tasksThrough_append (2 ^ m) r
  exact Admissible.of_append (tasksOf ▸ admissible_tasks fits)

/-! ## the cells that admissible orders leave -/

/-- After some tasks of an admissible order, each place holds what the network leaves there after as many
stages as tasks have touched it. -/
theorem foldl_effect (h : Admissible n log) (i : Nat) :
    log.foldl (SegmentTask.effect rule) cells i = settled rule n cells (visits log i) i := by
  induction h generalizing i with
  | nil => rfl
  | @snoc log task before member next ih =>
    rw [List.foldl_append, List.foldl_cons, List.foldl_nil, visits_snoc]
    by_cases touches : i ∈ task.touched
    · rw [if_pos touches, next i touches]
      cases task with
      | sort id =>
        obtain rfl := SegmentTask.mem_touched_sort.1 touches
        have fresh := ih i
        rw [next i touches] at fresh
        simp only [SegmentTask.effect, Function.update_self, fresh]
        rfl
      | merge pair =>
        obtain ⟨r, number, place⟩ := getElem?_stages_of_merge member
        have below := lower_lt_upper_of_mem_tasks member
        have first := ih pair.lower
        have second := ih pair.upper
        rw [next pair.lower (by simp), number] at first
        rw [next pair.upper (by simp), number] at second
        have take : (stages n).take (r + 1) = (stages n).take r ++ [pair.stage] := by
          rw [List.take_add_one, place]
          rfl
        rw [number]
        simp only [settled, take, Rule.through_append, Rule.through_cons, Rule.through_nil, Stage.apply,
          ← pair_eq_of_mem_touched member touches, SegmentTask.effect, first, second]
        rcases SegmentTask.mem_touched_merge.1 touches with rfl | rfl
        · rw [Function.update_of_ne (by omega), Function.update_self, if_pos rfl]
        · rw [Function.update_self, if_neg (by omega)]
    · rw [if_neg touches, effect_of_not_mem touches, ih i, Nat.add_zero]

/-- Once the tasks up to a stage are done, and no others, each segment has been through as many. -/
theorem visits_of_through {r : Nat} (fits : 2 ^ m < Word.capacity) (h : Admissible (2 ^ m) log)
    (within : r ≤ stageCount (2 ^ m))
    (through : ∀ task ∈ tasks (2 ^ m), task ∈ log ↔ task.stageNumber (2 ^ m) ≤ r) (inside : i < 2 ^ m) :
    visits log i = r + 1 := by
  obtain ⟨task, member, touches, number⟩ := exists_task fits inside within
  have reached := (h.mem_iff member touches).1 ((through task member).2 number.le)
  by_contra different
  have last := h.visits_le (i := i) fits
  obtain ⟨next, member', touches', number'⟩ :=
    exists_task fits inside (show r + 1 ≤ stageCount (2 ^ m) by omega)
  have := (through next member').1 ((h.mem_iff member' touches').2 (by omega))
  omega

/-- Once every task is done, no task of a later stage is left, since there is none. -/
theorem through_of_perm (fits : n < Word.capacity) (all : log.Perm (tasks n)) :
    ∀ task ∈ tasks n, task ∈ log ↔ task.stageNumber n ≤ stageCount n :=
  fun _ member => ⟨fun _ => stageNumber_le fits member, fun _ => all.mem_iff.2 member⟩

/-- Once every task is done, each segment has been through all stages. -/
theorem visits_of_perm (fits : 2 ^ m < Word.capacity) (h : Admissible (2 ^ m) log)
    (all : log.Perm (tasks (2 ^ m))) (inside : i < 2 ^ m) : visits log i = 1 + stageCount (2 ^ m) := by
  rw [visits_of_through fits h (le_refl _) (through_of_perm fits all) inside, Nat.add_comm]

/-- A sort of `2 ^ m` segments has as many merges as half the segments have stages. -/
theorem length_schedule (fits : 2 ^ m < Word.capacity) :
    (schedule (2 ^ m)).length = 2 ^ m / 2 * stageCount (2 ^ m) := by
  -- count the segments that the tasks touch, segment by segment and task by task
  have bySegment : ∑ i ∈ Finset.range (2 ^ m), visits (tasks (2 ^ m)) i =
    2 ^ m * (1 + stageCount (2 ^ m)) := by
    rw [Finset.sum_congr rfl fun i member =>
      visits_of_perm fits (admissible_tasks fits) (List.Perm.refl _) (Finset.mem_range.1 member)]
    simp
  have byTask : ∀ log : List SegmentTask, (∀ task ∈ log, task ∈ tasks (2 ^ m)) →
      ∑ i ∈ Finset.range (2 ^ m), visits log i = (log.map fun task => task.touched.length).sum := by
    intro log
    induction log with
    | nil => simp
    | cons task log ih =>
      intro all
      have isTask := all task (by simp)
      have split : ∀ i, visits (task :: log) i = visits log i + if i ∈ task.touched then 1 else 0 := by
        intro i
        simp [visits, List.countP_cons]
      have here :
          ∑ i ∈ Finset.range (2 ^ m), (if i ∈ task.touched then 1 else 0) = task.touched.length := by
        have those : (Finset.range (2 ^ m)).filter (· ∈ task.touched) = task.touched.toFinset := by
          ext i
          simp only [Finset.mem_filter, Finset.mem_range, List.mem_toFinset, and_iff_right_iff_imp]
          exact lt_of_mem_touched fits isTask
        rw [Finset.sum_boole, those, List.toFinset_card_of_nodup (nodup_touched isTask), Nat.cast_id]
      simp only [split, Finset.sum_add_distrib, here, List.map_cons, List.sum_cons]
      rw [ih fun other member => all other (by simp [member]), Nat.add_comm]
  have total := bySegment.symm.trans (byTask _ fun _ member => member)
  have sorts : ((List.range (2 ^ m)).map SegmentTask.sort).map (fun task => task.touched.length) =
      List.replicate (2 ^ m) 1 := by
    rw [List.map_map, List.eq_replicate_iff]
    simp [SegmentTask.touched]
  have merges : ((schedule (2 ^ m)).map SegmentTask.merge).map (fun task => task.touched.length) =
      List.replicate (schedule (2 ^ m)).length 2 := by
    rw [List.map_map, List.eq_replicate_iff]
    simp [SegmentTask.touched]
  rw [tasks, List.map_append, List.sum_append, sorts, merges, List.sum_replicate, List.sum_replicate,
    Nat.mul_add] at total
  simp only [smul_eq_mul, Nat.mul_one] at total
  cases m with
  | zero => simp_all [stageCount]
  | succ m =>
    rw [Nat.pow_succ] at total ⊢
    rw [Nat.mul_div_cancel _ (by decide)]
    linarith

/-- Once every task is done, every segment has been sorted once, every pair of every stage has been
merged once, and nothing else has been done. -/
theorem counts_of_perm (fits : 2 ^ m < Word.capacity) (all : log.Perm (tasks (2 ^ m))) :
    (∀ id < 2 ^ m, log.count (.sort id) = 1) ∧
      (∀ stage ∈ stages (2 ^ m), ∀ pair ∈ stage.pairs (2 ^ m), log.count (.merge pair) = 1) ∧
      log.length = 2 ^ m + 2 ^ m / 2 * stageCount (2 ^ m) := by
  have once : ∀ task ∈ tasks (2 ^ m), log.count task = 1 := by
    intro task member
    rw [all.count_eq, (nodup_tasks fits).count, if_pos member]
  refine ⟨fun id inside => once _ (sort_mem_tasks_iff.2 inside), fun stage listed pair member => ?_, ?_⟩
  · have same := (Stage.mem_pairsAmong_iff.1 member).2.1
    exact once _ (merge_mem_tasks_iff.2 (by rw [same]; exact ⟨listed, member⟩))
  · rw [all.length_eq, tasks, List.length_append, List.length_map, List.length_map, List.length_range,
      length_schedule fits]

/-- Once the tasks up to a stage are done, and no others, the cells are those that the network holds then. -/
theorem foldl_effect_of_through {r : Nat} (fits : 2 ^ m < Word.capacity) (h : Admissible (2 ^ m) log)
    (within : r ≤ stageCount (2 ^ m))
    (through : ∀ task ∈ tasks (2 ^ m), task ∈ log ↔ task.stageNumber (2 ^ m) ≤ r) (inside : i < 2 ^ m) :
    log.foldl (SegmentTask.effect rule) cells i =
      rule.through (fun place => rule.sort (cells place)) ((stages (2 ^ m)).take r) i := by
  rw [foldl_effect h, visits_of_through fits h within through inside, settled]

end SortNetwork
