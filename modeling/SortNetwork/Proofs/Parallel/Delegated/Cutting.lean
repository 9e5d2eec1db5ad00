import Mathlib
import SortNetwork.Parallel.Delegated
import SortNetwork.Proofs.Network.Halves
import SortNetwork.Proofs.Tasks.Stages

/-!
# SortNetwork.Proofs.Parallel.Delegated.Cutting

The jobs that a list is cut into.

If the length of the list is a power of two of segments, every cut succeeds: the blocks of a stage are whole
and so are the segments of their halves.  The merges that come out are those of the network, in their order
(`merges_eq_ok`), and the passes are the tasks of the sort, each at the places of its segments
(`passes_eq_ok`).  Lists of other lengths are cut as well, until a block ends before its middle or two segments
do not match.
-/

namespace SortNetwork.Parallel.Delegated

variable {n m size : Nat}

/-! ## blocks, halves and segments -/

/-- The job that a task is, if the list is cut into segments of this size. -/
def jobOf (size : Nat) : SegmentTask → Job
  | .sort id => .sort ⟨id * size, size⟩
  | .merge pair => .merge ⟨pair.lower * size, size⟩ ⟨pair.upper * size, size⟩ pair.direction

/-- Elements that are cut into whole chunks. -/
theorem chunks_eq_ok {start d c : Nat} (positive : 0 < d) :
    Span.chunks ⟨start, c * d⟩ d = .ok ((List.range c).map fun i => ⟨start + i * d, d⟩) := by
  have count : (c * d + d - 1) / d = c := by
    rw [Nat.add_sub_assoc positive, Nat.mul_comm, Nat.mul_add_div positive,
      Nat.div_eq_of_lt (by omega), Nat.add_zero]
  simp only [Span.chunks, if_neg positive.ne', count]
  congr 1
  refine List.map_congr_left fun i member => ?_
  have inside : (i + 1) * d ≤ c * d := Nat.mul_le_mul_right d (List.mem_range.1 member)
  rw [Nat.succ_mul] at inside
  rw [min_eq_left (by omega)]

/-- Numbering the images of numbers. -/
theorem zipIdx_map_range {β : Type} (f : Nat → β) (c : Nat) :
    ((List.range c).map f).zipIdx = (List.range c).map fun i => (f i, i) := by
  refine List.ext_getElem (by simp) fun i _ _ => ?_
  simp

/-- The places of the segments in the halves of a block, taken pairwise. -/
theorem zip_halves (stage : Stage) (block size : Nat) :
    ((List.range stage.j).map fun i => (⟨block * (2 * (stage.j * size)) + i * size, size⟩ : Span)).zip
        ((List.range stage.j).map fun i =>
          (⟨block * (2 * (stage.j * size)) + stage.j * size + i * size, size⟩ : Span)) =
      (List.range stage.j).map fun i =>
        (⟨(stage.pairInBlock block i).lower * size, size⟩,
          ⟨(stage.pairInBlock block i).upper * size, size⟩) := by
  rw [List.zip_map']
  refine List.map_congr_left fun i _ => ?_
  simp only [Stage.pairInBlock, Prod.mk.injEq, Span.mk.injEq, and_true]
  constructor <;> ring

theorem lowerNumber_eq_ok {stage : Stage} {block offset : Nat} (inside : offset < stage.j)
    (fits : (block + 1) * (2 * stage.j) < Word.capacity) :
    lowerNumber stage block offset = .ok (block * (2 * stage.j) + offset) := by
  rw [Nat.succ_mul] at fits
  have first : block * 2 * stage.j = block * (2 * stage.j) := Nat.mul_assoc ..
  have twice : block * 2 ≤ block * 2 * stage.j := Nat.le_mul_of_pos_right _ (by omega)
  simp only [lowerNumber, bind_eq_ok_iff, Word.mul_eq_ok_iff, Word.add_eq_ok_iff]
  exact ⟨_, ⟨by omega, rfl⟩, _, ⟨by omega, rfl⟩, by omega, by rw [first]⟩

/-- The halves of a block, cut into segments and taken pairwise. -/
theorem blockMerges_eq_ok {stage : Stage} {block : Nat} (positive : 0 < size)
    (twice_size : 2 * size < Word.capacity) (fits : (block + 1) * (2 * stage.j) < Word.capacity) :
    blockMerges size stage (stage.j * size) block
        ⟨block * (2 * (stage.j * size)), 2 * (stage.j * size)⟩ =
      .ok ((List.range stage.j).map fun offset => jobOf size (.merge (stage.pairInBlock block offset))) := by
  have long : ¬2 * (stage.j * size) < stage.j * size := by omega
  have half : 2 * (stage.j * size) - stage.j * size = stage.j * size := by omega
  simp only [blockMerges, Span.splitAt, if_neg long, half, chunks_eq_ok positive, zip_halves, bind, Except.bind,
    zipIdx_map_range]
  rw [mapM_eq_ok (g := fun x => .merge x.1.1 x.1.2 (stage.direction (block * (2 * stage.j) + x.2))),
    List.map_map]
  · rfl
  · intro x member
    obtain ⟨offset, inside, rfl⟩ := List.mem_map.1 member
    simp only [Word.mul, if_pos twice_size, lowerNumber_eq_ok (List.mem_range.1 inside) fits, pure, Except.pure]

/-- Cutting a list of whole segments gives the pairs of a stage, in their order. -/
theorem merges_eq_ok {stage : Stage} (positive : 0 < size) (fits : 2 ^ m * size < Word.capacity)
    (small : 2 ^ m < Word.capacity) (listed : stage ∈ stages (2 ^ m)) :
    merges size (2 ^ m * size) stage =
      .ok ((stage.pairs (2 ^ m)).map fun pair => jobOf size (.merge pair)) := by
  obtain ⟨c, nonempty, distance, whole, pairs⟩ := Stage.exists_blocks small listed
  have length : 2 ^ m * size = c * (2 * (stage.j * size)) := by
    rw [← whole]
    ring
  have block_pos : 0 < 2 * (stage.j * size) := Nat.mul_pos (by decide) (Nat.mul_pos distance positive)
  have long : 2 * (stage.j * size) ≤ 2 ^ m * size := by
    rw [length]
    exact Nat.le_mul_of_pos_left _ nonempty
  have twice_size : 2 * size < Word.capacity := by
    have : size ≤ stage.j * size := Nat.le_mul_of_pos_left _ distance
    omega
  have each : ∀ block < c, blockMerges size stage (stage.j * size) block
      ⟨0 + block * (2 * (stage.j * size)), 2 * (stage.j * size)⟩ =
      .ok ((List.range stage.j).map fun offset =>
        jobOf size (.merge (stage.pairInBlock block offset))) := by
    intro block inside
    rw [Nat.zero_add]
    refine blockMerges_eq_ok positive twice_size (Nat.lt_of_le_of_lt ?_ small)
    rw [← whole]
    exact Nat.mul_le_mul_right _ inside
  rw [merges, Word.mul, if_pos (by omega)]
  simp only [Word.mul, if_pos (show 2 * (stage.j * size) < Word.capacity by omega), length,
    chunks_eq_ok block_pos, bind, Except.bind, zipIdx_map_range]
  rw [mapM_eq_ok (g := fun x => (List.range stage.j).map fun offset =>
    jobOf size (.merge (stage.pairInBlock x.2 offset)))]
  · simp only [pure, Except.pure]
    rw [pairs, List.map_map, List.map_flatMap, List.flatMap_def]
    simp only [List.map_map]
    rfl
  · intro _ member
    obtain ⟨block, inside, rfl⟩ := List.mem_map.1 member
    exact each block (List.mem_range.1 inside)

/-! ## the passes -/

/-- The passes of a sort of `n` segments. -/
def layout (n : Nat) : List (List SegmentTask) :=
  (List.range n).map .sort :: (stages n).map fun stage => (stage.pairs n).map .merge

/-- The passes one after the other are the tasks of the sort. -/
theorem flatten_layout (n : Nat) : (layout n).flatten = tasks n := by
  rw [layout, List.flatten_cons, tasks, schedule, List.map_flatMap, List.flatMap_def]

/-- The first passes one after the other are the tasks up to a stage. -/
theorem flatten_take_layout (n r : Nat) : ((layout n).take (r + 1)).flatten = tasksThrough n r := by
  rw [layout, List.take_succ_cons, List.flatten_cons, ← List.map_take, tasksThrough, scheduleThrough,
    List.map_flatMap, List.flatMap_def]

/-- The tasks of a pass belong to one stage. -/
theorem stageNumber_eq_of_mem_layout {pass : List SegmentTask} (member : pass ∈ layout n)
    {task other : SegmentTask}
    (first : task ∈ pass) (second : other ∈ pass) : task.stageNumber n = other.stageNumber n := by
  rcases List.mem_cons.1 member with rfl | merges
  · obtain ⟨_, -, rfl⟩ := List.mem_map.1 first
    obtain ⟨_, -, rfl⟩ := List.mem_map.1 second
    rfl
  · obtain ⟨stage, -, rfl⟩ := List.mem_map.1 merges
    obtain ⟨pair, isPair, rfl⟩ := List.mem_map.1 first
    obtain ⟨pair', isPair', rfl⟩ := List.mem_map.1 second
    rw [SegmentTask.stageNumber, SegmentTask.stageNumber, (Stage.mem_pairsAmong_iff.1 isPair).2.1,
      (Stage.mem_pairsAmong_iff.1 isPair').2.1]

/-- The jobs of the passes over segments of one size. -/
def jobs (size n : Nat) : List (List Job) := (layout n).map (List.map (jobOf size))

/-- A list of whole segments can be cut for every pass, and the jobs are the tasks of the sort. -/
theorem passes_eq_ok (positive : 0 < size) (fits : 2 ^ m * size < Word.capacity)
    (small : 2 ^ m < Word.capacity) :
    passes size (2 ^ m * size) = .ok ((jobs size (2 ^ m)).map .ok) := by
  have localSorts : sorts size (2 ^ m * size) = .ok ((List.range (2 ^ m)).map fun id => jobOf size (.sort id)) := by
    simp only [sorts, chunks_eq_ok positive, Nat.zero_add, bind, Except.bind, pure, Except.pure, List.map_map]
    rfl
  have stages_eq : (stages (2 ^ m)).map (merges size (2 ^ m * size)) =
      (stages (2 ^ m)).map fun stage => .ok ((stage.pairs (2 ^ m)).map fun pair => jobOf size (.merge pair)) :=
    List.map_congr_left fun stage listed => merges_eq_ok positive fits small listed
  simp only [passes, Word.div, if_neg positive.ne', Nat.mul_div_cancel _ positive, bind, Except.bind, pure,
    Except.pure, localSorts, stages_eq, jobs, layout, List.map_cons, List.map_map, Function.comp_def]

/-- Five elements in segments of two: the second block ends before its middle. -/
example : merges 2 5 ⟨2, 1⟩ = .error .splitPastEnd := by decide

/-- Seven elements in segments of two: the last segment is shorter than the one it is taken with. -/
example : merges 2 7 ⟨2, 1⟩ =
    .ok [.merge ⟨0, 2⟩ ⟨2, 2⟩ .ascending, .merge ⟨4, 2⟩ ⟨6, 1⟩ .descending] := by decide

end SortNetwork.Parallel.Delegated
