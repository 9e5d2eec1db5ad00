import Mathlib
import SortNetwork.Proofs.Sequential

/-!
# SortNetwork.Proofs.Reordering

The order of tasks matters only where they share a segment.

A worker that meets the tasks of each segment stage by stage may otherwise meet them in any order, and
with anything in the buffer that it merges through.  The list is in the end what one worker makes of it,
down to the order of equal elements (`reordering_eq_segmented`), and it is so after each stage if the tasks
up to there come first (`performAll_eq_segmentedThrough`).
-/

namespace SortNetwork

variable {α : Type} {size m : Nat} {data : List α}

/-- Performs a task through a buffer with something in it, and keeps the segments. -/
def SegmentTask.performWith (order : ElementOrder α) (s : Segments α) (step : SegmentTask × List α) :
    Except Fault (Segments α) :=
  (step.1.perform order ⟨s, step.2⟩).map Bench.segments

/-- All tasks of a sort, each once, with those of each segment stage by stage: its local sort first, and
then its merges in the order of the network. -/
structure SegmentwiseOrdered (n : Nat) (log : List SegmentTask) : Prop where
  perm : log.Perm (tasks n)
  staged : ∀ i, (log.filter fun task => i ∈ task.touched).Pairwise fun task other =>
    task.stageNumber n ≤ other.stageNumber n

/-- The tasks of each segment come stage by stage exactly if any two tasks with a common segment do. -/
theorem staged_iff {n : Nat} {log : List SegmentTask} :
    (∀ i, (log.filter fun task => i ∈ task.touched).Pairwise fun task other =>
        task.stageNumber n ≤ other.stageNumber n) ↔
      log.Pairwise fun task other => ∀ i ∈ task.touched, i ∈ other.touched →
        task.stageNumber n ≤ other.stageNumber n := by
  simp only [List.pairwise_filter, decide_eq_true_eq]
  simp only [List.pairwise_iff_getElem]
  constructor
  · intro staged k l hk hl before i
    exact staged i k l hk hl before
  · intro staged i k l hk hl before
    exact staged k l hk hl before i

theorem SegmentwiseOrdered.admissible {log : List SegmentTask} (fits : 2 ^ m < Word.capacity)
    (ordered : SegmentwiseOrdered (2 ^ m) log) : Admissible (2 ^ m) log :=
  admissible_of_pairwise fits ordered.perm (staged_iff.1 ordered.staged)

/-- The tasks up to a stage, performed in an admissible order through any buffers, leave what the segmented
sort leaves there. -/
theorem performAll_eq_segmentedThrough (suits : Suits size m data) (order : ElementOrder α) {r : Nat}
    (within : r ≤ stageCount (2 ^ m)) {script : List (SegmentTask × List α)}
    (admissible : Admissible (2 ^ m) (script.map Prod.fst))
    (through : ∀ task ∈ tasks (2 ^ m), task ∈ script.map Prod.fst ↔ task.stageNumber (2 ^ m) ≤ r)
    {s : Segments α} (holds : s.Holds (2 ^ m) size (data.drop (2 ^ m * size)) (Segments.slice size data)) :
    ∃ t, performAll (SegmentTask.performWith order) s script = .ok t ∧
      Sequential.segmentedThrough order size r data = .ok t.toList := by
  obtain ⟨t, done, holds'⟩ := exists_performAll (SegmentTask.performWith order)
    (fun s cells => s.Holds (2 ^ m) size (data.drop (2 ^ m * size)) cells)
    (fun cells step => step.1.effect (Rule.runs order) cells) script
    (fun step member s cells holds => by
      have isTask := admissible.mem_tasks (List.mem_map_of_mem member)
      -- a task makes the same cells of the segments whatever is in its buffer
      have onBench : (Bench.mk s step.2).segments.Holds (2 ^ m) size _ cells := holds
      obtain ⟨after, performed, holds'⟩ :=
        SegmentTask.exists_perform order suits.fits suits.small isTask onBench
      exact ⟨after.segments, by rw [SegmentTask.performWith, performed]; rfl, holds'⟩) holds
  rw [← List.foldl_map] at holds'
  have same := holds_stageCells suits.small admissible within through holds'
  obtain ⟨u, sequential, holds'', -⟩ := Sequential.exists_segmentedThrough suits order within
  exact ⟨t, done, by rw [sequential, same.toList_eq, holds''.toList_eq]⟩

/-- Whatever order the tasks come in, as long as those of each segment come stage by stage, and whatever
is in the buffer before each of them, they succeed and leave what the segmented sort leaves. -/
theorem reordering_eq_segmented (order : ElementOrder α) (size : Nat) (data : List α)
    (positive : 0 < size) (short : data.length < 2 ^ 63) (power : (data.length / size).isPowerOfTwo)
    (script : List (SegmentTask × List α))
    (ordered : SegmentwiseOrdered (data.length / size) (script.map Prod.fst)) :
    ∃ s t, Segments.ofList size data = .ok s ∧
      performAll (SegmentTask.performWith order) s script = .ok t ∧
      Sequential.segmented order size data = .ok t.toList := by
  obtain ⟨m, count⟩ := power
  have suits : Suits size m data := ⟨positive, short, count⟩
  obtain ⟨s, made⟩ := Segments.exists_ofList positive data
  have holds := Segments.holds_of_ofList made
  rw [count] at ordered holds
  obtain ⟨t, done, same⟩ := performAll_eq_segmentedThrough suits order (le_refl _)
    (ordered.admissible suits.small) (through_of_perm suits.small ordered.perm) holds
  rw [Sequential.segmentedThrough_stageCount suits] at same
  exact ⟨s, t, made, done, same⟩

/-- All tasks of four segments, with the stages mixed as far as the segments let them, and something in
every other buffer. -/
def mixedScript : List (SegmentTask × List Nat) :=
  [(.sort 1, [7]), (.sort 0, []), (.merge ⟨⟨2, 1⟩, 0, 1, .ascending⟩, [9, 9, 9]), (.sort 3, []),
    (.sort 2, [4]), (.merge ⟨⟨2, 1⟩, 2, 3, .descending⟩, []), (.merge ⟨⟨4, 2⟩, 1, 3, .ascending⟩, [5]),
    (.merge ⟨⟨4, 2⟩, 0, 2, .ascending⟩, []), (.merge ⟨⟨4, 1⟩, 2, 3, .ascending⟩, [8]),
    (.merge ⟨⟨4, 1⟩, 0, 1, .ascending⟩, [])]

/-- Four segments of one element, two of them equal. -/
theorem reordering_eq_segmented_mixed :
    0 < 1 ∧ [3, 1, 2, 1].length < 2 ^ 63 ∧ ([3, 1, 2, 1].length / 1).isPowerOfTwo ∧
    SegmentwiseOrdered 4 (mixedScript.map Prod.fst) ∧
    ∃ s t, Segments.ofList 1 [3, 1, 2, 1] = .ok s ∧
      performAll (SegmentTask.performWith (.ofCmp (compare : Nat → Nat → Ordering))) s mixedScript = .ok t ∧
      t.toList = [1, 1, 2, 3] ∧
      Sequential.segmented (.ofCmp (compare : Nat → Nat → Ordering)) 1 [3, 1, 2, 1] = .ok [1, 1, 2, 3] := by
  have power : ([3, 1, 2, 1].length / 1).isPowerOfTwo := ⟨2, rfl⟩
  have ordered : SegmentwiseOrdered 4 (mixedScript.map Prod.fst) :=
    ⟨by decide +kernel, staged_iff.2 (by decide +kernel)⟩
  obtain ⟨s, t, made, done, same⟩ := reordering_eq_segmented (.ofCmp (compare : Nat → Nat → Ordering)) 1
    [3, 1, 2, 1] (by decide) (by decide) power mixedScript ordered
  have segmented : Sequential.segmented (.ofCmp (compare : Nat → Nat → Ordering)) 1 [3, 1, 2, 1] =
      .ok [1, 1, 2, 3] := by cbv
  exact ⟨by decide, by decide, power, ordered, s, t, made, done,
    Except.ok.inj (same.symm.trans segmented), segmented⟩

end SortNetwork
