import Mathlib
import SortNetwork.Proofs.Sequential

/-!
# SortNetwork.Proofs.Phases

What the network has sorted part of the way through.

The schedule takes the block sizes `2, 4, 8, …` one after the other.  Once the stages of a block size are
done, every block of as many segments is sorted, every other one downwards, and no element has left its
block.  The next block size finds a rising and a falling block in each of its own.

Blocks of segments, or of elements, are long segments of the list, so both networks have one
specification (`SortedBlocks`).
-/

namespace SortNetwork

variable {α : Type} {size m x : Nat} {data : List α}

/-- The first `count` blocks of `size` elements are sorted, ascending and descending in turn, and each
holds the elements that it held before. -/
structure SortedBlocks (order : ElementOrder α) (size count : Nat) (before after : List α) : Prop where
  sorted : ∀ q < count, SortedTowards order.cmp (.ofBlock q) (Segments.slice size after q)
  perm : ∀ q < count, (Segments.slice size after q).Perm (Segments.slice size before q)

/-- A block that counts lies within the network. -/
theorem block_le {q : Nat} (counts : q < 2 ^ m / 2 ^ x) : 2 ^ x * q + 2 ^ x ≤ 2 ^ m := by
  rw [← Nat.mul_succ]
  exact (Nat.mul_le_mul_left _ counts).trans (Nat.mul_div_le ..)

namespace Segments

/-- A segment of a list given by its cells. -/
theorem slice_map_range {n k q : Nat} (cells : Nat → α) (block : k * q + k ≤ n) :
    slice k ((List.range n).map cells) q = (List.range' (k * q) k).map cells := by
  rw [slice, ← List.map_drop, ← List.map_take, List.range_eq_range', List.drop_range',
    show n - q * k = k + (n - q * k - k) by rw [Nat.mul_comm q]; omega, ← List.range'_append_1,
    List.take_left' List.length_range', Nat.zero_add, Nat.mul_one, Nat.mul_comm]

end Segments

namespace Sequential

/-- The segmented sort has sorted all blocks of `2 ^ x` segments after the stages of so many. -/
theorem segmentedThrough_sortedBlocks (suits : Suits size m data) (order : ElementOrder α) (pos : 0 < x)
    (within : x ≤ m) :
    ∃ after, segmentedThrough order size (stageCount (2 ^ x)) data = .ok after ∧
      SortedBlocks order (2 ^ x * size) (2 ^ m / 2 ^ x) data after := by
  have small := suits.small
  have low : stageCount (2 ^ x) ≤ stageCount (2 ^ m) := stageCount_le small within
  obtain ⟨s, done, holds, -⟩ := exists_segmentedThrough suits order low
  rw [stageCells, take_stages small within] at holds
  refine ⟨s.toList, done, fun q counts => ?_, fun q counts => ?_⟩
  · rw [holds.slice_block (block_le counts)]
    refine sortedTowards_block_runs suits.size_pos small within (.inl pos) (fun i => ?_) (block_le counts)
    exact suits.sortRun_slice order
  · rw [holds.slice_block (block_le counts), Segments.slice_mul]
    have kept := flatMap_through_perm (fun i => order.sortRun (Segments.slice size data i))
      (conserves_runs order) (two_pow_lt_capacity small within) (q := q) fun _ listed => listed
    exact kept.trans (List.Perm.flatMap_left _ fun i _ => order.sortRun_perm _)

/-- The elementwise sort has sorted all blocks of `2 ^ x` elements after the stages of so many. -/
theorem elementwiseThrough_sortedBlocks (order : ElementOrder α) (small : 2 ^ m < Word.capacity)
    (count : data.length = 2 ^ m) (within : x ≤ m) :
    ∃ after, elementwiseThrough order.cmp (stageCount (2 ^ x)) data = .ok after ∧
      SortedBlocks order (2 ^ x) (2 ^ m / 2 ^ x) data after := by
  have := order.trans_cmp
  obtain ⟨cells, row⟩ := exists_cells (count ▸ Nat.two_pow_pos m)
  rw [count] at row
  have low : stageCount (2 ^ x) ≤ stageCount (2 ^ m) := stageCount_le small within
  have done := elementwiseThrough_eq_ok order.cmp small low cells
  rw [← row, take_stages small within] at done
  refine ⟨_, done, fun q counts => ?_, fun q counts => ?_⟩
  · rw [Segments.slice_map_range _ (block_le counts)]
    exact sortedTowards_block_elements small within cells (block_le counts)
  · rw [row, Segments.slice_map_range _ (block_le counts), Segments.slice_map_range _ (block_le counts),
      List.map_eq_flatMap, List.map_eq_flatMap]
    exact flatMap_through_perm cells (conserves_elements order.cmp) (two_pow_lt_capacity small within)
      fun _ listed => listed

end Sequential

/-- The schedule performs the stages of blocks of up to `k` first.  After them the segmented sort has sorted
every block of `k` segments in its direction, and the elementwise sort every block of `k` elements, and
neither has moved an element from one block to another. -/
theorem phases_sort_blocks (order : ElementOrder α) (size k : Nat) (data : List α)
    (short : data.length < 2 ^ 63) (power : k.isPowerOfTwo) (two : 2 ≤ k) :
    (∀ n < Word.capacity, n.isPowerOfTwo → k ≤ n →
      (schedule n).filter (fun pair => pair.stage.k ≤ k) = scheduleThrough n (stageCount k) ∧
        ∃ later, scheduleThrough n (stageCount k) ++ later = schedule n) ∧
    (0 < size → (data.length / size).isPowerOfTwo → k ≤ data.length / size →
      ∃ after, Sequential.segmentedThrough order size (stageCount k) data = .ok after ∧
        SortedBlocks order (k * size) (data.length / size / k) data after) ∧
    (data.length.isPowerOfTwo → k ≤ data.length →
      ∃ after, Sequential.elementwiseThrough order.cmp (stageCount k) data = .ok after ∧
        SortedBlocks order k (data.length / k) data after) := by
  obtain ⟨x, rfl⟩ := power
  have pos : 0 < x := by
    rcases Nat.eq_zero_or_pos x with rfl | pos
    · omega
    · exact pos
  have exponent : ∀ {m}, 2 ^ x ≤ 2 ^ m → x ≤ m := (Nat.pow_le_pow_iff_right (by decide)).1
  refine ⟨?_, ?_, ?_⟩
  · rintro n fits ⟨m, rfl⟩ within
    exact ⟨filter_schedule fits (exponent within), exists_scheduleThrough_append _ _⟩
  · rintro positive ⟨m, count⟩ within
    have suits : Suits size m data := ⟨positive, short, count⟩
    rw [count] at within ⊢
    exact Sequential.segmentedThrough_sortedBlocks suits order pos (exponent within)
  · rintro ⟨m, count⟩ within
    have small : 2 ^ m < Word.capacity := by
      rw [← count]
      exact short.trans (by decide)
    rw [count] at within ⊢
    exact Sequential.elementwiseThrough_sortedBlocks order small count (exponent within)

/-- Blocks of two, of four segments with two elements each and of eight elements. -/
theorem phases_sort_blocks_of_two :
    [3, 1, 2, 1, 0, 2, 3, 3].length < 2 ^ 63 ∧ Nat.isPowerOfTwo 2 ∧ 2 ≤ 2 ∧
    (∃ after,
      Sequential.segmentedThrough (.ofCmp (compare : Nat → Nat → Ordering)) 2 1 [3, 1, 2, 1, 0, 2, 3, 3] =
        .ok after ∧
      SortedBlocks (.ofCmp compare) 4 2 [3, 1, 2, 1, 0, 2, 3, 3] after) ∧
    Sequential.elementwiseThrough (compare : Nat → Nat → Ordering) 1 [3, 1, 2, 1, 0, 2, 3, 3] =
      .ok [1, 3, 2, 1, 0, 2, 3, 3] ∧
    SortedBlocks (.ofCmp (compare : Nat → Nat → Ordering)) 2 4 [3, 1, 2, 1, 0, 2, 3, 3]
      [1, 3, 2, 1, 0, 2, 3, 3] := by
  have power : Nat.isPowerOfTwo 2 := ⟨1, rfl⟩
  obtain ⟨-, segments, elements⟩ := phases_sort_blocks (.ofCmp (compare : Nat → Nat → Ordering)) 2 2
    [3, 1, 2, 1, 0, 2, 3, 3] (by decide) power (le_refl 2)
  have run : Sequential.elementwiseThrough (compare : Nat → Nat → Ordering) 1 [3, 1, 2, 1, 0, 2, 3, 3] =
      .ok [1, 3, 2, 1, 0, 2, 3, 3] := rfl
  obtain ⟨after, done, blocks⟩ := elements ⟨3, rfl⟩ (by decide)
  cases run.symm.trans done
  exact ⟨by decide, power, le_refl 2, segments (by decide) ⟨2, rfl⟩ (by decide), run, blocks⟩

end SortNetwork
