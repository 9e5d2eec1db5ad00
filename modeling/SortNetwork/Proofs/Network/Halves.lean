import Mathlib
import SortNetwork.Proofs.Lists
import SortNetwork.Proofs.Network.Shape

/-!
# SortNetwork.Proofs.Network.Halves

The pairs of a stage, block by block.

At the distance `j` the segments of a block of `2 * j` are paired with each other: those of the lower half, in
their order, with those of the upper half.  So segments that make up whole blocks have half as many pairs
(`length_pairsAmong_blocks`), and the pairs of a stage are those of its blocks (`exists_blocks`).
-/

namespace SortNetwork.Stage

/-- The pair at a place in the lower half of a block. -/
def pairInBlock (stage : Stage) (block offset : Nat) : Pair where
  stage := stage
  lower := block * (2 * stage.j) + offset
  upper := block * (2 * stage.j) + stage.j + offset
  direction := stage.direction (block * (2 * stage.j) + offset)

variable {x y block offset : Nat}

/-- The lower half of a block holds the lower segments of its pairs. -/
theorem pair?_lower (inside : offset < 2 ^ y) :
    pair? ⟨2 ^ x, 2 ^ y⟩ (block * (2 * 2 ^ y) + offset) =
      some (pairInBlock ⟨2 ^ x, 2 ^ y⟩ block offset) := by
  have clear : (block * (2 * 2 ^ y) + offset) / 2 ^ y % 2 = 0 := by
    rw [show block * (2 * 2 ^ y) + offset = offset + 2 ^ y * (2 * block) by ring,
      Nat.add_mul_div_left _ _ (Nat.two_pow_pos y), Nat.div_eq_of_lt inside]
    omega
  simp only [pair?, partner?, xor_two_pow, if_pos clear, pairInBlock]
  rw [if_pos (Nat.lt_add_of_pos_right (Nat.two_pow_pos y)), Nat.add_right_comm]
  rfl

/-- The upper half of a block holds none. -/
theorem pair?_upper (inside : offset < 2 ^ y) :
    pair? ⟨2 ^ x, 2 ^ y⟩ (block * (2 * 2 ^ y) + 2 ^ y + offset) = none := by
  have set : ¬(block * (2 * 2 ^ y) + 2 ^ y + offset) / 2 ^ y % 2 = 0 := by
    rw [show block * (2 * 2 ^ y) + 2 ^ y + offset = offset + 2 ^ y * (2 * block + 1) by ring,
      Nat.add_mul_div_left _ _ (Nat.two_pow_pos y), Nat.div_eq_of_lt inside]
    omega
  simp only [pair?, partner?, xor_two_pow, if_neg set]
  rw [if_neg (Nat.not_lt.2 (Nat.sub_le ..))]
  rfl

theorem pairsAmong_block :
    pairsAmong ⟨2 ^ x, 2 ^ y⟩ (List.range' (block * (2 * 2 ^ y)) (2 * 2 ^ y)) =
      (List.range (2 ^ y)).map (pairInBlock ⟨2 ^ x, 2 ^ y⟩ block) := by
  have halves := List.range'_append_1 (s := block * (2 * 2 ^ y)) (m := 2 ^ y) (n := 2 ^ y)
  rw [← Nat.two_mul] at halves
  rw [pairsAmong, ← halves, List.filterMap_append, List.range'_eq_map_range, List.range'_eq_map_range,
    List.filterMap_map, List.filterMap_map]
  have lower : (List.range (2 ^ y)).filterMap
        (pair? ⟨2 ^ x, 2 ^ y⟩ ∘ fun offset => block * (2 * 2 ^ y) + offset) =
      (List.range (2 ^ y)).map (pairInBlock ⟨2 ^ x, 2 ^ y⟩ block) := by
    rw [← List.filterMap_eq_map]
    exact List.filterMap_congr fun offset member => pair?_lower (List.mem_range.1 member)
  have upper : (List.range (2 ^ y)).filterMap
        (pair? ⟨2 ^ x, 2 ^ y⟩ ∘ fun offset => block * (2 * 2 ^ y) + 2 ^ y + offset) = [] :=
    List.filterMap_eq_nil_iff.2 fun offset member => pair?_upper (List.mem_range.1 member)
  rw [lower, upper, List.append_nil]

/-- The pairs among the segments of whole blocks are those of the blocks, in their order. -/
theorem pairsAmong_blocks (first count : Nat) :
    pairsAmong ⟨2 ^ x, 2 ^ y⟩ (List.range' (first * (2 * 2 ^ y)) (count * (2 * 2 ^ y))) =
      (List.range' first count).flatMap fun block =>
        (List.range (2 ^ y)).map (pairInBlock ⟨2 ^ x, 2 ^ y⟩ block) := by
  rw [← flatMap_range'_range', pairsAmong, List.filterMap_flatMap]
  exact List.flatMap_congr fun block _ => pairsAmong_block

/-- Whole blocks have half as many pairs as segments. -/
theorem length_pairsAmong_blocks (first count : Nat) :
    (pairsAmong ⟨2 ^ x, 2 ^ y⟩ (List.range' (first * (2 * 2 ^ y)) (count * (2 * 2 ^ y)))).length =
      count * 2 ^ y := by
  simp [pairsAmong_blocks, List.length_flatMap]

/-- A stage cuts the segments into whole blocks, which hold its pairs in their order. -/
theorem exists_blocks {m : Nat} {stage : Stage} (small : 2 ^ m < Word.capacity)
    (listed : stage ∈ stages (2 ^ m)) :
    ∃ c, 0 < c ∧ 0 < stage.j ∧ c * (2 * stage.j) = 2 ^ m ∧
      stage.pairs (2 ^ m) = (List.range c).flatMap fun block =>
        (List.range stage.j).map (pairInBlock stage block) := by
  obtain ⟨x, y, below, high, rfl⟩ := (mem_stages_iff small).1 listed
  rw [Nat.log2_two_pow] at high
  have whole : 2 ^ (m - (y + 1)) * (2 * 2 ^ y) = 2 ^ m := by
    rw [← Nat.pow_succ', ← Nat.pow_add]
    congr 1
    omega
  refine ⟨2 ^ (m - (y + 1)), Nat.two_pow_pos _, Nat.two_pow_pos y, whole, ?_⟩
  have all := pairsAmong_blocks (x := x) (y := y) 0 (2 ^ (m - (y + 1)))
  rwa [Nat.zero_mul, whole, ← List.range_eq_range', ← List.range_eq_range'] at all

end SortNetwork.Stage
