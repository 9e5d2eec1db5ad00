import Mathlib
import SortNetwork.Proofs.Parallel.SetUp

/-!
# SortNetwork.Proofs.Parallel.Shares

How the shares of all workers divide a stage.

A worker lists the pairs whose lower segment it owns.  The shares follow each other without gaps, so the pairs
of all workers are those of the stage, in order; and since every segment stands in one pair of the stage, it
stands in one pair of one worker.

* `shares_cover_stage`: the pairs of all workers have every segment in one place.
-/

namespace SortNetwork.Parallel

variable {threads n v w : Nat}

/-- No segment belongs to two shares. -/
theorem eq_of_mem_segments_shareOf {i : Nat} (first : i ∈ (shareOf threads n v).segments)
    (second : i ∈ (shareOf threads n w).segments) : v = w := by
  rw [segments_shareOf, List.mem_range'_1] at first second
  have owner : ∀ u, u * (n / threads) ≤ i ∧ i < u * (n / threads) + n / threads → i / (n / threads) = u := by
    rintro u ⟨low, high⟩
    exact Nat.div_eq_of_lt_le low (by rwa [Nat.succ_mul])
  rw [← owner v first, owner w second]

/-- If the workers divide the segments, each of them has a share.  In every stage of the network, the pairs of
all shares together have each segment once, in one place of one pair of one share.  A pair consists of two
segments of the network at the distance of the stage; it is listed with the share that owns its lower segment,
and both its segments are merged in its direction. -/
theorem shares_cover_stage {m threads : Nat} {stage : Stage} (fits : 2 ^ m < Word.capacity)
    (divides : threads ∣ 2 ^ m) (listed : stage ∈ stages (2 ^ m)) :
    ∃ share : Nat → Partition, (∀ w < threads, Partition.share w threads (2 ^ m) = .ok (share w)) ∧
      (((List.range threads).flatMap fun w => (share w).pairs stage).flatMap fun pair =>
        [pair.lower, pair.upper]).Perm (List.range (2 ^ m)) ∧
      ∀ w < threads, ∀ pair ∈ (share w).pairs stage,
        pair.upper = pair.lower + stage.j ∧ pair.upper < 2 ^ m ∧
        (∀ v < threads, pair.lower ∈ (share v).segments ↔ v = w) ∧
        stage.direction pair.lower = pair.direction ∧ stage.direction pair.upper = pair.direction := by
  refine ⟨shareOf threads (2 ^ m), fun w inside => share_eq_ok fits inside, ?_, ?_⟩
  · rw [flatMap_pairs_shareOf divides]
    exact Stage.flatMap_pairs_perm fits listed
  · intro w inside pair member
    have owned : pair.lower ∈ (shareOf threads (2 ^ m) w).segments := (Stage.mem_pairsAmong_iff.1 member).1
    have among : pair ∈ stage.pairs (2 ^ m) := by
      rw [← flatMap_pairs_shareOf divides]
      exact List.mem_flatMap.2 ⟨w, List.mem_range.2 inside, member⟩
    obtain ⟨low, -, at_⟩ := Stage.mem_pairs_iff.1 among
    have high := Stage.upper_pairAt_lt fits listed low
    rw [← at_] at high
    obtain ⟨upper, lowerDirection, upperDirection⟩ := Stage.upper_eq_add_of_mem_pairs fits listed member
    refine ⟨upper, high, fun v _ => ⟨fun other => eq_of_mem_segments_shareOf other owned, ?_⟩, lowerDirection,
      upperDirection⟩
    rintro rfl
    exact owned

/-- Four workers for eight segments in the stage at distance four: the second worker merges its two segments
with those of the fourth, which lists no pair. -/
theorem shares_cover_stage_eight :
    2 ^ 3 < Word.capacity ∧ 4 ∣ 2 ^ 3 ∧ ⟨8, 4⟩ ∈ stages (2 ^ 3) ∧
    ∃ share : Nat → Partition, (share 1).pairs ⟨8, 4⟩ =
        [⟨⟨8, 4⟩, 2, 6, .ascending⟩, ⟨⟨8, 4⟩, 3, 7, .ascending⟩] ∧ (share 3).pairs ⟨8, 4⟩ = [] ∧
      (((List.range 4).flatMap fun w => (share w).pairs ⟨8, 4⟩).flatMap fun pair =>
        [pair.lower, pair.upper]).Perm (List.range 8) := by
  have fits : 2 ^ 3 < Word.capacity := by decide
  have divides : 4 ∣ 2 ^ 3 := by decide
  have listed : ⟨8, 4⟩ ∈ stages (2 ^ 3) := by decide
  obtain ⟨share, given, once, -⟩ := shares_cover_stage fits divides listed
  have second : share 1 = ⟨1, 2, 4⟩ := (Except.ok.inj (given 1 (by decide))).symm
  have fourth : share 3 = ⟨3, 6, 8⟩ := (Except.ok.inj (given 3 (by decide))).symm
  exact ⟨fits, divides, listed, share, by rw [second]; decide, by rw [fourth]; decide, once⟩

end SortNetwork.Parallel
