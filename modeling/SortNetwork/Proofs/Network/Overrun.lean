import Mathlib
import SortNetwork.Proofs.Network.Shape

/-!
# SortNetwork.Proofs.Network.Overrun

Where the schedule leaves a network whose segments do not number a power of two.

In a stage at distance `d` partners stand in the same block of `2 * d` segments, so nobody's partner is
missing as long as the segments fill blocks of that size.  With `b` the largest power of two that divides
their number, that is so at all distances below `b`.  In the first stage at distance `b` there is half a
block at the end, and its first segment finds its partner just past the end.

* `within_of_dvd`: the stages of a network of `2 ^ e` segments stay within each multiple of `2 ^ e`.
* `exists_schedule_overrun`: what comes before the first pair that does not.
-/

namespace SortNetwork

/-- Both segments of a pair are among the first `n`, the lower one first. -/
structure Pair.Within (pair : Pair) (n : Nat) : Prop where
  lower_lt_upper : pair.lower < pair.upper
  upper_lt : pair.upper < n

theorem Pair.Within.mono {pair : Pair} {n k : Nat} (h : pair.Within n) (le : n ≤ k) : pair.Within k :=
  ⟨h.lower_lt_upper, h.upper_lt.trans_le le⟩

/-- The pair that leaves a network of `n` segments, for `b` the largest power of two that divides `n`. -/
def overrun (n b : Nat) : Pair where
  stage := ⟨2 * b, b⟩
  lower := n - b
  upper := n
  direction := Stage.direction ⟨2 * b, b⟩ (n - b)

variable {n e q : Nat}

/-- In a stage at distance `2 ^ y`, nobody's partner is missing if the segments fill blocks of twice that
size. -/
theorem Stage.within_of_mem_pairs {x y : Nat} (whole : 2 ^ (y + 1) ∣ n) {pair : Pair}
    (member : pair ∈ pairs ⟨2 ^ x, 2 ^ y⟩ n) : pair.Within n := by
  obtain ⟨inside, ordered, -⟩ := mem_pairs_iff.1 member
  refine ⟨ordered, ?_⟩
  obtain ⟨blocks, rfl⟩ := whole
  rw [Nat.mul_comm, ← Nat.div_lt_iff_lt_mul (Nat.two_pow_pos _)] at inside ⊢
  rw [upper_of_mem_pairs member, xor_div_of_lt (Nat.lt_succ_self y)]
  exact inside

/-- The stages of a network of `2 ^ e` segments stay within each multiple of `2 ^ e`. -/
theorem within_of_dvd (fits : 2 ^ e < Word.capacity) (whole : 2 ^ e ∣ n) {stage : Stage}
    (listed : stage ∈ stages (2 ^ e)) {pair : Pair} (member : pair ∈ stage.pairs n) : pair.Within n := by
  obtain ⟨x, y, below, high, rfl⟩ := (mem_stages_iff fits).1 listed
  rw [Nat.log2_two_pow] at high
  exact Stage.within_of_mem_pairs ((Nat.pow_dvd_pow 2 (by omega)).trans whole) member

/-- The schedule for a power of two stays within the network. -/
theorem within_of_mem_schedule (fits : 2 ^ e < Word.capacity) {pair : Pair}
    (member : pair ∈ schedule (2 ^ e)) : pair.Within (2 ^ e) := by
  obtain ⟨stage, listed, member⟩ := List.mem_flatMap.1 member
  exact within_of_dvd fits (dvd_refl _) listed member

/-- Consecutive numbers up to one of them, and from there on. -/
theorem range'_add_succ (s k r : Nat) :
    List.range' s (k + (r + 1)) = List.range' s k ++ (s + k) :: List.range' (s + k + 1) r := by
  rw [← List.range'_append_1, List.range'_succ]

/-- The stages of a network of `2 ^ e` segments come first, and the next is the first at distance
`2 ^ e`. -/
theorem exists_stages_cons (fits : n < Word.capacity) (large : 2 ^ (e + 1) ≤ n) :
    ∃ later, stages n = stages (2 ^ e) ++ ⟨2 ^ (e + 1), 2 ^ e⟩ :: later := by
  have positive : n ≠ 0 := ((Nat.two_pow_pos _).trans_le large).ne'
  have small : 2 ^ e < Word.capacity :=
    (Nat.pow_le_pow_right (by decide) (Nat.le_succ e)).trans_lt (large.trans_lt fits)
  obtain ⟨r, high⟩ := Nat.exists_eq_add_of_le ((Nat.le_log2 positive).2 large)
  rw [stages_eq fits, stages_eq small, Nat.log2_two_pow, high, Nat.add_assoc, Nat.add_comm 1 r,
    range'_add_succ, List.flatMap_append, List.flatMap_cons, Nat.add_comm 1 e, List.range_succ,
    List.reverse_append, List.map_append]
  exact ⟨_, rfl⟩

/-- In the stage at distance `2 ^ e`, half a block at the end leaves the network with its first segment. -/
theorem exists_pairs_overrun :
    ∃ later, Stage.pairs ⟨2 ^ (e + 1), 2 ^ e⟩ (2 ^ (e + 1) * q + 2 ^ e) =
      Stage.pairs ⟨2 ^ (e + 1), 2 ^ e⟩ (2 ^ (e + 1) * q) ++
        overrun (2 ^ (e + 1) * q + 2 ^ e) (2 ^ e) :: later := by
  have even : 2 ^ (e + 1) * q / 2 ^ e % 2 = 0 := by
    rw [Nat.pow_succ, Nat.mul_assoc, Nat.mul_div_cancel_left _ (Nat.two_pow_pos e), Nat.mul_mod_right]
  have partner : Stage.partner? ⟨2 ^ (e + 1), 2 ^ e⟩ (2 ^ (e + 1) * q) =
      some (2 ^ (e + 1) * q + 2 ^ e) := by
    refine Stage.partner?_eq_some_iff.2 ⟨?_, Nat.lt_add_of_pos_right (Nat.two_pow_pos e)⟩
    rw [xor_two_pow, if_pos even]
  have found : Stage.pair? ⟨2 ^ (e + 1), 2 ^ e⟩ (2 ^ (e + 1) * q) =
      some (overrun (2 ^ (e + 1) * q + 2 ^ e) (2 ^ e)) := by
    rw [Stage.pair?, partner, Option.map_some, overrun, Nat.add_sub_cancel, Nat.pow_succ, Nat.mul_comm 2]
  obtain ⟨r, more⟩ := Nat.exists_eq_add_of_lt (Nat.two_pow_pos e)
  have ids : List.range (2 ^ (e + 1) * q + 2 ^ e) =
      List.range (2 ^ (e + 1) * q) ++ 2 ^ (e + 1) * q :: List.range' (2 ^ (e + 1) * q + 1) r := by
    rw [more, Nat.zero_add, List.range_eq_range', List.range_eq_range', range'_add_succ, Nat.zero_add]
  rw [Stage.pairs, Stage.pairsAmong, ids, List.filterMap_append, List.filterMap_cons_some found]
  exact ⟨_, rfl⟩

/-- The schedule for a number that is no power of two stays within the network up to the first pair at the
distance of its largest power of two, and that pair leaves it. -/
theorem exists_schedule_overrun (fits : n < Word.capacity) (positive : 0 < q)
    (split : n = 2 ^ e * (2 * q + 1)) :
    ∃ before after, schedule n = before ++ overrun n (2 ^ e) :: after ∧ ∀ pair ∈ before, pair.Within n := by
  have blocks : n = 2 ^ (e + 1) * q + 2 ^ e := by
    rw [split, Nat.pow_succ]
    ring
  have large : 2 ^ (e + 1) ≤ n := by
    rw [blocks]
    exact (Nat.le_mul_of_pos_right _ positive).trans (Nat.le_add_right ..)
  have small : 2 ^ e < Word.capacity :=
    (Nat.pow_le_pow_right (by decide) (Nat.le_succ e)).trans_lt (large.trans_lt fits)
  obtain ⟨later, listed⟩ := exists_stages_cons fits large
  obtain ⟨others, paired⟩ := exists_pairs_overrun (e := e) (q := q)
  rw [← blocks] at paired
  refine ⟨(stages (2 ^ e)).flatMap (fun stage => stage.pairs n) ++
    Stage.pairs ⟨2 ^ (e + 1), 2 ^ e⟩ (2 ^ (e + 1) * q), others ++ later.flatMap fun stage => stage.pairs n,
    ?_, ?_⟩
  · rw [schedule, listed, List.flatMap_append, List.flatMap_cons, paired]
    simp only [List.append_assoc, List.cons_append]
  · intro pair member
    rcases List.mem_append.1 member with early | last
    · obtain ⟨stage, here, member⟩ := List.mem_flatMap.1 early
      exact within_of_dvd small (Dvd.intro _ split.symm) here member
    · refine (Stage.within_of_mem_pairs (Nat.dvd_mul_right ..) last).mono ?_
      rw [blocks]
      exact Nat.le_add_right ..

/-! ## the largest power of two that divides a number -/

/-- A number that is neither zero nor a power of two is a power of two times an odd number above one. -/
theorem exists_eq_two_pow_mul (nonzero : n ≠ 0) (other : ¬n.isPowerOfTwo) :
    ∃ e q, 0 < q ∧ n = 2 ^ e * (2 * q + 1) := by
  obtain ⟨e, _, ⟨q, rfl⟩, split⟩ := Nat.exists_eq_two_pow_mul_odd nonzero
  refine ⟨e, q, Nat.pos_of_ne_zero ?_, split⟩
  rintro rfl
  exact other ⟨e, by simpa using split⟩

theorem isGreatest_two_pow (split : n = 2 ^ e * (2 * q + 1)) :
    IsGreatest {b | b.isPowerOfTwo ∧ b ∣ n} (2 ^ e) := by
  refine ⟨⟨⟨e, rfl⟩, Dvd.intro _ split.symm⟩, ?_⟩
  rintro _ ⟨⟨k, rfl⟩, divides⟩
  refine Nat.pow_le_pow_right (by decide) (Nat.le_of_not_lt fun above => ?_)
  have next : 2 ^ e * 2 ∣ 2 ^ e * (2 * q + 1) := by
    rw [← split, ← Nat.pow_succ]
    exact (Nat.pow_dvd_pow 2 above).trans divides
  have := Nat.dvd_of_mul_dvd_mul_left (Nat.two_pow_pos e) next
  omega

end SortNetwork
