import Mathlib
import SortNetwork.Network.Stage

/-!
# SortNetwork.Proofs.Network.Shape

The stages in closed form, and the pairs of a stage.

The stages are those of two nested loops: `(2 ^ x, 2 ^ y)` with `x` growing from one up to the logarithm
of the number of segments, and `y` falling from `x - 1` to zero.  In a stage at distance `2 ^ y`, a
segment whose bit `y` is clear is paired with the one `2 ^ y` further on, and every segment stands in one
pair (`Stage.pairAt`).

* `stages_eq`, `length_stages`: the list of the stages, and how long it is.
* `pairwise_before_stages`: the blocks grow from stage to stage, and for the same blocks the distances shrink.
* `take_stages`, `filter_stages`: a network begins with the stages of each smaller one.
* `mem_pairs_iff`: the pairs of a stage are those at its segments.
* `eq_pairAt_of_mem_touching`: a segment occurs in no pair but its own.
* `flatMap_pairs_perm`: every segment stands in one pair of a stage, and in one place of it.
-/

namespace SortNetwork

/-! ## bits -/

/-- Flipping a bit adds its value or takes it away. -/
theorem xor_two_pow (i y : Nat) :
    i ^^^ 2 ^ y = if i / 2 ^ y % 2 = 0 then i + 2 ^ y else i - 2 ^ y := by
  have hdiv : (i ^^^ 2 ^ y) / 2 ^ y = (i / 2 ^ y) ^^^ 1 := by
    rw [Nat.xor_div_two_pow, Nat.div_self (Nat.two_pow_pos y)]
  have hmod : (i ^^^ 2 ^ y) % 2 ^ y = i % 2 ^ y := by
    rw [Nat.xor_mod_two_pow, Nat.mod_self, Nat.xor_zero]
  have hflip := Nat.div_add_mod (i ^^^ 2 ^ y) (2 ^ y)
  have hi := Nat.div_add_mod i (2 ^ y)
  rw [hdiv, hmod] at hflip
  split
  · next even =>
    rw [Nat.xor_one_of_even (Nat.even_iff.2 even), Nat.mul_add] at hflip
    omega
  · next odd =>
    have hodd : Odd (i / 2 ^ y) := Nat.not_even_iff_odd.1 fun even => odd (Nat.even_iff.1 even)
    rw [Nat.xor_one_of_odd hodd, Nat.mul_sub] at hflip
    have : 2 ^ y * 1 ≤ 2 ^ y * (i / 2 ^ y) := Nat.mul_le_mul_left _ hodd.pos
    omega

/-- Flipping a bit leaves the quotient by a larger power of two alone. -/
theorem xor_div_of_lt {i y x : Nat} (below : y < x) : (i ^^^ 2 ^ y) / 2 ^ x = i / 2 ^ x := by
  rw [Nat.xor_div_two_pow, Nat.div_eq_of_lt (Nat.pow_lt_pow_right (by decide) below), Nat.xor_zero]

/-- A bit is clear exactly when the quotient by its value is even. -/
theorem and_two_pow_eq_zero_iff (i x : Nat) : i &&& 2 ^ x = 0 ↔ i / 2 ^ x % 2 = 0 := by
  rw [Nat.and_two_pow, Nat.testBit_eq_decide_div_mod_eq]
  by_cases h : i / 2 ^ x % 2 = 1
  · simp [h]
  · simp [show i / 2 ^ x % 2 = 0 by omega]

/-! ## the stages -/

theorem halvings_two_pow {left y : Nat} (h : y < left) :
    halvings left (2 ^ y) = (List.range (y + 1)).reverse.map (2 ^ ·) := by
  induction y generalizing left with
  | zero =>
    obtain ⟨left, rfl⟩ := Nat.exists_eq_add_of_lt h
    simp [halvings]
  | succ y ih =>
    obtain ⟨left, rfl⟩ : ∃ l, left = l + 1 := ⟨left - 1, by omega⟩
    have large : 1 < 2 ^ (y + 1) := Nat.one_lt_two_pow (by omega)
    have half : 2 ^ (y + 1) / 2 = 2 ^ y := by rw [Nat.pow_succ, Nat.mul_div_cancel _ (by decide)]
    rw [halvings, if_pos large, half, ih (by omega), List.range_succ (n := y + 1),
      List.reverse_append, List.map_append]
    rfl

/-- Doubling goes on up to the logarithm of the limit, and never past the end of a word. -/
theorem doublings_two_pow {left x n : Nat} (pos : n ≠ 0) (fits : n < Word.capacity)
    (enough : n.log2 < x + left) :
    doublings left (2 ^ x) n = (List.range' x (n.log2 + 1 - x)).map (2 ^ ·) := by
  induction left generalizing x with
  | zero => simp [doublings, show n.log2 + 1 - x = 0 by omega]
  | succ left ih =>
    rw [doublings]
    by_cases below : 2 ^ x ≤ n
    · have hx : x ≤ n.log2 := (Nat.le_log2 pos).2 below
      have more : n.log2 + 1 - x = (n.log2 - x) + 1 := by omega
      rw [if_pos below, more, List.range'_succ, List.map_cons]
      congr 1
      by_cases next : 2 ^ (x + 1) < Word.capacity
      · rw [Word.mul, ← Nat.pow_succ, if_pos next]
        rw [show n.log2 - x = n.log2 + 1 - (x + 1) by omega]
        exact ih (by omega)
      · have last : n.log2 = x := by
          have : n.log2 < x + 1 := by
            rw [Nat.log2_lt pos]
            omega
          omega
        rw [Word.mul, ← Nat.pow_succ, if_neg next, last]
        simp
    · have hx : ¬x ≤ n.log2 := fun h => below ((Nat.le_log2 pos).1 h)
      rw [if_neg below, show n.log2 + 1 - x = 0 by omega]
      rfl

theorem log2_lt_bits {n : Nat} (fits : n < Word.capacity) : n.log2 < Word.bits := by
  by_cases pos : n = 0
  · subst pos
    decide
  · rw [Nat.log2_lt pos]
    exact fits

/-- The stages are those of two nested loops. -/
theorem stages_eq {n : Nat} (fits : n < Word.capacity) :
    stages n = (List.range' 1 n.log2).flatMap fun x =>
      (List.range x).reverse.map fun y => ⟨2 ^ x, 2 ^ y⟩ := by
  by_cases pos : n = 0
  · subst pos
    rfl
  have few := log2_lt_bits fits
  have outer : doublings Word.bits 2 n = (List.range' 1 n.log2).map (2 ^ ·) :=
    doublings_two_pow (x := 1) pos fits (by omega)
  rw [stages, outer, List.flatMap_map]
  apply List.flatMap_congr
  intro x member
  obtain ⟨low, high⟩ := List.mem_range'_1.1 member
  obtain ⟨z, rfl⟩ : ∃ z, x = z + 1 := ⟨x - 1, by omega⟩
  have half : 2 ^ (z + 1) / 2 = 2 ^ z := by rw [Nat.pow_succ, Nat.mul_div_cancel _ (by decide)]
  rw [half, halvings_two_pow (by omega), List.map_map]
  rfl

theorem mem_stages_iff {n : Nat} (fits : n < Word.capacity) {stage : Stage} :
    stage ∈ stages n ↔ ∃ x y, y < x ∧ x ≤ n.log2 ∧ stage = ⟨2 ^ x, 2 ^ y⟩ := by
  rw [stages_eq fits]
  simp only [List.mem_flatMap, List.mem_range'_1, List.mem_map, List.mem_reverse, List.mem_range]
  constructor
  · rintro ⟨x, ⟨_, high⟩, y, below, rfl⟩
    exact ⟨x, y, below, by omega, rfl⟩
  · rintro ⟨x, y, below, high, rfl⟩
    exact ⟨x, by omega, y, below, rfl⟩

/-- Larger blocks come later, and so do smaller distances of the same blocks. -/
def Stage.Before (first second : Stage) : Prop :=
  first.k < second.k ∨ first.k = second.k ∧ second.j < first.j

theorem Stage.Before.ne {first second : Stage} (h : first.Before second) : first ≠ second := by
  rintro rfl
  rcases h with smaller | ⟨-, wider⟩
  · exact Nat.lt_irrefl _ smaller
  · exact Nat.lt_irrefl _ wider

/-- The stages are listed in their order. -/
theorem pairwise_before_stages {n : Nat} (fits : n < Word.capacity) :
    (stages n).Pairwise Stage.Before := by
  rw [stages_eq fits, List.pairwise_flatMap]
  constructor
  · intro x _
    rw [List.pairwise_map, List.pairwise_reverse]
    exact List.pairwise_lt_range.imp fun below => .inr ⟨rfl, Nat.pow_lt_pow_right (by decide) below⟩
  · refine (List.pairwise_lt_range' 1).imp ?_
    intro x z below stage first later second
    obtain ⟨y, _, rfl⟩ := List.mem_map.1 first
    obtain ⟨w, _, rfl⟩ := List.mem_map.1 second
    exact .inl (Nat.pow_lt_pow_right (by decide) below)

/-- No stage is performed twice. -/
theorem nodup_stages {n : Nat} (fits : n < Word.capacity) : (stages n).Nodup :=
  (pairwise_before_stages fits).imp Stage.Before.ne

/-- There are as many stages as `stageCount` says. -/
theorem length_stages {n : Nat} (fits : n < Word.capacity) : (stages n).length = stageCount n := by
  have triangle : ∀ m, 2 * ((List.range' 1 m).map fun x => x).sum = m * (m + 1) := by
    intro m
    induction m with
    | zero => rfl
    | succ m ih =>
      rw [List.range'_concat, List.map_append, List.sum_append, Nat.mul_add, ih]
      simp only [Nat.one_mul, List.map_cons, List.map_nil, List.sum_singleton]
      ring
  rw [stages_eq fits, List.length_flatMap, stageCount]
  simp only [List.length_map, List.length_reverse, List.length_range]
  have := triangle n.log2
  split
  · next small =>
    have : n.log2 = 0 := by
      rcases show n = 0 ∨ n = 1 by omega with rfl | rfl <;> decide
    rw [this]
    rfl
  · omega

/-- No network has more stages than one with a segment for every number below `2 ^ 63`. -/
theorem stageCount_le_of_fits {n : Nat} (fits : n < Word.capacity) :
    stageCount n ≤ (Word.bits - 1) * Word.bits / 2 := by
  have few := log2_lt_bits fits
  unfold stageCount
  split
  · exact Nat.zero_le _
  · exact Nat.div_le_div_right (Nat.mul_le_mul (by omega) few)

/-- A smaller power of two fits into a word too. -/
theorem two_pow_lt_capacity {m x : Nat} (fits : 2 ^ m < Word.capacity) (within : x ≤ m) :
    2 ^ x < Word.capacity :=
  (Nat.pow_le_pow_right (by decide) within).trans_lt fits

/-- The stages of a smaller network come first, and all later ones belong to larger blocks. -/
theorem exists_stages_append {m x : Nat} (fits : 2 ^ m < Word.capacity) (within : x ≤ m) :
    ∃ later, stages (2 ^ m) = stages (2 ^ x) ++ later ∧ ∀ stage ∈ later, 2 ^ x < stage.k := by
  have small := two_pow_lt_capacity fits within
  have split : List.range' 1 m = List.range' 1 x ++ List.range' (1 + x) (m - x) := by
    rw [List.range'_append_1, Nat.add_sub_cancel' within]
  refine ⟨(List.range' (1 + x) (m - x)).flatMap fun z => (List.range z).reverse.map fun y =>
    ⟨2 ^ z, 2 ^ y⟩, ?_, fun stage member => ?_⟩
  · rw [stages_eq fits, stages_eq small, Nat.log2_two_pow, Nat.log2_two_pow, split, List.flatMap_append]
  · obtain ⟨z, large, here⟩ := List.mem_flatMap.1 member
    obtain ⟨y, -, rfl⟩ := List.mem_map.1 here
    have := (List.mem_range'_1.1 large).1
    exact Nat.pow_lt_pow_right (by decide) (by omega)

theorem mem_stages_of_le {m x : Nat} (fits : 2 ^ m < Word.capacity) (within : x ≤ m) :
    ∀ stage ∈ stages (2 ^ x), stage ∈ stages (2 ^ m) := by
  obtain ⟨later, split, -⟩ := exists_stages_append fits within
  intro stage listed
  rw [split]
  exact List.mem_append_left later listed

/-- The stages of a smaller network are as many of the first ones. -/
theorem take_stages {m x : Nat} (fits : 2 ^ m < Word.capacity) (within : x ≤ m) :
    (stages (2 ^ m)).take (stageCount (2 ^ x)) = stages (2 ^ x) := by
  have small := two_pow_lt_capacity fits within
  obtain ⟨later, split, -⟩ := exists_stages_append fits within
  rw [split, ← length_stages small, List.take_left']
  rfl

/-- A smaller network has no more stages. -/
theorem stageCount_le {m x : Nat} (fits : 2 ^ m < Word.capacity) (within : x ≤ m) :
    stageCount (2 ^ x) ≤ stageCount (2 ^ m) := by
  have small := two_pow_lt_capacity fits within
  obtain ⟨later, split, -⟩ := exists_stages_append fits within
  rw [← length_stages small, ← length_stages fits, split, List.length_append]
  exact Nat.le_add_right ..

/-- The stages of a smaller network are those whose blocks are no larger than it. -/
theorem filter_stages {m x : Nat} (fits : 2 ^ m < Word.capacity) (within : x ≤ m) :
    (stages (2 ^ m)).filter (fun stage => stage.k ≤ 2 ^ x) = stages (2 ^ x) := by
  have small := two_pow_lt_capacity fits within
  obtain ⟨later, split, larger⟩ := exists_stages_append fits within
  have first : (stages (2 ^ x)).filter (fun stage => stage.k ≤ 2 ^ x) = stages (2 ^ x) := by
    rw [List.filter_eq_self]
    intro stage listed
    obtain ⟨z, y, -, high, rfl⟩ := (mem_stages_iff small).1 listed
    rw [Nat.log2_two_pow] at high
    exact decide_eq_true (Nat.pow_le_pow_right (by decide) high)
  have rest : later.filter (fun stage => stage.k ≤ 2 ^ x) = [] := by
    rw [List.filter_eq_nil_iff]
    intro stage member
    simpa using larger stage member
  rw [split, List.filter_append, first, rest, List.append_nil]

/-! ## the pair of a segment -/

namespace Stage

/-- The pair in which a segment stands. -/
def pairAt (stage : Stage) (i : Nat) : Pair :=
  let lower := min i (i ^^^ stage.j)
  { stage, lower, upper := max i (i ^^^ stage.j), direction := stage.direction lower }

variable {stage : Stage} {n i : Nat}

@[simp] theorem stage_pairAt : (stage.pairAt i).stage = stage := rfl

theorem lower_pairAt : (stage.pairAt i).lower = min i (i ^^^ stage.j) := rfl

theorem upper_pairAt : (stage.pairAt i).upper = max i (i ^^^ stage.j) := rfl

/-- Both segments of a pair name the same pair. -/
theorem pairAt_xor : stage.pairAt (i ^^^ stage.j) = stage.pairAt i := by
  have back : i ^^^ stage.j ^^^ stage.j = i := by rw [Nat.xor_assoc, Nat.xor_self, Nat.xor_zero]
  unfold pairAt
  rw [back, min_comm, max_comm]

/-- A segment is one of the two in its pair. -/
theorem eq_lower_or_upper_pairAt : i = (stage.pairAt i).lower ∨ i = (stage.pairAt i).upper := by
  rw [lower_pairAt, upper_pairAt]
  omega

/-- Both segments of the pair at a segment have that pair. -/
theorem pairAt_lower : stage.pairAt (stage.pairAt i).lower = stage.pairAt i := by
  rw [lower_pairAt]
  rcases min_choice i (i ^^^ stage.j) with h | h <;> rw [h]
  exact pairAt_xor

theorem pairAt_upper : stage.pairAt (stage.pairAt i).upper = stage.pairAt i := by
  rw [upper_pairAt]
  rcases max_choice i (i ^^^ stage.j) with h | h <;> rw [h]
  exact pairAt_xor

theorem mem_pairs_iff {pair : Pair} :
    pair ∈ stage.pairs n ↔ pair.lower < n ∧ pair.lower < pair.upper ∧ pair = stage.pairAt pair.lower := by
  obtain ⟨of, lower, upper, direction⟩ := pair
  rw [pairs, mem_pairsAmong_iff, partner?_eq_some_iff, List.mem_range]
  simp only [pairAt, Pair.mk.injEq]
  constructor
  · rintro ⟨inside, rfl, ⟨rfl, below⟩, rfl⟩
    have : min lower (lower ^^^ of.j) = lower := by omega
    rw [this]
    exact ⟨inside, below, rfl, rfl, by omega, rfl⟩
  · rintro ⟨inside, below, rfl, first, second, same⟩
    rw [← first] at same
    exact ⟨inside, rfl, ⟨by omega, below⟩, same⟩

/-- A segment occurs in no pair of a stage but its own. -/
theorem eq_pairAt_of_mem_touching {pair : Pair} (member : pair ∈ stage.pairs n)
    (touches : i = pair.lower ∨ i = pair.upper) : pair = stage.pairAt i := by
  obtain ⟨_, below, eq⟩ := mem_pairs_iff.1 member
  rcases touches with rfl | rfl
  · exact eq
  · rw [eq, pairAt_upper]

/-- No pair is listed twice. -/
theorem nodup_pairs : (stage.pairs n).Nodup := by
  refine List.nodup_range.filterMap fun a b pair ha hb => ?_
  simp only [pair?, Option.mem_def, Option.map_eq_some_iff] at ha hb
  obtain ⟨_, _, rfl⟩ := ha
  obtain ⟨_, _, same⟩ := hb
  exact (congrArg Pair.lower same).symm

/-! ## stages of the network -/

/-- The pair at a segment whose bit is clear: the other segment stands `2 ^ y` further on. -/
theorem pairAt_of_even {x y : Nat} (even : i / 2 ^ y % 2 = 0) :
    pairAt ⟨2 ^ x, 2 ^ y⟩ i = ⟨⟨2 ^ x, 2 ^ y⟩, i, i + 2 ^ y, direction ⟨2 ^ x, 2 ^ y⟩ i⟩ := by
  have flipped : i ^^^ 2 ^ y = i + 2 ^ y := by rw [xor_two_pow, if_pos even]
  simp [pairAt, flipped]

theorem direction_two_pow {x y : Nat} :
    direction ⟨2 ^ x, 2 ^ y⟩ i = if i / 2 ^ x % 2 = 0 then .ascending else .descending := by
  simp only [direction, and_two_pow_eq_zero_iff]

variable {m : Nat}

/-- Every segment of the network has a partner inside the network. -/
theorem xor_lt_of_mem_stages (fits : 2 ^ m < Word.capacity) (listed : stage ∈ stages (2 ^ m))
    (inside : i < 2 ^ m) : i ^^^ stage.j < 2 ^ m := by
  obtain ⟨x, y, below, high, rfl⟩ := (mem_stages_iff fits).1 listed
  rw [Nat.log2_two_pow] at high
  exact Nat.xor_lt_two_pow inside (Nat.pow_lt_pow_right (by decide) (by omega))

/-- No segment of the network is its own partner. -/
theorem xor_ne_of_mem_stages (fits : n < Word.capacity) (listed : stage ∈ stages n) :
    i ^^^ stage.j ≠ i := by
  obtain ⟨x, y, below, high, rfl⟩ := (mem_stages_iff fits).1 listed
  intro same
  have : i ^^^ i ^^^ 2 ^ y = 0 := by rw [Nat.xor_assoc, same, Nat.xor_self]
  rw [Nat.xor_self, Nat.zero_xor] at this
  exact absurd this (Nat.two_pow_pos y).ne'

theorem lower_lt_upper_pairAt (fits : n < Word.capacity) (listed : stage ∈ stages n) :
    (stage.pairAt i).lower < (stage.pairAt i).upper := by
  have := xor_ne_of_mem_stages (i := i) fits listed
  rw [lower_pairAt, upper_pairAt]
  omega

theorem upper_pairAt_lt (fits : 2 ^ m < Word.capacity) (listed : stage ∈ stages (2 ^ m))
    (inside : i < 2 ^ m) : (stage.pairAt i).upper < 2 ^ m := by
  have := xor_lt_of_mem_stages fits listed inside
  rw [upper_pairAt]
  omega

/-- The pair of every segment belongs to the stage. -/
theorem pairAt_mem_pairs (fits : 2 ^ m < Word.capacity) (listed : stage ∈ stages (2 ^ m))
    (inside : i < 2 ^ m) : stage.pairAt i ∈ stage.pairs (2 ^ m) := by
  have := lower_lt_upper_pairAt (i := i) fits listed
  have := upper_pairAt_lt fits listed inside
  rw [mem_pairs_iff, pairAt_lower]
  exact ⟨by omega, by omega, rfl⟩

/-- Every segment stands in one pair of the stage, and in one place of it. -/
theorem flatMap_pairs_perm (fits : 2 ^ m < Word.capacity) (listed : stage ∈ stages (2 ^ m)) :
    ((stage.pairs (2 ^ m)).flatMap fun pair => [pair.lower, pair.upper]).Perm (List.range (2 ^ m)) := by
  have nodup : ((stage.pairs (2 ^ m)).flatMap fun pair => [pair.lower, pair.upper]).Nodup := by
    rw [List.nodup_flatMap]
    constructor
    · intro pair member
      simpa using (mem_pairs_iff.1 member).2.1.ne
    · refine nodup_pairs.imp_of_mem fun {first second} hf hs distinct i here there => distinct ?_
      rw [eq_pairAt_of_mem_touching hf (by simpa using here),
        eq_pairAt_of_mem_touching hs (by simpa using there)]
  refine (List.perm_ext_iff_of_nodup nodup List.nodup_range).2 fun i => ?_
  rw [List.mem_range, List.mem_flatMap]
  constructor
  · rintro ⟨pair, member, touched⟩
    obtain ⟨inside, -, at_⟩ := mem_pairs_iff.1 member
    have := upper_pairAt_lt fits listed inside
    rw [← at_] at this
    rcases show i = pair.lower ∨ i = pair.upper by simpa using touched with rfl | rfl
    · exact inside
    · exact this
  · intro inside
    exact ⟨_, pairAt_mem_pairs fits listed inside, by simpa using eq_lower_or_upper_pairAt⟩

/-- In a pair the upper segment stands `j` further on, and both are merged in the direction of the pair. -/
theorem upper_eq_add_of_mem_pairs (fits : n < Word.capacity) (listed : stage ∈ stages n) {ids : List Nat}
    {pair : Pair} (member : pair ∈ stage.pairsAmong ids) :
    pair.upper = pair.lower + stage.j ∧ stage.direction pair.lower = pair.direction ∧
      stage.direction pair.upper = pair.direction := by
  obtain ⟨x, y, below, -, rfl⟩ := (mem_stages_iff fits).1 listed
  have lower := lower_lt_upper_of_mem_pairs member
  have upper : pair.upper = pair.lower ^^^ 2 ^ y := upper_of_mem_pairs member
  have direction := direction_of_mem_pairs member
  refine ⟨?_, direction.symm, ?_⟩
  · rw [upper, xor_two_pow] at lower ⊢
    split at lower
    · next even => rw [if_pos even]
    · exact absurd lower (Nat.not_lt.2 (Nat.sub_le ..))
  · rw [direction, direction_two_pow, direction_two_pow, upper, xor_div_of_lt below]

end Stage

end SortNetwork
