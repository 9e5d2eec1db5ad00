import SortNetwork.Direction
import SortNetwork.Word

/-!
# SortNetwork.Network.Stage

The shape of the bitonic network over `n` segments.

The network is a list of stages.  Stage `(k, j)` pairs every segment `i` with segment `i ^^^ j`; the lower
of the two receives the front of the merged run, and the merge ascends where the bit `k` of `i` is clear.
Blocks of `k` segments thus become sorted in alternating directions, for `k = 2, 4, …`, each through the
distances `j = k / 2, …, 1`.

* `lower_lt_upper_of_mem_pairs`: a pair lists its lower segment first.
* `upper_of_mem_pairs`, `direction_of_mem_pairs`: what a pair of a stage is made of.
-/

namespace SortNetwork

/-- One pass of the network: blocks of `k` segments, pairs at distance `j`. -/
structure Stage where
  k : Nat
  j : Nat
  deriving DecidableEq, Repr

/-- A merge of the network: the stage it belongs to, the two segments and the direction. -/
structure Pair where
  stage : Stage
  lower : Nat
  upper : Nat
  direction : Direction
  deriving DecidableEq, Repr

namespace Stage

/-- The partner of segment `i`, if `i` is the lower segment of its pair. -/
def partner? (stage : Stage) (i : Nat) : Option Nat :=
  if i < i ^^^ stage.j then some (i ^^^ stage.j) else none

/-- The direction in which the pair of segment `i` is merged. -/
def direction (stage : Stage) (i : Nat) : Direction :=
  if i &&& stage.k = 0 then .ascending else .descending

/-- The pair whose lower segment is `i`. -/
def pair? (stage : Stage) (i : Nat) : Option Pair :=
  (stage.partner? i).map fun upper =>
    { stage, lower := i, upper, direction := stage.direction i }

/-- The pairs whose lower segment is one of `ids`, in their order. -/
def pairsAmong (stage : Stage) (ids : List Nat) : List Pair := ids.filterMap stage.pair?

/-- All pairs of the stage among `n` segments, in increasing order of the lower segment. -/
def pairs (stage : Stage) (n : Nat) : List Pair := stage.pairsAmong (List.range n)

end Stage

/-! ## the schedule -/

/-- The numbers `k`, `2 * k`, `4 * k`, … up to `limit`, as long as they fit into a word; at most `left`. -/
def doublings : (left k limit : Nat) → List Nat
  | 0, _, _ => []
  | left + 1, k, limit =>
    if k ≤ limit then
      k :: match Word.mul k 2 with
        | .ok next => doublings left next limit
        | .error _ => []
    else []

/-- The numbers `j`, `j / 2`, `j / 4`, … down to one; at most `left`. -/
def halvings : (left j : Nat) → List Nat
  | 0, _ => []
  | left + 1, j => j :: if 1 < j then halvings left (j / 2) else []

/-- All stages for `n` segments in the order in which they are performed.  A word can be doubled, and
halved, no more often than it has bits. -/
def stages (n : Nat) : List Stage :=
  (doublings Word.bits 2 n).flatMap fun k => (halvings Word.bits (k / 2)).map fun j => ⟨k, j⟩

/-- The number of stages for `2 ^ m` segments, `m * (m + 1) / 2`. -/
def stageCount (n : Nat) : Nat :=
  if n < 2 then 0 else n.log2 * (n.log2 + 1) / 2

/-- All merges for `n` segments, in order: the schedule that one worker follows. -/
def schedule (n : Nat) : List Pair := (stages n).flatMap fun stage => stage.pairs n

/-! ## the parts of a pair -/

namespace Stage

variable {stage : Stage}

theorem partner?_eq_some_iff {i upper : Nat} :
    stage.partner? i = some upper ↔ upper = i ^^^ stage.j ∧ i < upper := by
  unfold partner?
  split
  · next h =>
    rw [Option.some.injEq]
    constructor
    · rintro rfl
      exact ⟨rfl, h⟩
    · rintro ⟨rfl, _⟩
      rfl
  · next h =>
    constructor
    · intro absurdity
      cases absurdity
    · rintro ⟨rfl, h'⟩
      exact absurd h' h

theorem mem_pairsAmong_iff {ids : List Nat} {pair : Pair} :
    pair ∈ stage.pairsAmong ids ↔
      pair.lower ∈ ids ∧ pair.stage = stage ∧ stage.partner? pair.lower = some pair.upper ∧
        pair.direction = stage.direction pair.lower := by
  simp only [pairsAmong, List.mem_filterMap, pair?, Option.map_eq_some_iff]
  constructor
  · rintro ⟨i, member, upper, found, rfl⟩
    exact ⟨member, rfl, found, rfl⟩
  · rintro ⟨member, rfl, found, same⟩
    refine ⟨pair.lower, member, pair.upper, found, ?_⟩
    rw [← same]

/-- A pair lists its lower segment first. -/
theorem lower_lt_upper_of_mem_pairs {ids : List Nat} {pair : Pair}
    (h : pair ∈ stage.pairsAmong ids) : pair.lower < pair.upper :=
  (partner?_eq_some_iff.1 (mem_pairsAmong_iff.1 h).2.2.1).2

/-- The upper segment of a pair stands at the distance of the stage. -/
theorem upper_of_mem_pairs {ids : List Nat} {pair : Pair} (h : pair ∈ stage.pairsAmong ids) :
    pair.upper = pair.lower ^^^ stage.j :=
  (partner?_eq_some_iff.1 (mem_pairsAmong_iff.1 h).2.2.1).1

/-- The direction of a pair is that of its lower segment. -/
theorem direction_of_mem_pairs {ids : List Nat} {pair : Pair} (h : pair ∈ stage.pairsAmong ids) :
    pair.direction = stage.direction pair.lower :=
  (mem_pairsAmong_iff.1 h).2.2.2

end Stage

end SortNetwork
