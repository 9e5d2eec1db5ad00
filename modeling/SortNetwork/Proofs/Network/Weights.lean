import Mathlib
import SortNetwork.Proofs.Network.Cells

/-!
# SortNetwork.Proofs.Network.Weights

The network on weights: it heaps the weight up at one end.

Count in every segment the elements that lie above some bound.  A merge moves as many of them as fit to
one side, so the counts follow the rule of weights.  Lay `total` units in a row around a circle of cells,
from `start` on: the cells then hold an `arc`.  A rising heap followed by a falling one is an arc;
folding a circle in half gives an arc on half the cells (`arc_fold`), and cutting off what exceeds the
capacity, or keeping what does not, again leaves arcs (`arc_sub`, `min_arc`).  So a merge of two halves
turns one arc into two, of which one is empty or full, and after all distances of a phase each block is a
heap.

* `heaped_through_phase`: a phase turns heaps in alternating directions into heaps of twice the size.
* `heaped_through_stages`: the whole network leaves one rising heap, and the stages of a smaller network a
  heap in each block of its size.
* `heaped_full`: weight in a cell of a heap fills all cells that come after it.
-/

namespace SortNetwork

/-! ## arcs -/

/-- The weight of cell `i` when `total` units lie in a row from `start` on, around a circle of cells. -/
def arc (capacity cells start total i : Nat) : Nat :=
  (List.range' start total).countP fun unit => unit / capacity % cells == i

section Arc

variable {L N M p T i : Nat}

@[simp] theorem arc_zero : arc L N p 0 i = 0 := rfl

theorem arc_succ :
    arc L N p (T + 1) i = arc L N p T i + if (p + T) / L % N = i then 1 else 0 := by
  simp [arc, List.range'_concat]

theorem arc_add (S : Nat) : arc L N p (T + S) i = arc L N p T i + arc L N (p + T) S i := by
  rw [arc, ← List.range'_append_1, List.countP_append]
  rfl

/-- An arc that does not reach around the circle is an interval. -/
theorem arc_of_le (pos : 0 < L) (ends : p + T ≤ N * L) :
    arc L N p T i = min (p + T) (i * L + L) - max p (i * L) := by
  induction T with
  | zero =>
    rw [arc_zero]
    omega
  | succ T ih =>
    have cell : (p + T) / L < N := by
      rw [Nat.div_lt_iff_lt_mul pos]
      omega
    have place : (p + T) / L % N = i ↔ i * L ≤ p + T ∧ p + T < i * L + L := by
      rw [Nat.mod_eq_of_lt cell, Nat.div_eq_iff pos]
      omega
    rw [arc_succ, ih (by omega)]
    split
    · next h =>
      have := place.1 h
      omega
    · next h =>
      have := mt place.2 h
      omega

/-- Once around the circle fills every cell. -/
theorem arc_full (pos : 0 < L) (inside : i < N) : arc L N p (N * L) i = L := by
  induction p with
  | zero =>
    have : i * L + L ≤ N * L := by
      rw [← Nat.succ_mul]
      exact Nat.mul_le_mul_right L inside
    rw [arc_of_le pos (by omega)]
    omega
  | succ p ih =>
    have same : (p + N * L) / L % N = p / L % N := by
      rw [Nat.add_mul_div_right _ _ pos, Nat.add_mod_right]
    have slide : arc L N p (N * L + 1) i = arc L N p (1 + N * L) i := by rw [Nat.add_comm]
    rw [arc_succ, arc_add, same, ih, arc_succ, arc_zero, Nat.add_zero] at slide
    omega

/-- Folding a circle in half adds opposite cells. -/
theorem arc_fold (inside : i < M) :
    arc L (2 * M) p T i + arc L (2 * M) p T (i + M) = arc L M p T i := by
  induction T with
  | zero => rfl
  | succ T ih =>
    have halve : (p + T) / L % (2 * M) % M = (p + T) / L % M := Nat.mod_mul_left_mod _ 2 M
    have below : (p + T) / L % (2 * M) < 2 * M := Nat.mod_lt _ (by omega)
    have place : (p + T) / L % M = i ↔
        (p + T) / L % (2 * M) = i ∨ (p + T) / L % (2 * M) = i + M := by
      rw [← halve]
      generalize (p + T) / L % (2 * M) = u at below
      by_cases h : u < M
      · rw [Nat.mod_eq_of_lt h]
        omega
      · rw [Nat.mod_eq_sub_mod (by omega), Nat.mod_eq_of_lt (by omega)]
        omega
    simp only [arc_succ]
    by_cases h₁ : (p + T) / L % (2 * M) = i
    · have h₂ : ¬(p + T) / L % (2 * M) = i + M := by omega
      rw [if_pos h₁, if_neg h₂, if_pos (place.2 (.inl h₁))]
      omega
    · by_cases h₂ : (p + T) / L % (2 * M) = i + M
      · rw [if_neg h₁, if_pos h₂, if_pos (place.2 (.inr h₂))]
        omega
      · have h₃ : ¬(p + T) / L % M = i := fun h => (place.1 h).elim h₁ h₂
        rw [if_neg h₁, if_neg h₂, if_neg h₃]
        omega

/-- An arc of at most the whole circle overfills no cell. -/
theorem arc_le (pos : 0 < L) (inside : i < N) (fits : T ≤ N * L) : arc L N p T i ≤ L := by
  have whole := arc_full (p := p) pos inside
  rw [show N * L = T + (N * L - T) by omega, arc_add] at whole
  omega

/-- What exceeds the capacity is the part of the arc that lies more than once around the circle. -/
theorem arc_sub (pos : 0 < L) (inside : i < N) :
    arc L N p T i - L = arc L N (p + N * L) (T - N * L) i := by
  by_cases fits : T ≤ N * L
  · have := arc_le (p := p) pos inside fits
    rw [show T - N * L = 0 by omega, arc_zero]
    omega
  · have around : T = N * L + (T - N * L) := by omega
    rw [around, arc_add, arc_full pos inside, ← around]
    omega

/-- What the capacity keeps is the part of the arc once around the circle. -/
theorem min_arc (pos : 0 < L) (inside : i < N) :
    min L (arc L N p T i) = arc L N p (min (N * L) T) i := by
  by_cases fits : T ≤ N * L
  · have := arc_le (p := p) pos inside fits
    rw [Nat.min_eq_right fits]
    omega
  · have around : T = N * L + (T - N * L) := by omega
    rw [Nat.min_eq_left (show N * L ≤ T by omega), arc_full pos inside, around, arc_add,
      arc_full pos inside]
    exact Nat.min_eq_left (Nat.le_add_right L _)

/-- A merge of opposite cells leaves an arc on either side. -/
theorem exists_arc_of_merge (pos : 0 < L) (direction : Direction) :
    ∃ p₁ p₂, ∀ i < M,
      (Rule.weights L).merge direction (arc L M p T i) 0 =
        (arc L M p₁ ((Rule.weights (M * L)).merge direction T 0).1 i,
          arc L M p₂ ((Rule.weights (M * L)).merge direction T 0).2 i) := by
  cases direction with
  | ascending =>
    refine ⟨p + M * L, p, fun i inside => ?_⟩
    simp only [Rule.weights, Nat.add_zero, arc_sub pos inside, min_arc pos inside]
  | descending =>
    refine ⟨p, p + M * L, fun i inside => ?_⟩
    simp only [Rule.weights, Nat.add_zero, arc_sub pos inside, min_arc pos inside]

/-- All of an arc falls into a single cell. -/
theorem arc_one : arc L 1 p T 0 = T := by
  induction T with
  | zero => rfl
  | succ T ih => rw [arc_succ, ih, if_pos (Nat.mod_one _)]

end Arc

/-! ## heaps -/

/-- The weight of cell `i` of `cells` when `total` is heaped up: towards the last cell if the heap
ascends, and towards the first if it descends. -/
def heaped (capacity cells total : Nat) (direction : Direction) (i : Nat) : Nat :=
  match direction with
  | .ascending => min capacity (total - (cells - 1 - i) * capacity)
  | .descending => min capacity (total - i * capacity)

section Heap

variable {L M T i : Nat}

theorem heaped_one (fits : T ≤ L) (direction : Direction) : heaped L 1 T direction 0 = T := by
  cases direction <;> simp [heaped, fits]

/-- The first half of a heap is a heap of what a merge leaves there. -/
theorem heaped_lower (direction : Direction) (inside : i < M) :
    heaped L (2 * M) T direction i =
      heaped L M ((Rule.weights (M * L)).merge direction T 0).1 direction i := by
  obtain ⟨d, rfl⟩ : ∃ d, M = i + 1 + d := ⟨M - (i + 1), by omega⟩
  cases direction with
  | ascending =>
    have far : (2 * (i + 1 + d) - 1 - i) * L = (i + 1 + d) * L + (i + 1 + d - 1 - i) * L := by
      rw [← Nat.add_mul]
      congr 1
      omega
    simp only [heaped, Rule.weights, far]
    omega
  | descending =>
    have near : (i + 1 + d) * L = i * L + L + d * L := by rw [Nat.add_mul, Nat.succ_mul]
    simp only [heaped, Rule.weights]
    omega

/-- The second half of a heap is a heap of what a merge leaves there. -/
theorem heaped_upper (direction : Direction) (inside : i < M) :
    heaped L (2 * M) T direction (i + M) =
      heaped L M ((Rule.weights (M * L)).merge direction T 0).2 direction i := by
  obtain ⟨d, rfl⟩ : ∃ d, M = i + 1 + d := ⟨M - (i + 1), by omega⟩
  cases direction with
  | ascending =>
    have near : (i + 1 + d) * L = i * L + L + d * L := by rw [Nat.add_mul, Nat.succ_mul]
    have away : 2 * (i + 1 + d) - 1 - (i + (i + 1 + d)) = d := by omega
    have here : i + 1 + d - 1 - i = d := by omega
    simp only [heaped, Rule.weights, away, here]
    omega
  | descending =>
    have far : (i + (i + 1 + d)) * L = i * L + (i + 1 + d) * L := Nat.add_mul ..
    simp only [heaped, Rule.weights, far]
    omega

/-- A rising heap followed by a falling one is an arc. -/
theorem exists_arc_of_heaps {S : Nat} (pos : 0 < L) (fits₁ : T ≤ M * L) (fits₂ : S ≤ M * L) :
    ∃ p, (∀ i < M, arc L (2 * M) p (T + S) i = heaped L M T .ascending i) ∧
      ∀ i < M, arc L (2 * M) p (T + S) (i + M) = heaped L M S .descending i := by
  have double : 2 * M * L = M * L + M * L := by rw [Nat.mul_assoc, Nat.two_mul]
  refine ⟨M * L - T, fun i inside => ?_, fun i inside => ?_⟩
  · obtain ⟨d, rfl⟩ : ∃ d, M = i + 1 + d := ⟨M - (i + 1), by omega⟩
    have near : (i + 1 + d) * L = i * L + L + d * L := by rw [Nat.add_mul, Nat.succ_mul]
    have here : i + 1 + d - 1 - i = d := by omega
    rw [arc_of_le pos (by omega), heaped, here]
    omega
  · have far : (i + M) * L = i * L + M * L := Nat.add_mul ..
    rw [arc_of_le pos (by omega), heaped, far]
    omega

end Heap

/-! ## the network heaps weights up -/

/-- The stages of the phase that completes blocks of `2 ^ x` cells: all distances below, in falling
order. -/
def phase (x y : Nat) : List Stage := (List.range y).reverse.map fun z => ⟨2 ^ x, 2 ^ z⟩

theorem phase_succ (x y : Nat) : phase x (y + 1) = ⟨2 ^ x, 2 ^ y⟩ :: phase x y := by
  rw [phase, List.range_succ, List.reverse_append]
  rfl

section Network

variable {L x y T : Nat} {cells : Nat → Nat} {direction : Direction}

/-- One stage on a block: the halves receive what a merge leaves of the cells that stand opposite. -/
theorem apply_block {β : Type} (rule : Rule β) (cells : Nat → β) {c r : Nat} (inside : r < 2 ^ y)
    (points : Stage.direction ⟨2 ^ x, 2 ^ y⟩ (2 ^ (y + 1) * c + r) = direction) :
    let a := cells (2 ^ (y + 1) * c + r)
    let b := cells (2 ^ (y + 1) * c + (r + 2 ^ y))
    Stage.apply ⟨2 ^ x, 2 ^ y⟩ rule cells (2 ^ y * (2 * c) + r) = (rule.merge direction a b).1 ∧
      Stage.apply ⟨2 ^ x, 2 ^ y⟩ rule cells (2 ^ y * (2 * c + 1) + r) = (rule.merge direction a b).2 := by
  have first : 2 ^ (y + 1) * c + r = 2 ^ y * (2 * c) + r := by rw [Nat.pow_succ]; ring
  have second : 2 ^ (y + 1) * c + (r + 2 ^ y) = 2 ^ y * (2 * c) + r + 2 ^ y := by rw [Nat.pow_succ]; ring
  have other : 2 ^ y * (2 * c + 1) + r = 2 ^ y * (2 * c) + r + 2 ^ y := by ring
  have even : (2 ^ y * (2 * c) + r) / 2 ^ y % 2 = 0 := by
    rw [Nat.mul_add_div (Nat.two_pow_pos y), Nat.div_eq_of_lt inside]
    omega
  have pair := Stage.pairAt_of_even (x := x) even
  have same : Stage.pairAt ⟨2 ^ x, 2 ^ y⟩ (2 ^ y * (2 * c) + r + 2 ^ y) =
      Stage.pairAt ⟨2 ^ x, 2 ^ y⟩ (2 ^ y * (2 * c) + r) := by
    have := @Stage.pairAt_upper ⟨2 ^ x, 2 ^ y⟩ (2 ^ y * (2 * c) + r)
    rwa [pair] at this ⊢
  have apart : ¬2 ^ y * (2 * c) + r + 2 ^ y = 2 ^ y * (2 * c) + r := by
    have := Nat.two_pow_pos y
    omega
  rw [first] at points ⊢
  rw [second, other]
  simp only [Stage.apply, same, pair, points, if_true, if_neg apart, and_self]

/-- All distances of a phase turn an arc into a heap. -/
theorem heaped_of_arc (pos : 0 < L) (cells : Nat → Nat) {c p : Nat} (fits : T ≤ 2 ^ y * L)
    (points : ∀ z, ∀ r < 2 ^ y, Stage.direction ⟨2 ^ x, z⟩ (2 ^ y * c + r) = direction)
    (holds : ∀ r < 2 ^ y, cells (2 ^ y * c + r) = arc L (2 ^ y) p T r) :
    ∀ r < 2 ^ y, (Rule.weights L).through cells (phase x y) (2 ^ y * c + r) =
      heaped L (2 ^ y) T direction r := by
  induction y generalizing c p T cells with
  | zero =>
    intro r inside
    obtain rfl : r = 0 := by omega
    have none : phase x 0 = [] := rfl
    rw [none, Rule.through_nil, holds 0 (by decide), Nat.pow_zero, arc_one, heaped_one (by omega)]
  | succ y ih =>
    have double : 2 ^ (y + 1) = 2 * 2 ^ y := by rw [Nat.pow_succ, Nat.mul_comm]
    have enough : 2 ^ (y + 1) * L = 2 ^ y * L + 2 ^ y * L := by rw [double, Nat.mul_assoc, Nat.two_mul]
    have first : ∀ r, 2 ^ y * (2 * c) + r = 2 ^ (y + 1) * c + r := by
      intro r
      rw [double]
      ring
    have second : ∀ r, 2 ^ y * (2 * c + 1) + r = 2 ^ (y + 1) * c + (r + 2 ^ y) := by
      intro r
      rw [double]
      ring
    -- one stage turns the arc into an arc on each half
    have folded : ∀ r < 2 ^ y,
        (Rule.weights L).merge direction (cells (2 ^ (y + 1) * c + r))
          (cells (2 ^ (y + 1) * c + (r + 2 ^ y))) =
        (Rule.weights L).merge direction (arc L (2 ^ y) p T r) 0 := by
      intro r inside
      rw [holds r (by omega), holds (r + 2 ^ y) (by omega), double]
      have := arc_fold (L := L) (p := p) (T := T) inside
      cases direction <;> simp only [Rule.weights, Nat.add_zero, this]
    obtain ⟨p₁, p₂, arcs⟩ := exists_arc_of_merge (M := 2 ^ y) (p := p) (T := T) pos direction
    have halves := fun r inside =>
      apply_block (Rule.weights L) cells inside (points (2 ^ y) r (by omega))
    have fits₁ : ((Rule.weights (2 ^ y * L)).merge direction T 0).1 ≤ 2 ^ y * L := by
      cases direction <;> simp only [Rule.weights] <;> omega
    have fits₂ : ((Rule.weights (2 ^ y * L)).merge direction T 0).2 ≤ 2 ^ y * L := by
      cases direction <;> simp only [Rule.weights] <;> omega
    let next := Stage.apply ⟨2 ^ x, 2 ^ y⟩ (Rule.weights L) cells
    have lower := ih next (c := 2 * c) (p := p₁) fits₁ (fun z r inside => first r ▸ points z r (by omega))
      fun r inside => by
        refine (halves r inside).1.trans ?_
        rw [folded r inside, arcs r inside]
    have upper := ih next (c := 2 * c + 1) (p := p₂) fits₂
      (fun z r inside => second r ▸ points z (r + 2 ^ y) (by omega))
      fun r inside => by
        refine (halves r inside).2.trans ?_
        rw [folded r inside, arcs r inside]
    intro r inside
    rw [phase_succ, Rule.through_cons]
    by_cases low : r < 2 ^ y
    · rw [double, heaped_lower direction low, ← double, ← first]
      exact lower r low
    · obtain ⟨s, rfl⟩ : ∃ s, r = s + 2 ^ y := ⟨r - 2 ^ y, by omega⟩
      rw [double, heaped_upper direction (by omega), ← double, ← second]
      exact upper s (by omega)

/-- The direction of block number `q`: blocks ascend and descend in turn. -/
def Direction.ofBlock (q : Nat) : Direction := if q % 2 = 0 then .ascending else .descending

/-- Blocks of `2 ^ x` cells below `n` that are heaps, ascending and descending in turn. -/
def HeapedBlocks (L n x : Nat) (cells : Nat → Nat) : Prop :=
  ∀ q, 2 ^ x * q + 2 ^ x ≤ n → ∃ T ≤ 2 ^ x * L, ∀ r < 2 ^ x,
    cells (2 ^ x * q + r) = heaped L (2 ^ x) T (.ofBlock q) r

/-- A phase turns heaps into heaps of twice the size. -/
theorem heaped_through_phase (pos : 0 < L) {n : Nat} (blocks : HeapedBlocks L n x cells) :
    HeapedBlocks L n (x + 1) ((Rule.weights L).through cells (phase (x + 1) (x + 1))) := by
  intro q inside
  have double : 2 ^ (x + 1) = 2 * 2 ^ x := by rw [Nat.pow_succ, Nat.mul_comm]
  have first : ∀ r, 2 ^ x * (2 * q) + r = 2 ^ (x + 1) * q + r := by
    intro r
    rw [double]
    ring
  have second : ∀ r, 2 ^ x * (2 * q + 1) + r = 2 ^ (x + 1) * q + (r + 2 ^ x) := by
    intro r
    rw [double]
    ring
  obtain ⟨T₁, fits₁, heap₁⟩ := blocks (2 * q) (by rw [first]; omega)
  obtain ⟨T₂, fits₂, heap₂⟩ := blocks (2 * q + 1) (by rw [second]; omega)
  rw [Direction.ofBlock, if_pos (by omega)] at heap₁
  rw [Direction.ofBlock, if_neg (by omega)] at heap₂
  obtain ⟨p, rises, falls⟩ := exists_arc_of_heaps (L := L) pos fits₁ fits₂
  refine ⟨T₁ + T₂, by rw [double, Nat.mul_assoc]; omega, ?_⟩
  apply heaped_of_arc (p := p) pos cells (by rw [double, Nat.mul_assoc]; omega)
  · intro z r low
    have block : (2 ^ (x + 1) * q + r) / 2 ^ (x + 1) = q := by
      rw [Nat.mul_add_div (Nat.two_pow_pos _), Nat.div_eq_of_lt low, Nat.add_zero]
    simp only [Stage.direction, and_two_pow_eq_zero_iff, block, Direction.ofBlock]
  · intro r low
    by_cases h : r < 2 ^ x
    · rw [← first, heap₁ r h, double]
      exact (rises r h).symm
    · obtain ⟨s, rfl⟩ : ∃ s, r = s + 2 ^ x := ⟨r - 2 ^ x, by omega⟩
      rw [← second, heap₂ s (by omega), double]
      exact (falls s (by omega)).symm

/-- The first `m` phases leave heaps of `2 ^ m` cells. -/
theorem heaped_through_phases (pos : 0 < L) {n : Nat} (bounded : ∀ i, cells i ≤ L) (m : Nat) :
    HeapedBlocks L n m
      ((Rule.weights L).through cells ((List.range' 1 m).flatMap fun x => phase x x)) := by
  induction m with
  | zero =>
    intro q _
    refine ⟨cells q, by simpa using bounded q, fun r low => ?_⟩
    obtain rfl : r = 0 := by omega
    simp [heaped_one (bounded q)]
  | succ m ih =>
    rw [List.range'_concat, List.flatMap_append, Rule.through_append, List.flatMap_singleton]
    simp only [Nat.one_mul, Nat.add_comm 1 m]
    exact heaped_through_phase pos ih

/-- The stages of a network of `2 ^ x` cells heap the weight up in every block of as many. -/
theorem heaped_through_stages (pos : 0 < L) {n : Nat} (fits : 2 ^ x < Word.capacity)
    (bounded : ∀ i, cells i ≤ L) :
    HeapedBlocks L n x ((Rule.weights L).through cells (stages (2 ^ x))) := by
  rw [stages_eq fits, Nat.log2_two_pow]
  exact heaped_through_phases pos bounded x

/-- Whether place `i` comes before place `j` in a run that grows in a direction. -/
def Direction.Precedes : Direction → Nat → Nat → Prop
  | .ascending, i, j => i < j
  | .descending, i, j => j < i

/-- A cell of a heap that is not empty fills all cells that come after it. -/
theorem heaped_full {n i j : Nat} (first : i < n) (second : j < n) (precedes : direction.Precedes i j)
    (filled : 0 < heaped L n T direction i) : heaped L n T direction j = L := by
  cases direction with
  | ascending =>
    have before : i < j := precedes
    obtain ⟨d, rfl⟩ : ∃ d, n = j + 1 + d := ⟨n - (j + 1), by omega⟩
    obtain ⟨e, rfl⟩ : ∃ e, j = i + 1 + e := ⟨j - (i + 1), by omega⟩
    have near : i + 1 + e + 1 + d - 1 - (i + 1 + e) = d := by omega
    have far : i + 1 + e + 1 + d - 1 - i = d + e + 1 := by omega
    have more : (d + e + 1) * L = d * L + e * L + L := by ring
    simp only [heaped, near, far, more] at filled ⊢
    omega
  | descending =>
    have before : j < i := precedes
    obtain ⟨e, rfl⟩ : ∃ e, i = j + 1 + e := ⟨i - (j + 1), by omega⟩
    have more : (j + 1 + e) * L = j * L + L + e * L := by ring
    simp only [heaped, more] at filled ⊢
    omega

end Network

end SortNetwork
