import Mathlib
import SortNetwork.Proofs.Network.Runs

/-!
# SortNetwork.Proofs.Network.Blocks

Blocks that exchange nothing with the rest of the network.

In the stages of a network of `2 ^ x` cells the partner of a cell stands in the same block of `2 ^ x`.  A
merge neither loses nor invents an element, so neither does a block (`flatMap_through_perm`), whether its
cells are single elements or whole segments.
-/

namespace SortNetwork

variable {α β : Type} {rule : Rule β} {stage : Stage} {cells : Nat → β}

/-- If a merge keeps the sum of what its two cells count, a stage keeps that of cells which hold the partner
of each of them. -/
theorem sum_apply {f : β → Nat}
    (conserved : ∀ d a b, f (rule.merge d a b).1 + f (rule.merge d a b).2 = f a + f b)
    {block : Finset Nat} (closed : ∀ i ∈ block, i ^^^ stage.j ∈ block)
    (apart : ∀ i, i ^^^ stage.j ≠ i) :
    ∑ i ∈ block, f (stage.apply rule cells i) = ∑ i ∈ block, f (cells i) := by
  have back : ∀ i, i ^^^ stage.j ^^^ stage.j = i := by
    intro i
    rw [Nat.xor_assoc, Nat.xor_self, Nat.xor_zero]
  have partners : ∀ g : Nat → Nat, ∑ i ∈ block, g (i ^^^ stage.j) = ∑ i ∈ block, g i := fun g =>
    Finset.sum_nbij' (· ^^^ stage.j) (· ^^^ stage.j) closed closed (fun i _ => back i)
      (fun i _ => back i) fun _ _ => rfl
  -- a cell and its partner come out of one merge
  have pair : ∀ i, f (stage.apply rule cells i) + f (stage.apply rule cells (i ^^^ stage.j)) =
      f (cells i) + f (cells (i ^^^ stage.j)) := by
    intro i
    have distinct := apart i
    simp only [Stage.apply, Stage.pairAt_xor]
    rcases Nat.lt_or_gt_of_ne distinct with below | above
    · have lower : (stage.pairAt i).lower = i ^^^ stage.j := Nat.min_eq_right below.le
      have upper : (stage.pairAt i).upper = i := Nat.max_eq_left below.le
      simp only [lower, upper, distinct.symm, if_false, if_true]
      rw [Nat.add_comm, conserved, Nat.add_comm]
    · have lower : (stage.pairAt i).lower = i := Nat.min_eq_left above.le
      have upper : (stage.pairAt i).upper = i ^^^ stage.j := Nat.max_eq_right above.le
      simp only [lower, upper, distinct, if_false, if_true]
      exact conserved ..
  have twice := Finset.sum_congr (rfl : block = block) fun i _ => pair i
  rw [Finset.sum_add_distrib, Finset.sum_add_distrib,
    partners fun i => f (stage.apply rule cells i), partners fun i => f (cells i)] at twice
  omega

/-- What is seen in the two cells that a merge leaves is what was seen in the two before. -/
def Rule.Conserves (rule : Rule β) (view : β → List α) : Prop :=
  ∀ d a b, (view (rule.merge d a b).1 ++ view (rule.merge d a b).2).Perm (view a ++ view b)

theorem conserves_runs (order : ElementOrder α) : (Rule.runs order).Conserves id := by
  intro d run₁ run₂
  simp only [id, Rule.runs, mergeFrom_first_append_second]
  exact buffer_mergeFrom_perm ..

theorem conserves_elements (cmp : α → α → Ordering) : (Rule.elements cmp).Conserves fun a => [a] := by
  intro d a b
  simp only [Rule.elements]
  split
  · exact .swap ..
  · exact .refl _

variable {view : β → List α} {x q : Nat}

/-- A stage of a network of `2 ^ x` cells takes no element out of a block of as many. -/
theorem flatMap_apply_perm (conserves : rule.Conserves view) (fits : 2 ^ x < Word.capacity)
    (listed : stage ∈ stages (2 ^ x)) :
    ((List.range' (2 ^ x * q) (2 ^ x)).flatMap fun i => view (stage.apply rule cells i)).Perm
      ((List.range' (2 ^ x * q) (2 ^ x)).flatMap fun i => view (cells i)) := by
  classical
  obtain ⟨z, y, below, high, rfl⟩ := (mem_stages_iff fits).1 listed
  rw [Nat.log2_two_pow] at high
  have member : ∀ i, i ∈ (List.range' (2 ^ x * q) (2 ^ x)).toFinset ↔ i / 2 ^ x = q := by
    intro i
    rw [List.mem_toFinset, List.mem_range'_1, Nat.div_eq_iff (Nat.two_pow_pos x), Nat.mul_comm q]
    have := Nat.two_pow_pos x
    omega
  rw [List.perm_iff_count]
  intro a
  have sums : ∑ i ∈ (List.range' (2 ^ x * q) (2 ^ x)).toFinset,
        (view (Stage.apply ⟨2 ^ z, 2 ^ y⟩ rule cells i)).count a =
      ∑ i ∈ (List.range' (2 ^ x * q) (2 ^ x)).toFinset, (view (cells i)).count a := by
    refine sum_apply (f := fun cell => (view cell).count a) (fun d b c => ?_) (fun i inside => ?_)
      fun i => Stage.xor_ne_of_mem_stages fits listed
    · rw [← List.count_append, (conserves d b c).count_eq, List.count_append]
    · rw [member] at inside ⊢
      rw [xor_div_of_lt (by omega), inside]
  rw [List.sum_toFinset _ (List.nodup_range' 1), List.sum_toFinset _ (List.nodup_range' 1)] at sums
  rw [List.count_flatMap, List.count_flatMap]
  exact sums

variable (cells) in
/-- The stages of a network of `2 ^ x` cells take no element out of a block of as many, and bring none in. -/
theorem flatMap_through_perm (conserves : rule.Conserves view) (fits : 2 ^ x < Word.capacity)
    {sts : List Stage} (listed : ∀ stage ∈ sts, stage ∈ stages (2 ^ x)) :
    ((List.range' (2 ^ x * q) (2 ^ x)).flatMap fun i => view (rule.through cells sts i)).Perm
      ((List.range' (2 ^ x * q) (2 ^ x)).flatMap fun i => view (cells i)) := by
  induction sts generalizing cells with
  | nil => exact .refl _
  | cons stage sts ih =>
    exact (ih _ fun s member => listed s (by simp [member])).trans
      (flatMap_apply_perm conserves fits (listed stage (by simp)))

end SortNetwork
