import Mathlib
import SortNetwork.Fault

/-!
# SortNetwork.Proofs.Lists

Facts on lists and sums that are used throughout.

* `flatMap_set_perm`: changing one element of a list exchanges what that element contributes.
* `flatMap_flatMap_perm`: two nested loops may be exchanged.
* `flatMap_range'_range'`: blocks of numbers follow each other without gaps.
* `length_flatMap_le`: pieces of a bounded size, one of which may be twice as large.
* `flatMap_append_induction`: what each of several pieces keeps when it is put in front, all of them keep.
* `mapM_eq_ok`: checks that all succeed succeed together.
* `pairwise_flatten_of_forall₂`: the elements of a pass may be taken in any order if they stand in either.
* `sum_update`: changing one term of a sum changes the sum by as much.
* `add_le_sum`: two terms of a sum come to no more than the sum.
-/

namespace SortNetwork

variable {α β γ : Type}

/-- Changing one element of a list exchanges what that element contributes. -/
theorem flatMap_set_perm (f : α → List β) (xs : List α) (i : Nat) (x : α) (h : i < xs.length) :
    ((xs.set i x).flatMap f ++ f xs[i]).Perm (xs.flatMap f ++ f x) := by
  induction xs generalizing i with
  | nil => simp at h
  | cons y ys ih =>
    cases i with
    | zero =>
      classical
      rw [List.perm_iff_count]
      intro b
      simp only [List.set_cons_zero, List.flatMap_cons, List.getElem_cons_zero, List.count_append]
      omega
    | succ i =>
      simp only [List.set_cons_succ, List.flatMap_cons, List.getElem_cons_succ, List.append_assoc]
      exact (ih i (by simpa using h)).append_left _

/-- Two nested loops over lists may be exchanged. -/
theorem flatMap_flatMap_perm (xs : List α) (ys : List β) (f : α → β → List γ) :
    (xs.flatMap fun x => ys.flatMap (f x)).Perm (ys.flatMap fun y => xs.flatMap fun x => f x y) := by
  induction xs with
  | nil => simp
  | cons x xs ih =>
    simp only [List.flatMap_cons]
    exact (ih.append_left _).trans (List.flatMap_append_perm ys _ _)

/-- Blocks of numbers that follow each other without gaps. -/
theorem flatMap_range'_range' (s c d : Nat) :
    (List.range' s c).flatMap (fun block => List.range' (block * d) d) = List.range' (s * d) (c * d) := by
  induction c with
  | zero => simp
  | succ c ih =>
    rw [List.range'_1_concat, List.flatMap_append, ih, List.flatMap_singleton, Nat.add_mul,
      List.range'_append_1, Nat.succ_mul]

/-- Blocks of numbers from zero on. -/
theorem flatMap_range' (c d : Nat) :
    (List.range c).flatMap (fun block => List.range' (block * d) d) = List.range (c * d) := by
  rw [List.range_eq_range', flatMap_range'_range', Nat.zero_mul, List.range_eq_range']

/-- Pieces of up to `b` elements, but of up to twice as many wherever `y` stands. -/
theorem length_flatMap_le_count [DecidableEq α] {f : α → List β} {xs : List α} {y : α} {b : Nat}
    (each : ∀ x ∈ xs, (f x).length ≤ if x = y then 2 * b else b) :
    (xs.flatMap f).length ≤ (xs.length + xs.count y) * b := by
  induction xs with
  | nil => simp
  | cons x xs ih =>
    have later := ih fun z member => each z (by simp [member])
    have here := each x (by simp)
    rw [List.flatMap_cons, List.length_append, List.length_cons, List.count_cons]
    simp only [beq_iff_eq]
    split at here
    · next same =>
      rw [if_pos same]
      linarith
    · next other =>
      rw [if_neg other]
      linarith

/-- Pieces of up to `b` elements, but one of them of up to twice as many. -/
theorem length_flatMap_le [DecidableEq α] {f : α → List β} {xs : List α} {y : α} {b : Nat}
    (once : xs.Nodup) (each : ∀ x ∈ xs, (f x).length ≤ if x = y then 2 * b else b) :
    (xs.flatMap f).length ≤ (xs.length + 1) * b := by
  have unique := List.nodup_iff_count_le_one.1 once y
  exact (length_flatMap_le_count each).trans (Nat.mul_le_mul_right b (Nat.add_le_add_left unique _))

/-- What each piece keeps when it is put in front of a list, all pieces keep. -/
theorem flatMap_append_induction {P : List β → Prop} {f : α → List β} {xs : List α} {ys : List β}
    (last : P ys)
    (step : ∀ x ∈ xs, ∀ ys, P ys → P (f x ++ ys)) : P (xs.flatMap f ++ ys) := by
  induction xs with
  | nil => exact last
  | cons x xs ih =>
    rw [List.flatMap_cons, List.append_assoc]
    exact step x (by simp) _ (ih fun y member => step y (by simp [member]))

/-- Computations that all succeed succeed in turn. -/
theorem mapM_eq_ok {f : α → Except Fault β} {g : α → β} {xs : List α}
    (each : ∀ x ∈ xs, f x = .ok (g x)) : xs.mapM f = .ok (xs.map g) := by
  induction xs with
  | nil => rfl
  | cons x xs ih =>
    rw [List.mapM_cons, each x (by simp), ih fun y member => each y (by simp [member])]
    rfl

/-- Passes in order: if all elements of a pass stand in either order, they may be taken in any. -/
theorem pairwise_flatten_of_forall₂ {R : α → α → Prop} {orders layout : List (List α)}
    (same : List.Forall₂ List.Perm orders layout)
    (within : ∀ pass ∈ layout, ∀ x ∈ pass, ∀ y ∈ pass, R x y) (all : layout.flatten.Pairwise R) :
    orders.flatten.Pairwise R := by
  induction same with
  | nil => exact .nil
  | @cons order pass orders layout perm same ih =>
    rw [List.flatten_cons, List.pairwise_append] at all ⊢
    obtain ⟨-, later, across⟩ := all
    refine ⟨?_, ih (fun other member => within other (by simp [member])) later, fun x hx y hy => ?_⟩
    · exact List.pairwise_of_forall_mem_list fun x hx y hy =>
        within pass (by simp) x (perm.mem_iff.1 hx) y (perm.mem_iff.1 hy)
    · exact across x (perm.mem_iff.1 hx) y ((List.Perm.flatten_congr same).mem_iff.1 hy)

/-- Changing one term of a sum changes the sum by as much. -/
theorem sum_update {n i : Nat} (inside : i < n) (f : α → Nat) (g : Nat → α) (x : α) :
    (∑ j ∈ Finset.range n, f (Function.update g i x j)) + f (g i) =
      (∑ j ∈ Finset.range n, f (g j)) + f x := by
  have member : i ∈ Finset.range n := Finset.mem_range.2 inside
  rw [← Finset.add_sum_erase _ _ member,
    ← Finset.add_sum_erase (Finset.range n) (fun j => f (g j)) member,
    Function.update_self]
  have others : ∑ j ∈ (Finset.range n).erase i, f (Function.update g i x j) =
      ∑ j ∈ (Finset.range n).erase i, f (g j) :=
    Finset.sum_congr rfl fun j h => by rw [Function.update_of_ne (Finset.ne_of_mem_erase h)]
  omega

/-- Two terms of a sum come to no more than the sum. -/
theorem add_le_sum {n i j : Nat} (first : i < n) (second : j < n) (distinct : i ≠ j) (f : Nat → Nat) :
    f i + f j ≤ ∑ u ∈ Finset.range n, f u := by
  have pair : {i, j} ⊆ Finset.range n := by
    rw [Finset.insert_subset_iff, Finset.singleton_subset_iff, Finset.mem_range, Finset.mem_range]
    exact ⟨first, second⟩
  rw [← Finset.sum_pair distinct]
  exact Finset.sum_le_sum_of_subset pair

end SortNetwork
