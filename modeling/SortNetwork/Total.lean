/-!
# SortNetwork.Total

The sum of a measure over a list.

Work is counted this way throughout: the steps of a list of instructions, the tasks of all queues, the
instructions of all workers.

* `total_append`: two lists together measure as much as both.
* `total_set`: changing one element changes the sum by as much as the element.
-/

namespace SortNetwork

variable {τ : Type}

/-- What the elements of a list measure together. -/
def total (measure : τ → Nat) : List τ → Nat
  | [] => 0
  | x :: xs => measure x + total measure xs

@[simp] theorem total_nil (measure : τ → Nat) : total measure [] = 0 := rfl

@[simp] theorem total_cons (measure : τ → Nat) (x : τ) (xs : List τ) :
    total measure (x :: xs) = measure x + total measure xs := rfl

/-- Two lists together measure as much as both. -/
@[simp] theorem total_append (measure : τ → Nat) (xs ys : List τ) :
    total measure (xs ++ ys) = total measure xs + total measure ys := by
  induction xs with
  | nil => simp
  | cons x xs ih =>
    rw [List.cons_append, total_cons, total_cons, ih]
    omega

/-- Changing one element changes the sum by as much as the element. -/
theorem total_set (measure : τ → Nat) (xs : List τ) (i : Nat) (x : τ) (h : i < xs.length) :
    total measure (xs.set i x) + measure xs[i] = total measure xs + measure x := by
  induction xs generalizing i with
  | nil => simp at h
  | cons y ys ih =>
    cases i with
    | zero =>
      rw [List.set_cons_zero, total_cons, total_cons, List.getElem_cons_zero]
      omega
    | succ i =>
      have := ih i (by simpa using h)
      rw [List.set_cons_succ, total_cons, total_cons, List.getElem_cons_succ]
      omega

end SortNetwork
