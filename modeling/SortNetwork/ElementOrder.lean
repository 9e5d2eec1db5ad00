/-!
# SortNetwork.ElementOrder

What a sort needs to know of its elements: a total preorder and a way to sort one segment.

Elements that compare equal may still be told apart, so two sorts of one list may differ.  The local sort
is therefore part of the order: it is some function that returns a sorted permutation, and nothing in the
library depends on which.
-/

namespace SortNetwork

/-- A total preorder on elements, with the sort used inside one segment. -/
structure ElementOrder (α : Type) where
  cmp : α → α → Ordering
  sortRun : List α → List α
  /-- the comparison is oriented and transitive -/
  trans_cmp : Std.TransCmp cmp
  /-- the local sort neither loses nor invents elements -/
  sortRun_perm : ∀ run, (sortRun run).Perm run
  /-- the local sort leaves a run in which no element precedes a smaller one -/
  pairwise_sortRun : ∀ run, (sortRun run).Pairwise fun a b => (cmp a b).isLE = true

namespace ElementOrder

variable {α : Type}

/-- The order of a comparison, with the stable sort inside segments. -/
def ofCmp (cmp : α → α → Ordering) [trans : Std.TransCmp cmp] : ElementOrder α where
  cmp := cmp
  sortRun run := run.mergeSort fun a b => (cmp a b).isLE
  trans_cmp := trans
  sortRun_perm run := List.mergeSort_perm run _
  pairwise_sortRun run := by
    refine List.pairwise_mergeSort (fun _ _ _ => Std.TransCmp.isLE_trans) (fun a b => ?_) run
    have swapped : cmp a b = (cmp b a).swap := Std.OrientedCmp.eq_swap
    rw [swapped]
    cases cmp b a <;> rfl

/-- The local sort keeps the length of a run. -/
@[simp] theorem length_sortRun (order : ElementOrder α) (run : List α) :
    (order.sortRun run).length = run.length :=
  (order.sortRun_perm run).length_eq

end ElementOrder

end SortNetwork
