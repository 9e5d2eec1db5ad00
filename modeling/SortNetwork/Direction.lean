/-!
# SortNetwork.Direction

The two directions in which a run can be sorted.

A run may be read as sorted either way as long as no two neighbours stand the wrong way round, so a
constant run is sorted both ways.
-/

namespace SortNetwork

/-- Which way the elements of a run grow. -/
inductive Direction where
  | ascending
  | descending
  deriving DecidableEq, Repr

namespace Direction

variable {α : Type}

/-- The other direction. -/
def opposite : Direction → Direction
  | .ascending => .descending
  | .descending => .ascending

@[simp] theorem opposite_opposite (d : Direction) : d.opposite.opposite = d := by cases d <;> rfl

/-- Whether `a` must stand before `b`, which equal elements need not. -/
def before (d : Direction) (cmp : α → α → Ordering) (a b : α) : Bool :=
  match d with
  | .ascending => cmp a b == .lt
  | .descending => cmp a b == .gt

/-- Whether `b` may directly follow `a`, as equal elements may. -/
def allows (d : Direction) (cmp : α → α → Ordering) (a b : α) : Bool :=
  match d with
  | .ascending => cmp a b != .gt
  | .descending => cmp a b != .lt

/-- The direction of a run known to be sorted, read off its ends.  A run whose ends are equal, and so every
constant or empty run, counts as ascending. -/
def ofRun (cmp : α → α → Ordering) (run : List α) : Direction :=
  match run.head?, run.getLast? with
  | some first, some last => if cmp first last = .gt then .descending else .ascending
  | _, _ => .ascending

/-- Whether every element of the run may follow its neighbour. -/
def isSorted (d : Direction) (cmp : α → α → Ordering) : List α → Bool
  | a :: b :: rest => d.allows cmp a b && isSorted d cmp (b :: rest)
  | _ => true

@[simp] theorem isSorted_cons_cons (d : Direction) (cmp : α → α → Ordering) (a b : α)
    (rest : List α) :
    d.isSorted cmp (a :: b :: rest) = (d.allows cmp a b && d.isSorted cmp (b :: rest)) := rfl

/-- What stands after the first element of a sorted run is sorted. -/
theorem isSorted_of_cons {d : Direction} {cmp : α → α → Ordering} {a : α} {rest : List α}
    (h : d.isSorted cmp (a :: rest) = true) : d.isSorted cmp rest = true := by
  cases rest with
  | nil => rfl
  | cons b rest => exact (Bool.and_eq_true_iff.1 h).2

end Direction

end SortNetwork
