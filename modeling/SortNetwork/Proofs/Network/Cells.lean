import Mathlib
import SortNetwork.Segments
import SortNetwork.Proofs.Network.Shape

/-!
# SortNetwork.Proofs.Network.Cells

The network on cells of any kind.

What a stage does is the same for single elements, for whole segments and for numbers that measure them:
two cells go in at the places of a pair, and two come out.  A `Rule` says which.  Two rules agree along a
map of cells if the map commutes with both outcomes of a merge, and then it commutes with the whole
network (`map_through`).
-/

namespace SortNetwork

variable {β γ : Type}

/-- What a local sort makes of a cell, and a merge of two. -/
structure Rule (β : Type) where
  sort : β → β
  merge : Direction → β → β → β × β

/-- The cell that a stage leaves at a place. -/
def Stage.apply (stage : Stage) (rule : Rule β) (cells : Nat → β) (i : Nat) : β :=
  let pair := stage.pairAt i
  let merged := rule.merge pair.direction (cells pair.lower) (cells pair.upper)
  if i = pair.lower then merged.1 else merged.2

namespace Rule

/-- The cells that stages leave, one after the other. -/
def through (rule : Rule β) (cells : Nat → β) : List Stage → Nat → β
  | [] => cells
  | stage :: stages => rule.through (stage.apply rule cells) stages

/-- Single elements: a merge exchanges them if they stand the wrong way round. -/
def elements {α : Type} (cmp : α → α → Ordering) : Rule α where
  sort a := a
  merge direction a b := if direction.opposite.before cmp a b then (b, a) else (a, b)

/-- Segments: sorted by the local sort, and merged through a buffer. -/
def runs {α : Type} (order : ElementOrder α) : Rule (List α) where
  sort := order.sortRun
  merge direction a b :=
    let merged := mergeFrom order.cmp direction (.ofRun order.cmp a) (.ofRun order.cmp b) a b
    (merged.first, merged.second)

/-- Weights: a merge moves as much weight as fits, at most `capacity`, to the side where the large
elements belong. -/
def weights (capacity : Nat) : Rule Nat where
  sort a := a
  merge direction a b :=
    match direction with
    | .ascending => (a + b - capacity, min capacity (a + b))
    | .descending => (min capacity (a + b), a + b - capacity)

variable {rule : Rule β} {other : Rule γ} {cells : Nat → β} {m : Nat}

@[simp] theorem through_nil : rule.through cells [] = cells := rfl

@[simp] theorem through_cons (stage : Stage) (sts : List Stage) :
    rule.through cells (stage :: sts) = rule.through (stage.apply rule cells) sts := rfl

theorem through_append (sts more : List Stage) :
    rule.through cells (sts ++ more) = rule.through (rule.through cells sts) more := by
  induction sts generalizing cells with
  | nil => rfl
  | cons stage sts ih => exact ih

/-- Where two rules agree along a map on all cells that can occur. -/
structure Agree (rule : Rule β) (other : Rule γ) (f : β → γ) (Occurs : β → Prop) : Prop where
  occurs_fst : ∀ d a b, Occurs a → Occurs b → Occurs (rule.merge d a b).1
  occurs_snd : ∀ d a b, Occurs a → Occurs b → Occurs (rule.merge d a b).2
  map_fst : ∀ d a b, Occurs a → Occurs b → f (rule.merge d a b).1 = (other.merge d (f a) (f b)).1
  map_snd : ∀ d a b, Occurs a → Occurs b → f (rule.merge d a b).2 = (other.merge d (f a) (f b)).2

/-- The map commutes with one stage. -/
theorem map_apply {f : β → γ} {Occurs : β → Prop} (agree : Agree rule other f Occurs)
    (fits : 2 ^ m < Word.capacity) {stage : Stage} (listed : stage ∈ stages (2 ^ m))
    {images : Nat → γ} (occurs : ∀ i < 2 ^ m, Occurs (cells i))
    (same : ∀ i < 2 ^ m, f (cells i) = images i) {i : Nat} (inside : i < 2 ^ m) :
    Occurs (stage.apply rule cells i) ∧
      f (stage.apply rule cells i) = stage.apply other images i := by
  have high := Stage.upper_pairAt_lt fits listed inside
  have low := Nat.lt_trans (Stage.lower_lt_upper_pairAt (i := i) fits listed) high
  have first := occurs _ low
  have second := occurs _ high
  unfold Stage.apply
  dsimp only
  rw [← same _ low, ← same _ high]
  split
  · exact ⟨agree.occurs_fst _ _ _ first second, agree.map_fst _ _ _ first second⟩
  · exact ⟨agree.occurs_snd _ _ _ first second, agree.map_snd _ _ _ first second⟩

/-- The map commutes with the network. -/
theorem map_through {f : β → γ} {Occurs : β → Prop} (agree : Agree rule other f Occurs)
    (fits : 2 ^ m < Word.capacity) {sts : List Stage} (listed : ∀ stage ∈ sts, stage ∈ stages (2 ^ m))
    {images : Nat → γ} (occurs : ∀ i < 2 ^ m, Occurs (cells i))
    (same : ∀ i < 2 ^ m, f (cells i) = images i) {i : Nat} (inside : i < 2 ^ m) :
    Occurs (rule.through cells sts i) ∧ f (rule.through cells sts i) = other.through images sts i := by
  induction sts generalizing cells images with
  | nil => exact ⟨occurs i inside, same i inside⟩
  | cons stage sts ih =>
    have one := fun i inside => map_apply agree fits (listed stage (by simp)) occurs same (i := i) inside
    exact ih (fun s member => listed s (by simp [member])) (fun i inside => (one i inside).1)
      fun i inside => (one i inside).2

end Rule

end SortNetwork
