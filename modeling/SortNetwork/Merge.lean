import SortNetwork.Direction
import SortNetwork.Fault

/-!
# SortNetwork.Merge

Merging two sorted segments into one run across both.

Each segment may be sorted either way.  A merge reads both from the end at which the wanted direction
starts, writes the merged run into a buffer, and copies the buffer back: its front into the first segment,
its back into the second.  Of two heads the first segment's goes first only if it must, so among equal
elements those of the second segment come first.

Only comparisons are used, and nothing checks that the segments are sorted; a segment that is not gives
an interleaving of the two all the same.

* `merge_eq_ok`: segments of equal length that are not empty are merged.
* `buffer_mergeFrom_perm`: the buffer holds the elements of both segments.
* `mergeFrom_first_append_second`: both segments together are the buffer.
* `length_first_of_merge`, `length_second_of_merge`: a merge keeps the lengths of the segments.
-/

namespace SortNetwork

variable {α : Type}

/-- Two segments and the buffer after a merge. -/
structure Merged (α : Type) where
  first : List α
  second : List α
  buffer : List α

/-- The segment as a merge towards `target` reads it: forwards if it is sorted that way, and otherwise
backwards. -/
def readTowards (target orientation : Direction) (segment : List α) : List α :=
  if orientation = target then segment else segment.reverse

/-- Merges two segments of known orientation into a run sorted towards `target`. -/
def mergeFrom (cmp : α → α → Ordering) (target orientation₁ orientation₂ : Direction)
    (segment₁ segment₂ : List α) : Merged α :=
  let buffer := (readTowards target orientation₁ segment₁).merge
    (readTowards target orientation₂ segment₂) fun a b => target.before cmp a b
  { first := buffer.take segment₁.length, second := buffer.drop segment₁.length, buffer }

/-- Merges two segments of equal length, whose orientations are read off their ends.  Empty segments are
left alone, and the buffer with them. -/
def merge (cmp : α → α → Ordering) (target : Direction) (segment₁ segment₂ buffer : List α) :
    Except Fault (Merged α) :=
  if segment₁.length ≠ segment₂.length then
    .error (.valuesDiffer segment₁.length segment₂.length)
  else if segment₁.isEmpty then
    .ok { first := segment₁, second := segment₂, buffer }
  else
    .ok (mergeFrom cmp target (Direction.ofRun cmp segment₁) (Direction.ofRun cmp segment₂)
      segment₁ segment₂)

/-! ## what a merge does -/

/-- Segments of equal length that are not empty are merged by the orientations of their ends. -/
theorem merge_eq_ok (cmp : α → α → Ordering) (target : Direction) {segment₁ segment₂ : List α}
    (same : segment₁.length = segment₂.length) (nonempty : 0 < segment₁.length) (buffer : List α) :
    merge cmp target segment₁ segment₂ buffer =
      .ok (mergeFrom cmp target (.ofRun cmp segment₁) (.ofRun cmp segment₂) segment₁ segment₂) := by
  have some_element : ¬segment₁.isEmpty = true := by
    rw [List.isEmpty_iff_length_eq_zero]
    exact Nat.ne_of_gt nonempty
  rw [merge, if_neg (not_not_intro same), if_neg some_element]

/-! ## what a merge keeps -/

@[simp] theorem length_readTowards (target orientation : Direction) (segment : List α) :
    (readTowards target orientation segment).length = segment.length := by
  unfold readTowards
  split <;> simp

/-- Reading a segment from either end leaves nothing out. -/
theorem readTowards_perm (target orientation : Direction) (segment : List α) :
    (readTowards target orientation segment).Perm segment := by
  unfold readTowards
  split
  · exact .refl _
  · exact segment.reverse_perm

/-- The buffer holds the elements of both segments. -/
theorem buffer_mergeFrom_perm (cmp : α → α → Ordering) (target orientation₁ orientation₂ : Direction)
    (segment₁ segment₂ : List α) :
    (mergeFrom cmp target orientation₁ orientation₂ segment₁ segment₂).buffer.Perm
      (segment₁ ++ segment₂) :=
  (List.merge_perm_append ..).trans
    ((readTowards_perm target orientation₁ segment₁).append (readTowards_perm target orientation₂ segment₂))

/-- The buffer holds as many elements as both segments. -/
@[simp] theorem length_buffer_mergeFrom (cmp : α → α → Ordering)
    (target orientation₁ orientation₂ : Direction) (segment₁ segment₂ : List α) :
    (mergeFrom cmp target orientation₁ orientation₂ segment₁ segment₂).buffer.length =
      segment₁.length + segment₂.length := by
  rw [(buffer_mergeFrom_perm ..).length_eq, List.length_append]

/-- Both segments together are the buffer. -/
theorem mergeFrom_first_append_second (cmp : α → α → Ordering)
    (target orientation₁ orientation₂ : Direction) (segment₁ segment₂ : List α) :
    (mergeFrom cmp target orientation₁ orientation₂ segment₁ segment₂).first ++
        (mergeFrom cmp target orientation₁ orientation₂ segment₁ segment₂).second =
      (mergeFrom cmp target orientation₁ orientation₂ segment₁ segment₂).buffer :=
  List.take_append_drop ..

@[simp] theorem length_first_mergeFrom (cmp : α → α → Ordering)
    (target orientation₁ orientation₂ : Direction) (segment₁ segment₂ : List α) :
    (mergeFrom cmp target orientation₁ orientation₂ segment₁ segment₂).first.length =
      segment₁.length := by
  have := length_buffer_mergeFrom cmp target orientation₁ orientation₂ segment₁ segment₂
  simp only [mergeFrom] at this ⊢
  rw [List.length_take, this]
  omega

@[simp] theorem length_second_mergeFrom (cmp : α → α → Ordering)
    (target orientation₁ orientation₂ : Direction) (segment₁ segment₂ : List α) :
    (mergeFrom cmp target orientation₁ orientation₂ segment₁ segment₂).second.length =
      segment₂.length := by
  have := length_buffer_mergeFrom cmp target orientation₁ orientation₂ segment₁ segment₂
  simp only [mergeFrom] at this ⊢
  rw [List.length_drop, this]
  omega

/-- A merge keeps the length of the first segment. -/
theorem length_first_of_merge {cmp : α → α → Ordering} {target : Direction}
    {segment₁ segment₂ buffer : List α} {merged : Merged α}
    (h : merge cmp target segment₁ segment₂ buffer = .ok merged) :
    merged.first.length = segment₁.length := by
  unfold merge at h
  split at h
  · cases h
  · split at h <;> cases h <;> simp

/-- A merge keeps the length of the second segment. -/
theorem length_second_of_merge {cmp : α → α → Ordering} {target : Direction}
    {segment₁ segment₂ buffer : List α} {merged : Merged α}
    (h : merge cmp target segment₁ segment₂ buffer = .ok merged) :
    merged.second.length = segment₂.length := by
  unfold merge at h
  split at h
  · cases h
  · split at h <;> cases h <;> simp

end SortNetwork
