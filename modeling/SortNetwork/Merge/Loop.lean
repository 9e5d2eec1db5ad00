import SortNetwork.Merge

/-!
# SortNetwork.Merge.Loop

A merge as it is carried out: by a loop over two pointers, through a buffer that was used before.

The buffer is emptied, and the loop moves the elements of both segments into it, one at a time.  Then it is
cut where the first segment ends, and the two parts are copied back over the segments.  A cut past the end
and a copy of the wrong length are faults.

Nothing is asked of the segments: they need not be sorted, nor equally long.

* `toList_pour`: the loop appends the merged run to the buffer.
* `mergeThrough_eq_ok`: every length fits, and the merge leaves what `mergeFrom` says, whatever the buffer
  held before.
-/

namespace SortNetwork

variable {α : Type}

/-- Moves two runs to the end of a buffer.  Each run begins at its pointer; once one of them is used up, the
other follows as a whole. -/
def pour (firstWins : α → α → Bool) : List α → List α → Array α → Array α
  | a :: as, b :: bs, buffer =>
    if firstWins a b then pour firstWins as (b :: bs) (buffer.push a)
    else pour firstWins (a :: as) bs (buffer.push b)
  | a :: as, [], buffer => buffer.push a ++ as
  | [], b :: bs, buffer => buffer.push b ++ bs
  | [], [], buffer => buffer
termination_by as bs => as.length + bs.length

/-- Copies a part of the buffer over a segment, which must be as long. -/
def overwrite (segment part : List α) : Except Fault (List α) :=
  if segment.length = part.length then .ok part
  else .error (.valuesDiffer segment.length part.length)

/-- Cuts the buffer where the first segment ends, and copies both parts back. -/
def copyBack (segment₁ segment₂ buffer : List α) : Except Fault (Merged α) := do
  if buffer.length < segment₁.length then throw .splitPastEnd
  let first ← overwrite segment₁ (buffer.take segment₁.length)
  let second ← overwrite segment₂ (buffer.drop segment₁.length)
  return { first, second, buffer }

/-- Merges two segments of known orientation through a buffer. -/
def mergeThrough (cmp : α → α → Ordering) (target orientation₁ orientation₂ : Direction)
    (segment₁ segment₂ buffer : List α) : Except Fault (Merged α) :=
  let filled := pour (target.before cmp) (readTowards target orientation₁ segment₁)
    (readTowards target orientation₂ segment₂) (buffer.toArray.shrink 0)
  copyBack segment₁ segment₂ filled.toList

/-- The loop appends the merged run to the buffer. -/
theorem toList_pour (firstWins : α → α → Bool) (as bs : List α) (buffer : Array α) :
    (pour firstWins as bs buffer).toList = buffer.toList ++ as.merge bs firstWins := by
  fun_induction pour firstWins as bs buffer with
  | case1 a as b bs buffer wins ih => simp [ih, wins]
  | case2 a as b bs buffer loses ih => simp [ih, loses]
  | case3 a as buffer => simp
  | case4 b bs buffer => simp
  | case5 buffer => simp

/-- A buffer that holds as many elements as both segments is cut into parts of their lengths. -/
theorem length_parts {segment₁ segment₂ buffer : List α}
    (fits : buffer.length = segment₁.length + segment₂.length) :
    segment₁.length = (buffer.take segment₁.length).length ∧
      segment₂.length = (buffer.drop segment₁.length).length := by
  rw [List.length_take, List.length_drop]
  omega

/-- A buffer that holds as many elements as both segments can be copied back. -/
theorem copyBack_eq_ok {segment₁ segment₂ buffer : List α}
    (fits : buffer.length = segment₁.length + segment₂.length) :
    copyBack segment₁ segment₂ buffer =
      .ok { first := buffer.take segment₁.length, second := buffer.drop segment₁.length, buffer } := by
  obtain ⟨first, second⟩ := length_parts fits
  unfold copyBack overwrite
  rw [if_neg (by omega), if_pos first, if_pos second]
  rfl

/-- A merge fills the buffer with what it should, whatever the buffer held before. -/
theorem toList_pour_shrink (cmp : α → α → Ordering) (target orientation₁ orientation₂ : Direction)
    (segment₁ segment₂ buffer : List α) :
    (pour (target.before cmp) (readTowards target orientation₁ segment₁)
        (readTowards target orientation₂ segment₂) (buffer.toArray.shrink 0)).toList =
      (mergeFrom cmp target orientation₁ orientation₂ segment₁ segment₂).buffer := by
  rw [toList_pour]
  simp [mergeFrom]

/-- Every length fits, and the merge leaves what it should, whatever the buffer held before. -/
theorem mergeThrough_eq_ok (cmp : α → α → Ordering) (target orientation₁ orientation₂ : Direction)
    (segment₁ segment₂ buffer : List α) :
    mergeThrough cmp target orientation₁ orientation₂ segment₁ segment₂ buffer =
      .ok (mergeFrom cmp target orientation₁ orientation₂ segment₁ segment₂) := by
  rw [mergeThrough, toList_pour_shrink, copyBack_eq_ok (length_buffer_mergeFrom ..)]
  rfl

end SortNetwork
