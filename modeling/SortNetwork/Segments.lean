import SortNetwork.ElementOrder
import SortNetwork.Merge
import SortNetwork.Word

/-!
# SortNetwork.Segments

A list of elements cut into segments of one size.

Elements at the end that do not fill a segment belong to none; they are the `rest`, and no operation reaches
them.  The two operations are sorting one segment and merging two; each locates its segments first and
faults without a trace if one does not exist, and otherwise changes only the segments it names.

* `toList_ofList`: cutting and joining gives the list back.
* `count_of_ofList`: there are as many segments as the size goes into the length.
* `runs_sortSegment`, `exists_merged_of_mergePair`: what an operation puts where.
* `getElem?_runs_sortSegment`, `getElem?_runs_mergePair`: no operation changes another segment.
* `length_sortSegment`, `length_mergePair`: no operation changes the length.
-/

namespace SortNetwork

/-- A list cut into segments of equal size, and what is left over. -/
structure Segments (α : Type) where
  segmentSize : Nat
  runs : Array (List α)
  rest : List α
  segmentSize_pos : 0 < segmentSize
  length_of_mem : ∀ run ∈ runs, run.length = segmentSize
  length_rest_lt : rest.length < segmentSize

namespace Segments

variable {α : Type}

/-- The number of whole segments. -/
def count (s : Segments α) : Nat := s.runs.size

/-- The elements in order. -/
def toList (s : Segments α) : List α := s.runs.toList.flatten ++ s.rest

/-- The number of elements. -/
def length (s : Segments α) : Nat := s.count * s.segmentSize + s.rest.length

/-- Segment `i` of a list, as far as the list reaches. -/
def slice (size : Nat) (data : List α) (i : Nat) : List α := (data.drop (i * size)).take size

theorem length_slice {size : Nat} {data : List α} {i : Nat} (h : i < data.length / size) :
    (slice size data i).length = size := by
  have whole : (i + 1) * size ≤ data.length := by
    have : (i + 1) * size ≤ data.length / size * size := Nat.mul_le_mul_right size h
    exact Nat.le_trans this (Nat.div_mul_le_self ..)
  rw [Nat.succ_mul] at whole
  simp only [slice, List.length_take, List.length_drop]
  omega

/-- Cuts a list into segments.  There is no segment of size zero. -/
def ofList (size : Nat) (data : List α) : Except Fault (Segments α) :=
  if h : 0 < size then
    .ok {
      segmentSize := size
      runs := ((List.range (data.length / size)).map (slice size data)).toArray
      rest := data.drop (data.length / size * size)
      segmentSize_pos := h
      length_of_mem := by
        intro run member
        simp only [List.mem_toArray, List.mem_map, List.mem_range] at member
        obtain ⟨i, inside, rfl⟩ := member
        exact length_slice inside
      length_rest_lt := by
        rw [List.length_drop]
        have := Nat.div_add_mod data.length size
        have := Nat.mod_lt data.length h
        rw [Nat.mul_comm size] at *
        omega }
  else .error .emptySegments

/-- Puts a run in the place of a segment. -/
def replace (s : Segments α) (i : Fin s.count) (run : List α) (fits : run.length = s.segmentSize) :
    Segments α :=
  { s with
    runs := s.runs.setIfInBounds i run
    length_of_mem := by
      intro other member
      rcases Array.mem_or_eq_of_mem_setIfInBounds member with old | rfl
      · exact s.length_of_mem other old
      · exact fits }

@[simp] theorem count_replace (s : Segments α) (i : Fin s.count) (run : List α)
    (fits : run.length = s.segmentSize) : (s.replace i run fits).count = s.count :=
  Array.size_setIfInBounds

@[simp] theorem segmentSize_replace (s : Segments α) (i : Fin s.count) (run : List α)
    (fits : run.length = s.segmentSize) : (s.replace i run fits).segmentSize = s.segmentSize := rfl

@[simp] theorem rest_replace (s : Segments α) (i : Fin s.count) (run : List α)
    (fits : run.length = s.segmentSize) : (s.replace i run fits).rest = s.rest := rfl

/-- Finds a segment: it must exist, and its first element must have a place in a word. -/
def locate (s : Segments α) (id : Nat) : Except Fault (Fin s.count) :=
  if h : id < s.count then
    match Word.mul id s.segmentSize with
    | .ok _ => .ok ⟨id, h⟩
    | .error fault => .error fault
  else .error .segmentOutOfRange

/-- The elements of a located segment. -/
def get (s : Segments α) (i : Fin s.count) : List α :=
  have inside : i.val < s.runs.size := i.isLt
  s.runs[i.val]

/-- A located segment has the size of all segments. -/
@[simp] theorem length_get (s : Segments α) (i : Fin s.count) : (s.get i).length = s.segmentSize :=
  s.length_of_mem _ (Array.getElem_mem i.isLt)

/-- The elements of a segment. -/
def segment (s : Segments α) (id : Nat) : Except Fault (List α) :=
  match s.locate id with
  | .ok i => .ok (s.get i)
  | .error fault => .error fault

/-- Sorts one segment. -/
def sortSegment (order : ElementOrder α) (s : Segments α) (id : Nat) : Except Fault (Segments α) :=
  match s.locate id with
  | .ok i => .ok (s.replace i (order.sortRun (s.get i)) (by simp))
  | .error fault => .error fault

/-- Merges two different segments and leaves the front of the merged run in the first. -/
def mergePair (cmp : α → α → Ordering) (s : Segments α) (a b : Nat) (direction : Direction)
    (buffer : List α) : Except Fault (Segments α × List α) :=
  if a = b then .error (.valuesAgree a b)
  else
    match s.locate a, s.locate b with
    | .error fault, _ => .error fault
    | .ok _, .error fault => .error fault
    | .ok i, .ok j =>
      match merged : merge cmp direction (s.get i) (s.get j) buffer with
      | .error fault => .error fault
      | .ok result =>
        let front := s.replace i result.first (by rw [length_first_of_merge merged, length_get])
        .ok (front.replace (j.cast (count_replace ..).symm) result.second
          (by rw [length_second_of_merge merged, length_get]; rfl), result.buffer)

/-! ## cutting and joining -/

theorem flatten_slices (size : Nat) (data : List α) (m : Nat) :
    ((List.range m).map (slice size data)).flatten = data.take (m * size) := by
  induction m with
  | zero => simp
  | succ m ih =>
    rw [List.range_succ, List.map_append, List.flatten_append, ih, Nat.succ_mul, List.take_add]
    simp [slice]

/-- Cutting and joining gives the list back. -/
theorem toList_ofList {size : Nat} {data : List α} {s : Segments α} (h : ofList size data = .ok s) :
    s.toList = data := by
  unfold ofList at h
  split at h
  · cases h
    simp only [toList, flatten_slices, List.take_append_drop]
  · cases h

/-- There are as many segments as the size goes into the length. -/
theorem count_of_ofList {size : Nat} {data : List α} {s : Segments α} (h : ofList size data = .ok s) :
    s.count = data.length / size := by
  unfold ofList at h
  split at h
  · cases h
    simp [count]
  · cases h

theorem segmentSize_of_ofList {size : Nat} {data : List α} {s : Segments α}
    (h : ofList size data = .ok s) : s.segmentSize = size := by
  unfold ofList at h
  split at h <;> cases h
  rfl

/-- A list can be cut into segments of any size but zero. -/
theorem exists_ofList {size : Nat} (h : 0 < size) (data : List α) :
    ∃ s, ofList size data = .ok s := by
  unfold ofList
  rw [dif_pos h]
  exact ⟨_, rfl⟩

/-! ## what an operation changes -/

@[simp] theorem runs_replace (s : Segments α) (i : Fin s.count) (run : List α)
    (fits : run.length = s.segmentSize) : (s.replace i run fits).runs = s.runs.setIfInBounds i run := rfl

/-- A located segment is the one asked for. -/
theorem val_of_locate {s : Segments α} {id : Nat} {i : Fin s.count} (found : s.locate id = .ok i) :
    i.val = id := by
  unfold locate at found
  split at found
  · split at found <;> cases found
    rfl
  · cases found

theorem getElem?_runs (s : Segments α) (i : Fin s.count) : s.runs[i.val]? = some (s.get i) :=
  Array.getElem?_eq_getElem i.isLt

/-- Sorting a segment puts its sorted run in its place, and nothing else. -/
theorem runs_sortSegment {order : ElementOrder α} {s t : Segments α} {id : Nat}
    (h : s.sortSegment order id = .ok t) : t.runs = s.runs.modify id order.sortRun := by
  unfold sortSegment at h
  split at h
  · next i found =>
    cases h
    obtain rfl := val_of_locate found
    apply Array.ext_getElem?
    intro place
    rw [runs_replace, Array.getElem?_modify]
    by_cases here : i.val = place
    · subst here
      have inside : i.val < s.runs.size := i.isLt
      rw [Array.getElem?_setIfInBounds_self_of_lt inside, if_pos rfl, getElem?_runs, Option.map_some]
    · simp [here]
  · cases h

/-- Merging two segments puts the front of the merged run in the place of the first and the back in the
place of the second, and nothing else. -/
theorem exists_merged_of_mergePair {cmp : α → α → Ordering} {s t : Segments α} {a b : Nat}
    {direction : Direction} {buffer after : List α}
    (h : s.mergePair cmp a b direction buffer = .ok (t, after)) :
    ∃ run₁ run₂ merged, s.runs[a]? = some run₁ ∧ s.runs[b]? = some run₂ ∧ a ≠ b ∧
      merge cmp direction run₁ run₂ buffer = .ok merged ∧ after = merged.buffer ∧
      t.runs = (s.runs.setIfInBounds a merged.first).setIfInBounds b merged.second := by
  unfold mergePair at h
  split at h
  · cases h
  · next distinct =>
    split at h
    · cases h
    · cases h
    · next i j found₁ found₂ =>
      split at h
      · cases h
      · next merged eq =>
        cases h
        obtain rfl := val_of_locate found₁
        obtain rfl := val_of_locate found₂
        exact ⟨_, _, merged, s.getElem?_runs i, s.getElem?_runs j, distinct, eq, rfl, rfl⟩

/-- Sorting a segment leaves all others alone. -/
theorem getElem?_runs_sortSegment {order : ElementOrder α} {s t : Segments α} {id other : Nat}
    (h : s.sortSegment order id = .ok t) (distinct : other ≠ id) : t.runs[other]? = s.runs[other]? := by
  rw [runs_sortSegment h, Array.getElem?_modify]
  simp [Ne.symm distinct]

/-- Merging two segments leaves all others alone. -/
theorem getElem?_runs_mergePair {cmp : α → α → Ordering} {s t : Segments α} {a b other : Nat}
    {direction : Direction} {buffer after : List α}
    (h : s.mergePair cmp a b direction buffer = .ok (t, after)) (not_first : other ≠ a)
    (not_second : other ≠ b) : t.runs[other]? = s.runs[other]? := by
  obtain ⟨_, _, _, _, _, _, _, _, changed⟩ := exists_merged_of_mergePair h
  rw [changed, Array.getElem?_setIfInBounds_ne (Ne.symm not_second),
    Array.getElem?_setIfInBounds_ne (Ne.symm not_first)]

/-! ## lengths -/

/-- The elements are those of the segments and the rest. -/
theorem length_toList (s : Segments α) : s.toList.length = s.length := by
  have sizes : ∀ runs : List (List α), (∀ run ∈ runs, run.length = s.segmentSize) →
      runs.flatten.length = runs.length * s.segmentSize := by
    intro runs
    induction runs with
    | nil => simp
    | cons run runs ih =>
      intro all
      rw [List.flatten_cons, List.length_append, all run (by simp), ih fun r m => all r (by simp [m]),
        List.length_cons, Nat.succ_mul, Nat.add_comm]
  rw [toList, length, List.length_append, sizes s.runs.toList fun run member =>
    s.length_of_mem run (Array.mem_toList_iff.1 member)]
  rfl

theorem count_sortSegment {order : ElementOrder α} {s t : Segments α} {id : Nat}
    (h : s.sortSegment order id = .ok t) : t.count = s.count := by
  unfold sortSegment at h
  split at h <;> cases h
  simp

/-- Sorting a segment keeps the shape. -/
theorem length_sortSegment {order : ElementOrder α} {s t : Segments α} {id : Nat}
    (h : s.sortSegment order id = .ok t) : t.length = s.length := by
  unfold sortSegment at h
  split at h <;> cases h
  simp [length]

/-- Merging two segments keeps the shape. -/
theorem length_mergePair {cmp : α → α → Ordering} {s t : Segments α} {a b : Nat}
    {direction : Direction} {buffer after : List α}
    (h : s.mergePair cmp a b direction buffer = .ok (t, after)) : t.length = s.length := by
  unfold mergePair at h
  split at h
  · cases h
  · split at h
    · cases h
    · cases h
    · split at h <;> cases h
      simp [length]

end Segments

end SortNetwork
