import Mathlib
import SortNetwork.Proofs.Lists
import SortNetwork.Proofs.Tasks.Stages
import SortNetwork.Proofs.Tasks.Admissible

/-!
# SortNetwork.Proofs.Segments

What a task does to the segments.

`Segments.Holds` reads segments as cells, one for each segment.  A task applies if its segments exist and
differ (`SegmentTask.Applies`); then it succeeds whatever the buffer holds, and leaves the cells that the rule
for runs says (`exists_perform_of_applies`).  The tasks of the network apply (`exists_perform`).  No task loses
or invents an element (`toList_perm_of_perform`).  Blocks of segments are segments of a multiple of the size
(`Holds.slice_block`).
-/

namespace SortNetwork

variable {α : Type}

namespace Segments

/-- The segments are `n` of a size, with these contents, and this is what is left over. -/
structure Holds (s : Segments α) (n size : Nat) (rest : List α) (cells : Nat → List α) : Prop where
  count_eq : s.count = n
  size_eq : s.segmentSize = size
  rest_eq : s.rest = rest
  getElem?_eq : ∀ i < n, s.runs[i]? = some (cells i)

variable {s t : Segments α} {n size id a b : Nat} {rest buffer : List α} {cells other : Nat → List α}
  {order : ElementOrder α}

/-- Two different segments that exist are merged, whatever the buffer holds. -/
theorem mergePair_eq_ok (cmp : α → α → Ordering) (distinct : a ≠ b) {i j : Fin s.count}
    (found : s.locate a = .ok i) (found' : s.locate b = .ok j) (d : Direction) (buffer : List α) :
    let merged := mergeFrom cmp d (.ofRun cmp (s.get i)) (.ofRun cmp (s.get j)) (s.get i) (s.get j)
    s.mergePair cmp a b d buffer =
      .ok ((s.replace i merged.first (by simp [merged])).replace (j.cast (count_replace ..).symm)
        merged.second (by rw [segmentSize_replace]; simp [merged]), merged.buffer) := by
  have ok : SortNetwork.merge cmp d (s.get i) (s.get j) buffer = .ok _ :=
    merge_eq_ok cmp d (by simp) (by simpa using s.segmentSize_pos) buffer
  unfold mergePair
  rw [if_neg distinct, found, found']
  dsimp only
  split
  · next fails => simp [ok] at fails
  · next result merged =>
    obtain rfl := Except.ok.inj (merged.symm.trans ok)
    rfl

namespace Holds

theorem runs_eq (h : s.Holds n size rest cells) : s.runs.toList = (List.range n).map cells := by
  apply List.ext_getElem?
  intro i
  rw [Array.getElem?_toList, List.getElem?_map]
  by_cases inside : i < n
  · rw [h.getElem?_eq i inside, List.getElem?_range inside]
    rfl
  · have outside : s.runs.size ≤ i := by
      have := h.count_eq
      rw [count] at this
      omega
    rw [Array.getElem?_eq_none outside, List.getElem?_eq_none (by simpa using inside)]
    rfl

theorem toList_eq (h : s.Holds n size rest cells) :
    s.toList = ((List.range n).map cells).flatten ++ rest := by
  rw [toList, h.runs_eq, h.rest_eq]

/-- What follows the segments is the rest. -/
theorem drop_toList (h : s.Holds n size rest cells) : s.toList.drop (n * size) = rest := by
  have long : s.runs.toList.flatten.length = n * size := by
    have both := s.length_toList
    rw [toList, List.length_append, length, h.count_eq, h.size_eq] at both
    omega
  rw [toList, List.drop_left' long, h.rest_eq]

/-- The contents determine the segments. -/
theorem eq (h : s.Holds n size rest cells) (h' : t.Holds n size rest other)
    (same : ∀ i < n, cells i = other i) : s = t := by
  have runs : s.runs = t.runs := by
    apply Array.toList_inj.1
    rw [h.runs_eq, h'.runs_eq]
    exact List.map_congr_left fun i member => same i (List.mem_range.1 member)
  have sizes := h.size_eq.trans h'.size_eq.symm
  have rests := h.rest_eq.trans h'.rest_eq.symm
  cases s
  cases t
  simp_all

theorem locate_eq (h : s.Holds n size rest cells) (fits : n * size < Word.capacity) (inside : id < n) :
    ∃ i, s.locate id = .ok i ∧ i.val = id ∧ s.get i = cells id := by
  obtain rfl := h.size_eq
  obtain rfl := h.count_eq
  have small : id * s.segmentSize < Word.capacity :=
    Nat.lt_of_le_of_lt (Nat.mul_le_mul_right _ (Nat.le_of_lt inside)) fits
  refine ⟨⟨id, inside⟩, ?_, rfl, ?_⟩
  · rw [locate, dif_pos inside, Word.mul, if_pos small]
  · have := h.getElem?_eq id inside
    rw [s.getElem?_runs ⟨id, inside⟩] at this
    exact Option.some.inj this

/-- Putting runs of the right length in the places of segments. -/
theorem replace (h : s.Holds n size rest cells) (i : Fin s.count) {run : List α}
    (fits : run.length = s.segmentSize) :
    (s.replace i run fits).Holds n size rest (Function.update cells i run) where
  count_eq := by rw [count_replace, h.count_eq]
  size_eq := h.size_eq
  rest_eq := h.rest_eq
  getElem?_eq := by
    intro place inside
    have within : i.val < s.runs.size := i.isLt
    rw [runs_replace]
    by_cases here : i.val = place
    · rw [← here, Array.getElem?_setIfInBounds_self_of_lt within, Function.update_self]
    · rw [Array.getElem?_setIfInBounds_ne here, Function.update_of_ne (Ne.symm here),
        h.getElem?_eq place inside]

theorem exists_sortSegment (h : s.Holds n size rest cells) (fits : n * size < Word.capacity)
    (inside : id < n) :
    ∃ t, s.sortSegment order id = .ok t ∧
      t.Holds n size rest (Function.update cells id (order.sortRun (cells id))) := by
  obtain ⟨i, found, rfl, contents⟩ := h.locate_eq fits inside
  refine ⟨s.replace i (order.sortRun (s.get i)) (by simp), ?_, ?_⟩
  · rw [sortSegment, found]
  · rw [← contents]
    exact h.replace i _

theorem exists_mergePair (order : ElementOrder α) (h : s.Holds n size rest cells)
    (fits : n * size < Word.capacity)
    (first : a < n) (second : b < n) (distinct : a ≠ b) (d : Direction) (buffer : List α) :
    ∃ t after, s.mergePair order.cmp a b d buffer = .ok (t, after) ∧
      let merged := (Rule.runs order).merge d (cells a) (cells b)
      t.Holds n size rest (Function.update (Function.update cells a merged.1) b merged.2) := by
  obtain ⟨i, found, rfl, contents⟩ := h.locate_eq fits first
  obtain ⟨j, found', rfl, contents'⟩ := h.locate_eq fits second
  refine ⟨_, _, mergePair_eq_ok order.cmp distinct found found' d buffer, ?_⟩
  rw [← contents, ← contents']
  exact (h.replace i _).replace _ _

end Holds

/-! ## no element is lost -/

theorem toList_replace_perm (s : Segments α) (i : Fin s.count) (run : List α)
    (fits : run.length = s.segmentSize) :
    ((s.replace i run fits).toList ++ s.get i).Perm (s.toList ++ run) := by
  have within : i.val < s.runs.toList.length := i.isLt
  have changed := flatMap_set_perm id s.runs.toList i run within
  simp only [List.flatMap_id, id_eq] at changed
  have got : s.runs.toList[i.val] = s.get i := Array.getElem_toList _
  rw [got] at changed
  rw [toList, toList, runs_replace, rest_replace, Array.toList_setIfInBounds]
  classical
  rw [List.perm_iff_count] at changed ⊢
  intro a
  have := changed a
  simp only [List.count_append] at this ⊢
  omega

theorem toList_perm_of_sortSegment (h : s.sortSegment order id = .ok t) : t.toList.Perm s.toList := by
  unfold sortSegment at h
  split at h
  · next i found =>
    cases h
    have exchanged := s.toList_replace_perm i (order.sortRun (s.get i)) (by simp)
    exact (List.perm_append_right_iff _).1 (exchanged.trans ((order.sortRun_perm _).append_left _))
  · cases h

/-- A merge returns the elements of both segments. -/
theorem perm_of_merge {cmp : α → α → Ordering} {d : Direction} {run₁ run₂ : List α} {merged : Merged α}
    (h : merge cmp d run₁ run₂ buffer = .ok merged) :
    (merged.first ++ merged.second).Perm (run₁ ++ run₂) := by
  unfold merge at h
  split at h
  · cases h
  · split at h
    · cases h
      exact .refl _
    · cases h
      rw [mergeFrom_first_append_second]
      exact buffer_mergeFrom_perm ..

theorem toList_perm_of_mergePair {cmp : α → α → Ordering} {d : Direction} {after : List α}
    (h : s.mergePair cmp a b d buffer = .ok (t, after)) : t.toList.Perm s.toList := by
  unfold mergePair at h
  split at h
  · cases h
  · next distinct =>
    split at h
    · cases h
    · cases h
    · next i j found found' =>
      split at h
      · cases h
      · next result merged =>
        cases h
        have fits : result.first.length = s.segmentSize := by
          rw [length_first_of_merge merged, length_get]
        have fits' : result.second.length = s.segmentSize := by
          rw [length_second_of_merge merged, length_get]
        have apart : i.val ≠ j.val := by
          rw [val_of_locate found, val_of_locate found']
          exact distinct
        have untouched :
            (s.replace i result.first fits).get (j.cast (count_replace ..).symm) = s.get j := by
          simp only [get, runs_replace, Fin.val_cast]
          exact Array.getElem_setIfInBounds_ne _ apart
        have first := s.toList_replace_perm i result.first fits
        have second := (s.replace i result.first fits).toList_replace_perm
          (j.cast (count_replace ..).symm) result.second fits'
        have both := perm_of_merge merged
        rw [untouched] at second
        classical
        rw [List.perm_iff_count] at first second both ⊢
        intro a
        have := first a
        have := second a
        have := both a
        simp only [List.count_append] at *
        omega

end Segments

/-! ## tasks -/

namespace SegmentTask

variable {n size m : Nat} {rest : List α} {cells : Nat → List α} {order : ElementOrder α}
  {task : SegmentTask} {bench after : Bench α}

/-- The segments that a task touches are among the first `count`, and none of them twice. -/
def Applies (count : Nat) (task : SegmentTask) : Prop :=
  (∀ id ∈ task.touched, id < count) ∧ task.touched.Nodup

instance (count : Nat) (task : SegmentTask) : Decidable (task.Applies count) :=
  inferInstanceAs (Decidable (_ ∧ _))

theorem applies_sort {count id : Nat} : (sort id).Applies count ↔ id < count := by
  simp [Applies, touched]

theorem applies_merge {count : Nat} {pair : Pair} :
    (merge pair).Applies count ↔ pair.lower < count ∧ pair.upper < count ∧ pair.lower ≠ pair.upper := by
  simp [Applies, touched, and_assoc]

/-- A task whose segments exist succeeds, whatever the buffer holds, and leaves the cells that it should. -/
theorem exists_perform_of_applies (order : ElementOrder α) (fits : n * size < Word.capacity)
    (applies : task.Applies n) (holds : bench.segments.Holds n size rest cells) :
    ∃ after, task.perform order bench = .ok after ∧
      after.segments.Holds n size rest (task.effect (Rule.runs order) cells) := by
  cases task with
  | sort id =>
    obtain ⟨t, done, holds'⟩ := holds.exists_sortSegment fits (applies_sort.1 applies)
    exact ⟨{ bench with segments := t }, by rw [perform, done], holds'⟩
  | merge pair =>
    obtain ⟨first, second, distinct⟩ := applies_merge.1 applies
    obtain ⟨t, left, done, holds'⟩ := holds.exists_mergePair order fits first second distinct
      pair.direction bench.buffer
    exact ⟨⟨t, left⟩, by rw [perform, done], holds'⟩

/-- A task succeeds only if its segments exist and differ. -/
theorem applies_of_perform (h : task.perform order bench = .ok after) :
    task.Applies bench.segments.count := by
  cases task with
  | sort id =>
    rw [perform] at h
    split at h
    · next done =>
      unfold Segments.sortSegment at done
      split at done
      · next i found => exact applies_sort.2 (Segments.val_of_locate found ▸ i.isLt)
      · cases done
    · cases h
  | merge pair =>
    rw [perform] at h
    split at h
    · next done =>
      obtain ⟨_, _, _, first, second, distinct, -⟩ := Segments.exists_merged_of_mergePair done
      obtain ⟨inside, -⟩ := Array.getElem?_eq_some_iff.1 first
      obtain ⟨inside', -⟩ := Array.getElem?_eq_some_iff.1 second
      exact applies_merge.2 ⟨inside, inside', distinct⟩
    · cases h

/-- A task of the network succeeds, whatever the buffer holds, and leaves the cells that it should. -/
theorem exists_perform (order : ElementOrder α) (fits : 2 ^ m * size < Word.capacity)
    (small : 2 ^ m < Word.capacity)
    (member : task ∈ tasks (2 ^ m)) (holds : bench.segments.Holds (2 ^ m) size rest cells) :
    ∃ after, task.perform order bench = .ok after ∧
      after.segments.Holds (2 ^ m) size rest (task.effect (Rule.runs order) cells) :=
  exists_perform_of_applies order fits
    ⟨fun _ touches => lt_of_mem_touched small member touches, nodup_touched member⟩ holds

theorem toList_perm_of_perform (h : task.perform order bench = .ok after) :
    after.segments.toList.Perm bench.segments.toList := by
  cases task with
  | sort id =>
    rw [perform] at h
    split at h
    · next done =>
      cases h
      exact Segments.toList_perm_of_sortSegment done
    · cases h
  | merge pair =>
    rw [perform] at h
    split at h
    · next done =>
      cases h
      exact Segments.toList_perm_of_mergePair done
    · cases h

end SegmentTask

/-! ## a list that is cut -/

namespace Segments

variable {n size : Nat} {data : List α} {s : Segments α}

theorem holds_of_ofList (h : ofList size data = .ok s) :
    s.Holds (data.length / size) size (data.drop (data.length / size * size)) (slice size data) := by
  have sizes := segmentSize_of_ofList h
  have counts := count_of_ofList h
  unfold ofList at h
  split at h
  · cases h
    refine ⟨counts, sizes, rfl, fun i inside => ?_⟩
    simp [inside]
  · cases h

/-- A large segment is made of small ones. -/
theorem slice_mul (size k q : Nat) (data : List α) :
    slice (k * size) data q = (List.range' (k * q) k).flatMap (slice size data) := by
  have shift : ∀ i, slice size data (k * q + i) = slice size (data.drop (k * q * size)) i := by
    intro i
    rw [slice, slice, List.drop_drop, Nat.add_mul]
  rw [List.range'_eq_map_range, List.flatMap_map, List.flatMap_def, List.map_congr_left fun i _ => shift i,
    flatten_slices, slice]
  congr 2
  ring

/-- Cutting runs of one size that were joined gives the runs back. -/
theorem slice_flatten {runs : List (List α)} {rest : List α} (sizes : ∀ run ∈ runs, run.length = size)
    {i : Nat} (inside : i < runs.length) : slice size (runs.flatten ++ rest) i = runs[i] := by
  induction runs generalizing i with
  | nil => cases inside
  | cons run runs ih =>
    have long : run.length = size := sizes run (by simp)
    rw [List.flatten_cons, List.append_assoc, slice]
    cases i with
    | zero => rw [Nat.zero_mul, List.drop_zero, List.take_left' long, List.getElem_cons_zero]
    | succ i =>
      rw [Nat.succ_mul, Nat.add_comm, ← List.drop_drop, List.drop_left' long, List.getElem_cons_succ]
      exact ih (fun other member => sizes other (by simp [member])) (by simpa using inside)

theorem Holds.slice_toList {rest : List α} {cells : Nat → List α} (h : s.Holds n size rest cells) {i : Nat}
    (inside : i < n) : slice size s.toList i = cells i := by
  have sizes : ∀ run ∈ (List.range n).map cells, run.length = size := by
    intro run member
    rw [← h.runs_eq, Array.mem_toList_iff] at member
    rw [s.length_of_mem run member, h.size_eq]
  rw [h.toList_eq, slice_flatten sizes (by simpa using inside), List.getElem_map, List.getElem_range]

/-- A block of `k` segments is a segment of `k` times the size. -/
theorem Holds.slice_block {rest : List α} {cells : Nat → List α} (h : s.Holds n size rest cells) {k q : Nat}
    (block : k * q + k ≤ n) : slice (k * size) s.toList q = (List.range' (k * q) k).flatMap cells := by
  rw [slice_mul]
  refine List.flatMap_congr fun i member => h.slice_toList ?_
  have := (List.mem_range'_1.1 member).2
  omega

end Segments

end SortNetwork
