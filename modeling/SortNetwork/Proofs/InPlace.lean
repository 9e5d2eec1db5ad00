import Mathlib
import SortNetwork.Proofs.Segments
import SortNetwork.Segments.InPlace

/-!
# SortNetwork.Proofs.InPlace

What work in place does to a list, task after task.

A task in place leaves of the list what it leaves of the segments that the list is cut into, and faults
exactly as it does on those, with nothing written (`Layout.perform_eq`).  So whatever is known of segments
holds of their places: a task changes no place but those of its segments
(`Segments.Holds.getElem?_toList_eq`), no element gets lost, and the order of two tasks that share no segment
does not matter (`SegmentTask.attempt_comm`).

* `work_in_place`: any tasks in any order, possible or not, each with a buffer of its own.
-/

namespace SortNetwork

variable {α : Type}

/-! ## places -/

/-- Replacing a run of a list of runs of one size writes over its place in the whole. -/
theorem flatten_set_append {size : Nat} {runs : List (List α)} (sizes : ∀ run ∈ runs, run.length = size)
    {i : Nat} (inside : i < runs.length) {run : List α} (fits : run.length = size) (rest : List α) :
    (runs.set i run).flatten ++ rest = overlay (runs.flatten ++ rest) (i * size) run := by
  unfold overlay
  induction runs generalizing i with
  | nil => cases inside
  | cons first runs ih =>
    have long : first.length = size := sizes first (by simp)
    cases i with
    | zero => simp [fits, List.drop_left' long]
    | succ i =>
      have later := ih (fun other member => sizes other (by simp [member])) (Nat.lt_of_succ_lt_succ inside)
      have place : (i + 1) * size = first.length + i * size := by rw [Nat.succ_mul, Nat.add_comm, long]
      rw [List.set_cons_succ, List.flatten_cons, List.append_assoc, later, List.flatten_cons,
        List.append_assoc first, place, Nat.add_assoc, List.take_length_add_append,
        List.drop_length_add_append]
      simp only [List.append_assoc]

namespace Segments

variable {s t : Segments α}

/-- The layout of the list that the segments come from. -/
def layout (s : Segments α) : Layout := ⟨s.segmentSize, s.count⟩

@[simp] theorem segmentSize_layout (s : Segments α) : s.layout.segmentSize = s.segmentSize := rfl

@[simp] theorem count_layout (s : Segments α) : s.layout.count = s.count := rfl

theorem holds (s : Segments α) : s.Holds s.count s.segmentSize s.rest fun i => s.runs.getD i [] where
  count_eq := rfl
  size_eq := rfl
  rest_eq := rfl
  getElem?_eq i inside := by
    have within : i < s.runs.size := inside
    simp [within]

theorem toList_replace (s : Segments α) (i : Fin s.count) (run : List α)
    (fits : run.length = s.segmentSize) :
    (s.replace i run fits).toList = overlay s.toList (i * s.segmentSize) run := by
  have inside : i.val < s.runs.toList.length := i.isLt
  rw [toList, runs_replace, rest_replace, Array.toList_setIfInBounds, toList]
  exact flatten_set_append (fun run member => s.length_of_mem run (Array.mem_toList_iff.1 member)) inside
    fits _

theorem slice_toList (s : Segments α) (i : Fin s.count) :
    slice s.segmentSize s.toList i = s.get i := by
  have inside : i.val < s.runs.toList.length := i.isLt
  rw [toList, slice_flatten (fun run member => s.length_of_mem run (Array.mem_toList_iff.1 member)) inside]
  exact Array.getElem_toList _

/-- Where an element lies. -/
theorem getElem?_toList (s : Segments α) (p : Nat) : s.toList[p]? =
    if p / s.segmentSize < s.count then s.runs[p / s.segmentSize]?.bind fun run => run[p % s.segmentSize]?
    else s.rest[p - s.count * s.segmentSize]? := by
  have size_pos := s.segmentSize_pos
  split
  · next inside =>
    have run := s.slice_toList ⟨p / s.segmentSize, inside⟩
    rw [s.getElem?_runs ⟨p / s.segmentSize, inside⟩, Option.bind_some, ← run, slice,
      List.getElem?_take_of_lt (Nat.mod_lt p size_pos), List.getElem?_drop, Nat.div_add_mod']
  · next outside =>
    have after : s.count * s.segmentSize ≤ p := by
      rw [not_lt, Nat.le_div_iff_mul_le size_pos] at outside
      exact outside
    rw [← s.holds.drop_toList, List.getElem?_drop, Nat.add_sub_cancel' after]

end Segments

/-! ## in place -/

namespace InPlace

variable {β γ : Type}

theorem bind_apply (first : InPlace α β) (next : β → InPlace α γ) (memory : Memory α) :
    (first >>= next) memory =
      match first memory with
      | .ok b memory => next b memory
      | .error fault memory => .error fault memory := by
  change EStateM.bind first next memory = _
  unfold EStateM.bind
  cases first memory <;> rfl

theorem get_apply (memory : Memory α) : (get : InPlace α (Memory α)) memory = .ok memory memory := rfl

theorem modify_apply (change : Memory α → Memory α) (memory : Memory α) :
    (modify change : InPlace α Unit) memory = .ok () (change memory) := rfl

theorem ofExcept_apply (value : Except Fault β) (memory : Memory α) :
    (ofExcept value : InPlace α β) memory =
      match value with
      | .ok b => .ok b memory
      | .error fault => .error fault memory := by
  cases value <;> rfl

end InPlace

namespace Layout

open InPlace

variable {order : ElementOrder α} {s : Segments α} {id : Nat} {buffer : List α}

theorem start_layout (s : Segments α) (id : Nat) :
    s.layout.start id =
      match s.locate id with
      | .ok i => .ok (i.val * s.segmentSize)
      | .error fault => .error fault := by
  rw [start, Segments.locate, Segments.count_layout, Segments.segmentSize_layout]
  by_cases inside : id < s.count
  · rw [if_pos inside, dif_pos inside, Word.mul]
    split <;> rfl
  · rw [if_neg inside, dif_neg inside]

theorem read_layout (s : Segments α) (i : Fin s.count) (buffer : List α) :
    s.layout.read (i * s.segmentSize) ⟨s.toList, buffer⟩ = .ok (s.get i) ⟨s.toList, buffer⟩ := by
  rw [← s.slice_toList i]
  rfl

theorem sortSegment_eq (order : ElementOrder α) (s : Segments α) (id : Nat) (buffer : List α) :
    s.layout.sortSegment order id ⟨s.toList, buffer⟩ =
      match s.sortSegment order id with
      | .ok t => .ok () ⟨t.toList, buffer⟩
      | .error fault => .error fault ⟨s.toList, buffer⟩ := by
  unfold sortSegment Segments.sortSegment
  rw [bind_apply, ofExcept_apply, start_layout]
  cases s.locate id with
  | error fault => rfl
  | ok i =>
    dsimp only
    rw [bind_apply, read_layout, Segments.toList_replace]
    rfl

theorem copyOver_eq_ok (place : Nat) {segment part : List α} (same : segment.length = part.length)
    (memory : Memory α) :
    copyOver place segment part memory =
      .ok () { memory with elements := overlay memory.elements place part } := by
  rw [copyOver, bind_apply, ofExcept_apply, overwrite, if_pos same]
  rfl

/-- A buffer that holds as many elements as both segments can be copied back. -/
theorem scatter_eq_ok (place₁ place₂ : Nat) {segment₁ segment₂ : List α} {memory : Memory α}
    (fits : memory.buffer.length = segment₁.length + segment₂.length) :
    scatter place₁ place₂ segment₁ segment₂ memory = .ok ()
      { memory with
        elements := overlay (overlay memory.elements place₁ (memory.buffer.take segment₁.length)) place₂
          (memory.buffer.drop segment₁.length) } := by
  obtain ⟨first, second⟩ := length_parts fits
  have long : ¬memory.buffer.length < segment₁.length := by omega
  unfold scatter
  rw [bind_apply, get_apply]
  dsimp only
  rw [if_neg long, bind_apply, copyOver_eq_ok _ first]
  dsimp only
  rw [copyOver_eq_ok _ second]

theorem mergeAt_eq (cmp : α → α → Ordering) (target : Direction) (s : Segments α) (i j : Fin s.count)
    (buffer : List α) :
    let merged := mergeFrom cmp target (.ofRun cmp (s.get i)) (.ofRun cmp (s.get j)) (s.get i) (s.get j)
    s.layout.mergeAt cmp target (i * s.segmentSize) (j * s.segmentSize) ⟨s.toList, buffer⟩ =
      .ok () ⟨overlay (overlay s.toList (i * s.segmentSize) merged.first) (j * s.segmentSize) merged.second,
        merged.buffer⟩ := by
  intro merged
  have some_element : ¬(s.get i).isEmpty = true := by
    have := s.segmentSize_pos
    rw [List.isEmpty_iff_length_eq_zero, Segments.length_get]
    omega
  have fits : merged.buffer.length = (s.get i).length + (s.get j).length := length_buffer_mergeFrom ..
  unfold mergeAt
  rw [bind_apply, read_layout]
  dsimp only
  rw [bind_apply, read_layout]
  dsimp only
  rw [if_neg (by simp), if_neg some_element, bind_apply, modify_apply, toList_pour_shrink]
  dsimp only
  rw [scatter_eq_ok _ _ fits]
  rfl

/-- A merge of two segments in place is the merge of the segments. -/
theorem mergePair_eq (cmp : α → α → Ordering) (s : Segments α) (a b : Nat) (direction : Direction)
    (buffer : List α) :
    s.layout.mergePair cmp a b direction ⟨s.toList, buffer⟩ =
      match s.mergePair cmp a b direction buffer with
      | .ok (t, after) => .ok () ⟨t.toList, after⟩
      | .error fault => .error fault ⟨s.toList, buffer⟩ := by
  unfold mergePair
  by_cases same : a = b
  · rw [if_pos same, Segments.mergePair, if_pos same]
    rfl
  rw [if_neg same]
  dsimp only
  rw [bind_apply, ofExcept_apply, start_layout]
  cases found : s.locate a with
  | error fault =>
    rw [Segments.mergePair, if_neg same, found]
  | ok i =>
    dsimp only
    rw [bind_apply, ofExcept_apply, start_layout]
    cases found' : s.locate b with
    | error fault =>
      rw [Segments.mergePair, if_neg same, found, found']
    | ok j =>
      rw [Segments.mergePair_eq_ok cmp same found found']
      dsimp only
      rw [mergeAt_eq, Segments.toList_replace, Segments.toList_replace]
      rfl

/-- A task in place is the task on the segments. -/
theorem perform_eq (order : ElementOrder α) (bench : Bench α) (task : SegmentTask) :
    bench.segments.layout.perform order task ⟨bench.segments.toList, bench.buffer⟩ =
      match task.perform order bench with
      | .ok after => .ok () ⟨after.segments.toList, after.buffer⟩
      | .error fault => .error fault ⟨bench.segments.toList, bench.buffer⟩ := by
  cases task with
  | sort id =>
    rw [perform, sortSegment_eq, SegmentTask.perform]
    cases bench.segments.sortSegment order id <;> rfl
  | merge pair =>
    rw [perform, mergePair_eq, SegmentTask.perform]
    cases bench.segments.mergePair order.cmp pair.lower pair.upper pair.direction bench.buffer <;> rfl

/-- The list after a task that was handed a buffer. -/
def afterTask (layout : Layout) (order : ElementOrder α) (elements : List α)
    (call : SegmentTask × List α) : List α :=
  match layout.perform order call.1 ⟨elements, call.2⟩ with
  | .ok _ memory => memory.elements
  | .error _ memory => memory.elements

/-- The list after tasks in turn, each with a buffer of its own.  A fault ends a task, and the next one
begins with the list as it is. -/
def work (layout : Layout) (order : ElementOrder α) (calls : List (SegmentTask × List α))
    (elements : List α) : List α :=
  calls.foldl (layout.afterTask order) elements

end Layout

/-! ## what tasks leave -/

namespace SegmentTask

variable {β : Type} {rule : Rule β} {cells other : Nat → β} {first second task : SegmentTask} {count i : Nat}

/-- What a task leaves of a segment that it touches depends on no others. -/
theorem effect_congr (touches : i ∈ task.touched) (same : ∀ j ∈ task.touched, cells j = other j) :
    task.effect rule cells i = task.effect rule other i := by
  cases task with
  | sort id =>
    obtain rfl := mem_touched_sort.1 touches
    simp only [effect, Function.update_self, same i (mem_touched_sort.2 rfl)]
  | merge pair =>
    have lower := same pair.lower (mem_touched_merge.2 (.inl rfl))
    have upper := same pair.upper (mem_touched_merge.2 (.inr rfl))
    simp only [effect, lower, upper]
    by_cases last : i = pair.upper
    · rw [last, Function.update_self, Function.update_self]
    · have here : i = pair.lower := (mem_touched_merge.1 touches).resolve_right last
      rw [Function.update_of_ne last, Function.update_of_ne last, here, Function.update_self,
        Function.update_self]

/-- The cells after a task that changes nothing if it does not apply. -/
def attempt (rule : Rule β) (count : Nat) (cells : Nat → β) (task : SegmentTask) : Nat → β :=
  if task.Applies count then task.effect rule cells else cells

theorem attempt_of_not_mem (untouched : i ∉ task.touched) : task.attempt rule count cells i = cells i := by
  unfold attempt
  split
  · exact effect_of_not_mem untouched
  · rfl

theorem attempt_congr (touches : i ∈ task.touched) (same : ∀ j ∈ task.touched, cells j = other j) :
    task.attempt rule count cells i = task.attempt rule count other i := by
  unfold attempt
  split
  · exact effect_congr touches same
  · exact same i touches

/-- Two tasks that share no segment can be done in either order. -/
theorem attempt_comm (apart : first.touched.Disjoint second.touched) :
    second.attempt rule count (first.attempt rule count cells) =
      first.attempt rule count (second.attempt rule count cells) := by
  funext i
  by_cases touches : i ∈ first.touched
  · rw [attempt_of_not_mem (apart touches)]
    exact attempt_congr touches fun j here => (attempt_of_not_mem (apart here)).symm
  · rw [attempt_of_not_mem touches]
    by_cases touches' : i ∈ second.touched
    · exact attempt_congr touches' fun j here => attempt_of_not_mem fun there => apart there here
    · rw [attempt_of_not_mem touches', attempt_of_not_mem touches', attempt_of_not_mem touches]

end SegmentTask

namespace Segments.Holds

variable {s t : Segments α} {n size : Nat} {rest : List α} {cells other : Nat → List α}
  {order : ElementOrder α} {task : SegmentTask}

theorem layout_eq (h : s.Holds n size rest cells) : s.layout = ⟨size, n⟩ := by
  rw [layout, h.size_eq, h.count_eq]

/-- An element is where it was if its segment is as it was. -/
theorem getElem?_toList_eq (h : s.Holds n size rest cells) (h' : t.Holds n size rest other) {p : Nat}
    (same : cells (p / size) = other (p / size)) : s.toList[p]? = t.toList[p]? := by
  rw [getElem?_toList, getElem?_toList, h.size_eq, h'.size_eq, h.count_eq, h'.count_eq, h.rest_eq, h'.rest_eq]
  split
  · next inside => rw [h.getElem?_eq _ inside, h'.getElem?_eq _ inside, same]
  · rfl

/-- A task in place that applies leaves the segments that it should. -/
theorem exists_perform (h : s.Holds n size rest cells) (fits : n * size < Word.capacity)
    (applies : task.Applies n) (order : ElementOrder α) (buffer : List α) :
    ∃ (t : Segments α) (left : List α),
      Layout.perform ⟨size, n⟩ order task ⟨s.toList, buffer⟩ = .ok () ⟨t.toList, left⟩ ∧
        t.Holds n size rest (task.effect (Rule.runs order) cells) ∧ t.toList.Perm s.toList := by
  have bench : (Bench.mk s buffer).segments.Holds n size rest cells := h
  obtain ⟨after, done, holds⟩ := SegmentTask.exists_perform_of_applies order fits applies bench
  have same := Layout.perform_eq order ⟨s, buffer⟩ task
  rw [done, h.layout_eq] at same
  exact ⟨_, _, same, holds, SegmentTask.toList_perm_of_perform done⟩

/-- A task in place that does not apply changes nothing. -/
theorem exists_fault (h : s.Holds n size rest cells) (fails : ¬task.Applies n) (order : ElementOrder α)
    (buffer : List α) :
    ∃ fault, Layout.perform ⟨size, n⟩ order task ⟨s.toList, buffer⟩ = .error fault ⟨s.toList, buffer⟩ := by
  have same := Layout.perform_eq order ⟨s, buffer⟩ task
  rw [h.layout_eq] at same
  cases done : task.perform order ⟨s, buffer⟩ with
  | error fault =>
    rw [done] at same
    exact ⟨fault, same⟩
  | ok after =>
    refine absurd ?_ fails
    rw [← h.count_eq]
    exact SegmentTask.applies_of_perform done

/-- The segments after a task in place, whether it applies or not. -/
theorem exists_afterTask (h : s.Holds n size rest cells) (fits : n * size < Word.capacity)
    (order : ElementOrder α) (call : SegmentTask × List α) :
    ∃ t : Segments α, Layout.afterTask ⟨size, n⟩ order s.toList call = t.toList ∧
      t.Holds n size rest (call.1.attempt (Rule.runs order) n cells) ∧ t.toList.Perm s.toList := by
  unfold Layout.afterTask SegmentTask.attempt
  by_cases applies : call.1.Applies n
  · obtain ⟨t, left, done, holds, perm⟩ := h.exists_perform fits applies order call.2
    exact ⟨t, by rw [done], by rwa [if_pos applies], perm⟩
  · obtain ⟨fault, fails⟩ := h.exists_fault applies order call.2
    exact ⟨s, by rw [fails], by rwa [if_neg applies], .refl _⟩

/-- The segments after tasks in place, one after the other. -/
theorem exists_work (h : s.Holds n size rest cells) (fits : n * size < Word.capacity) (order : ElementOrder α)
    (calls : List (SegmentTask × List α)) :
    ∃ t : Segments α, Layout.work ⟨size, n⟩ order calls s.toList = t.toList ∧
      t.Holds n size rest
        (calls.foldl (fun cells call => call.1.attempt (Rule.runs order) n cells) cells) ∧
      t.toList.Perm s.toList := by
  induction calls generalizing s cells with
  | nil => exact ⟨s, rfl, h, .refl _⟩
  | cons call calls ih =>
    obtain ⟨t, first, holds, perm⟩ := h.exists_afterTask fits order call
    obtain ⟨u, later, holds', perm'⟩ := ih holds
    refine ⟨u, ?_, holds', perm'.trans perm⟩
    rw [← later, ← first]
    rfl

/-- Two tasks in place that share no segment can be done in either order. -/
theorem work_comm (h : s.Holds n size rest cells) (fits : n * size < Word.capacity) (order : ElementOrder α)
    {first second : SegmentTask} (apart : first.touched.Disjoint second.touched) (buffer buffer' : List α) :
    Layout.work ⟨size, n⟩ order [(first, buffer), (second, buffer')] s.toList =
      Layout.work ⟨size, n⟩ order [(second, buffer'), (first, buffer)] s.toList := by
  obtain ⟨t, done, holds, -⟩ := h.exists_work fits order [(first, buffer), (second, buffer')]
  obtain ⟨u, done', holds', -⟩ := h.exists_work fits order [(second, buffer'), (first, buffer)]
  rw [done, done', holds.eq holds' fun i _ => congrFun (SegmentTask.attempt_comm apart) i]

end Segments.Holds

/-! ## any tasks -/

/-- Tasks in place on a list, for any segments and in any order, each with a buffer of its own.

A task succeeds exactly if its segments exist and differ, and then it changes no element outside of them;
otherwise it faults and leaves the list and its buffer as they are.  Whatever the tasks before it were, the
list is a permutation of what it was at first, with the same elements in the same places after the last
segment.  Of two tasks that share no segment, merges or not, either can be the first. -/
theorem work_in_place (order : ElementOrder α) {size : Nat} (some_ : 0 < size) (data : List α)
    (fits : data.length < Word.capacity) (calls : List (SegmentTask × List α)) :
    let count := data.length / size
    let elements := Layout.work ⟨size, count⟩ order calls data
    Layout.new size data.length = .ok ⟨size, count⟩ ∧
    elements.Perm data ∧ elements.drop (count * size) = data.drop (count * size) ∧
    (∀ task buffer,
      (task.Applies count →
        ∃ after left, Layout.perform ⟨size, count⟩ order task ⟨elements, buffer⟩ = .ok () ⟨after, left⟩ ∧
          ∀ p, p / size ∉ task.touched → after[p]? = elements[p]?) ∧
      (¬task.Applies count →
        ∃ fault, Layout.perform ⟨size, count⟩ order task ⟨elements, buffer⟩ =
          .error fault ⟨elements, buffer⟩)) ∧
    ∀ first second : SegmentTask, first.touched.Disjoint second.touched → ∀ buffer buffer',
      Layout.work ⟨size, count⟩ order [(first, buffer), (second, buffer')] elements =
        Layout.work ⟨size, count⟩ order [(second, buffer'), (first, buffer)] elements := by
  intro count elements
  have within : count * size < Word.capacity := (Nat.div_mul_le_self ..).trans_lt fits
  obtain ⟨s, cut⟩ := Segments.exists_ofList some_ data
  have whole := Segments.toList_ofList cut
  obtain ⟨t, done, holds, perm⟩ := (Segments.holds_of_ofList cut).exists_work within order calls
  rw [whole] at done perm
  have here : elements = t.toList := done
  rw [here]
  refine ⟨Layout.new_eq_ok some_ _, perm, holds.drop_toList,
    fun task buffer => ⟨fun applies => ?_, fun fails => ?_⟩,
    fun first second apart buffer buffer' => holds.work_comm within order apart buffer buffer'⟩
  · obtain ⟨u, left, done, holds', -⟩ := holds.exists_perform within applies order buffer
    exact ⟨u.toList, left, done, fun p outside =>
      holds'.getElem?_toList_eq holds (effect_of_not_mem outside)⟩
  · exact holds.exists_fault fails order buffer

/-- Two segments of two that are not sorted, and one element more: a merge of the second with the first, and
after it a merge with a segment that does not exist and a sort. -/
theorem work_in_place_unsorted :
    0 < 2 ∧ [7, 3, 1, 9, 4].length < Word.capacity ∧
    Layout.work ⟨2, 2⟩ (.ofCmp (compare : Nat → Nat → Ordering))
      [(.merge ⟨⟨2, 1⟩, 1, 0, .descending⟩, [8])] [7, 3, 1, 9, 4] = [3, 1, 9, 7, 4] ∧
    (∃ fault, Layout.perform ⟨2, 2⟩ (.ofCmp (compare : Nat → Nat → Ordering))
      (.merge ⟨⟨2, 1⟩, 1, 2, .ascending⟩) ⟨[3, 1, 9, 7, 4], [8]⟩ = .error fault ⟨[3, 1, 9, 7, 4], [8]⟩) ∧
    ∃ after left, Layout.perform ⟨2, 2⟩ (.ofCmp (compare : Nat → Nat → Ordering)) (.sort 0)
      ⟨[3, 1, 9, 7, 4], []⟩ = .ok () ⟨after, left⟩ ∧ after[2]? = some 9 ∧ after[4]? = some 4 := by
  have fits : [7, 3, 1, 9, 4].length < Word.capacity := by decide
  obtain ⟨-, -, -, task, -⟩ := work_in_place (.ofCmp (compare : Nat → Nat → Ordering)) (show 0 < 2 by decide)
    [7, 3, 1, 9, 4] fits [(.merge ⟨⟨2, 1⟩, 1, 0, .descending⟩, [8])]
  have merged : Layout.work ⟨2, 2⟩ (.ofCmp (compare : Nat → Nat → Ordering))
      [(.merge ⟨⟨2, 1⟩, 1, 0, .descending⟩, [8])] [7, 3, 1, 9, 4] = [3, 1, 9, 7, 4] := by cbv
  have count : [7, 3, 1, 9, 4].length / 2 = 2 := rfl
  rw [count, merged] at task
  obtain ⟨after, left, sorted, untouched⟩ := (task (.sort 0) []).1 (by decide)
  exact ⟨by decide, fits, merged, (task _ _).2 (by decide), after, left, sorted, untouched 2 (by decide),
    untouched 4 (by decide)⟩

end SortNetwork
