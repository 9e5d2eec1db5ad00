import Mathlib
import SortNetwork.Config
import SortNetwork.Sequential
import SortNetwork.Proofs.Network.Blocks
import SortNetwork.Proofs.Network.Overrun
import SortNetwork.Proofs.Segments

/-!
# SortNetwork.Proofs.Sequential

The network performed by one worker.

For a power of two of segments, or of elements, every check of the schedule passes and every merge
succeeds.  What is left is what the network makes of the cells (`exists_segmented`, `exists_elementwise`),
and that is sorted.  Part of the way through, the cells are those that the network holds there
(`exists_segmentedThrough`, `elementwiseThrough_eq_ok`).
-/

namespace SortNetwork

variable {α : Type}

/-! ## runs of operations -/

section Operations

variable {σ τ ι : Type}

/-- Operations that each do what is expected of them leave what is expected of all. -/
theorem exists_performAll (op : σ → ι → Except Fault σ) (Holds : σ → τ → Prop) (effect : τ → ι → τ)
    (items : List ι)
    (each : ∀ item ∈ items, ∀ s t, Holds s t → ∃ s', op s item = .ok s' ∧ Holds s' (effect t item))
    {s : σ} {t : τ} (holds : Holds s t) :
    ∃ s', performAll op s items = .ok s' ∧ Holds s' (items.foldl effect t) := by
  induction items generalizing s t with
  | nil => exact ⟨s, rfl, holds⟩
  | cons item items ih =>
    obtain ⟨next, done, holds'⟩ := each item (by simp) s t holds
    obtain ⟨s', all, holds''⟩ := ih (fun item member => each item (by simp [member])) holds'
    refine ⟨s', ?_, holds''⟩
    rw [performAll, done]
    exact all

/-- Operations that lose no element lose none together. -/
theorem perm_of_performAll {op : σ → ι → Except Fault σ} {items : List ι} (view : σ → List α)
    (each : ∀ s item s', op s item = .ok s' → (view s').Perm (view s)) {s s' : σ}
    (done : performAll op s items = .ok s') : (view s').Perm (view s) := by
  induction items generalizing s with
  | nil =>
    cases done
    exact .refl _
  | cons item items ih =>
    rw [performAll] at done
    split at done
    · next moved => exact (ih done).trans (each _ _ _ moved)
    · cases done

end Operations

/-! ## lists that suit a sort -/

/-- A list that is cut into `2 ^ m` segments of a size, and perhaps a rest. -/
structure Suits (size m : Nat) (data : List α) : Prop where
  size_pos : 0 < size
  length_lt : data.length < 2 ^ 63
  count_eq : data.length / size = 2 ^ m

namespace Suits

variable {size m : Nat} {data : List α}

theorem covered (h : Suits size m data) : 2 ^ m * size ≤ data.length := by
  rw [← h.count_eq]
  exact Nat.div_mul_le_self ..

/-- A list without a rest is as long as its segments. -/
theorem length_eq (h : Suits size m data) (whole : data.length % size = 0) : data.length = 2 ^ m * size := by
  rw [← h.count_eq, Nat.div_mul_cancel (Nat.dvd_of_mod_eq_zero whole)]

theorem fits (h : Suits size m data) : 2 ^ m * size < Word.capacity := by
  have := h.covered
  have := h.length_lt
  simp only [Word.capacity, UInt64.size] at *
  omega

theorem count_lt (h : Suits size m data) : 2 ^ m < 2 ^ 63 := by
  have := h.covered
  have := h.length_lt
  have := Nat.le_mul_of_pos_right (2 ^ m) h.size_pos
  omega

theorem small (h : Suits size m data) : 2 ^ m < Word.capacity := by
  have := h.count_lt
  simp only [Word.capacity, UInt64.size] at *
  omega

theorem twice_size (h : Suits size m data) : 2 * size < Word.capacity := by
  have := h.covered
  have := h.length_lt
  have := Nat.le_mul_of_pos_left size (Nat.two_pow_pos m)
  simp only [Word.capacity, UInt64.size] at *
  omega

end Suits

/-- A configuration that fits cuts the list into whole segments, which number a power of two. -/
theorem exists_suits {data : List α} {config : SortConfig} (short : data.length < 2 ^ 63)
    (valid : config.validate data.length = .ok ()) :
    ∃ m, Suits config.effectiveSegmentSize m data ∧ data.length % config.effectiveSegmentSize = 0 := by
  obtain ⟨positive, -, whole, ⟨m, count⟩, -⟩ := SortConfig.validate_eq_ok_iff.1 valid
  exact ⟨m, ⟨Nat.pos_of_ne_zero positive, short, count⟩, whole⟩

/-- All strategies but that of single elements cut the list as the configuration says. -/
theorem exists_suits_of_ne {data : List α} {config : SortConfig} (short : data.length < 2 ^ 63)
    (valid : config.validate data.length = .ok ()) (segments : config.strategy ≠ .elementwise) :
    ∃ m, Suits config.segmentSize m data ∧ data.length % config.segmentSize = 0 := by
  have size : config.effectiveSegmentSize = config.segmentSize := by
    unfold SortConfig.effectiveSegmentSize
    split
    · contradiction
    · rfl
  rw [← size]
  exact exists_suits short valid

/-- What the first `r` stages of the network leave of the segments of a list. -/
def stageCells (order : ElementOrder α) (size m r : Nat) (data : List α) : Nat → List α :=
  (Rule.runs order).through (fun i => order.sortRun (Segments.slice size data i)) ((stages (2 ^ m)).take r)

/-- What the network leaves of the segments of a list. -/
def networkCells (order : ElementOrder α) (size m : Nat) (data : List α) : Nat → List α :=
  (Rule.runs order).through (fun i => order.sortRun (Segments.slice size data i)) (stages (2 ^ m))

section Runs

variable {order : ElementOrder α} {size m : Nat} {data : List α} {s : Segments α}

/-- The local sort makes a run of each segment. -/
theorem Suits.sortRun_slice (suits : Suits size m data) (order : ElementOrder α) {i : Nat}
    (inside : i < 2 ^ m) :
    (order.sortRun (Segments.slice size data i)).length = size ∧
      SortedTowards order.cmp .ascending (order.sortRun (Segments.slice size data i)) := by
  rw [← suits.count_eq] at inside
  refine ⟨by rw [order.length_sortRun, Segments.length_slice inside], ?_⟩
  refine (order.pairwise_sortRun _).imp fun le => ?_
  rw [Direction.ascending_allows]
  exact le

/-- What the network leaves of a list without a rest ascends. -/
theorem pairwise_networkCells (suits : Suits size m data) (whole : data.length % size = 0)
    (holds : s.Holds (2 ^ m) size (data.drop (2 ^ m * size)) (networkCells order size m data)) :
    s.toList.Pairwise fun a b => (order.cmp a b).isLE = true := by
  have exact : 2 ^ m * size = data.length := by
    rw [← suits.count_eq]
    exact Nat.div_mul_cancel (Nat.dvd_of_mod_eq_zero whole)
  have sorted := sortedTowards_block_runs suits.size_pos suits.small (le_refl m) (.inr rfl)
    (fun i => suits.sortRun_slice order) (q := 0) (by omega)
  rw [Nat.mul_zero, ← List.range_eq_range', List.flatMap_def] at sorted
  rw [holds.toList_eq, exact, List.drop_length, List.append_nil]
  refine sorted.imp fun allows => ?_
  rw [← Direction.ascending_allows]
  exact allows

/-- After the last stage the network leaves what it leaves. -/
theorem stageCells_stageCount (small : 2 ^ m < Word.capacity) :
    stageCells order size m (stageCount (2 ^ m)) data = networkCells order size m data := by
  rw [stageCells, networkCells, ← length_stages small, List.take_length]

/-- The tasks up to a stage, performed in an admissible order, leave what the network leaves there. -/
theorem holds_stageCells {rest : List α} {log : List SegmentTask} {r : Nat} (small : 2 ^ m < Word.capacity)
    (admissible : Admissible (2 ^ m) log) (within : r ≤ stageCount (2 ^ m))
    (through : ∀ task ∈ tasks (2 ^ m), task ∈ log ↔ task.stageNumber (2 ^ m) ≤ r)
    (holds : s.Holds (2 ^ m) size rest
      (log.foldl (SegmentTask.effect (Rule.runs order)) (Segments.slice size data))) :
    s.Holds (2 ^ m) size rest (stageCells order size m r data) where
  count_eq := holds.count_eq
  size_eq := holds.size_eq
  rest_eq := holds.rest_eq
  getElem?_eq := by
    intro i inside
    rw [holds.getElem?_eq i inside, foldl_effect_of_through small admissible within through inside]
    rfl

/-- Tasks performed in an admissible order leave what the network leaves. -/
theorem holds_networkCells {rest : List α} {log : List SegmentTask} (suits : Suits size m data)
    (admissible : Admissible (2 ^ m) log) (all : log.Perm (tasks (2 ^ m)))
    (holds : s.Holds (2 ^ m) size rest
      (log.foldl (SegmentTask.effect (Rule.runs order)) (Segments.slice size data))) :
    s.Holds (2 ^ m) size rest (networkCells order size m data) := by
  rw [← stageCells_stageCount suits.small]
  exact holds_stageCells suits.small admissible (le_refl _) (through_of_perm suits.small all) holds

end Runs

namespace Sequential

variable {order : ElementOrder α} {size m : Nat} {data : List α}

/-! ## whole segments -/

/-- A list can be cut as long as a buffer for two segments has a size. -/
theorem exists_prepare (pos : 0 < size) (twice : 2 * size < Word.capacity) (data : List α) :
    ∃ s, prepare size data = .ok s ∧
      s.Holds (data.length / size) size (data.drop (data.length / size * size))
        (Segments.slice size data) ∧ s.toList = data := by
  obtain ⟨s, made⟩ := Segments.exists_ofList pos data
  refine ⟨s, ?_, Segments.holds_of_ofList made, Segments.toList_ofList made⟩
  unfold prepare
  rw [Word.div, if_neg pos.ne', Word.mul, if_pos twice]
  exact made

theorem exists_prepare_of_suits (suits : Suits size m data) :
    ∃ s, prepare size data = .ok s ∧
      s.Holds (2 ^ m) size (data.drop (2 ^ m * size)) (Segments.slice size data) ∧ s.toList = data := by
  rw [← suits.count_eq]
  exact exists_prepare suits.size_pos suits.twice_size data

/-- Of the slices of a merge, all but the last lie within the list, and the last one does if it is not longer
than what follows its beginning. -/
theorem checkSlices_eq {s : Segments α} {pair : Pair} (fits : s.count * s.segmentSize < Word.capacity)
    (small : s.count < Word.capacity) (ordered : pair.lower < pair.upper)
    (inside : pair.upper ≤ s.count) :
    checkSlices s pair =
      if s.length - pair.upper * s.segmentSize < s.segmentSize then
        .error (.rangeEndOutOfBounds s.segmentSize (s.length - pair.upper * s.segmentSize))
      else .ok () := by
  have upper : pair.upper * s.segmentSize ≤ s.count * s.segmentSize := Nat.mul_le_mul_right _ inside
  have middle : (pair.lower + 1) * s.segmentSize ≤ pair.upper * s.segmentSize :=
    Nat.mul_le_mul_right _ ordered
  have lower : pair.lower * s.segmentSize ≤ (pair.lower + 1) * s.segmentSize :=
    Nat.mul_le_mul_right _ (Nat.le_succ _)
  have long : s.length = s.count * s.segmentSize + s.rest.length := rfl
  have split : Word.mul pair.upper s.segmentSize = .ok (pair.upper * s.segmentSize) := by
    rw [Word.mul, if_pos (by omega)]
  have start : Word.mul pair.lower s.segmentSize = .ok (pair.lower * s.segmentSize) := by
    rw [Word.mul, if_pos (by omega)]
  have next : Word.add pair.lower 1 = .ok (pair.lower + 1) := by rw [Word.add, if_pos (by omega)]
  have stop : Word.mul (pair.lower + 1) s.segmentSize = .ok ((pair.lower + 1) * s.segmentSize) := by
    rw [Word.mul, if_pos (by omega)]
  unfold checkSlices
  simp only [split, start, next, bind, Except.bind]
  rw [if_neg (by omega)]
  simp only [stop, pure, Except.pure]
  rw [if_neg (by omega)]
  rfl

/-- All slices of a merge of two segments that exist lie within the list. -/
theorem checkSlices_eq_ok {s : Segments α} {pair : Pair}
    (fits : s.count * s.segmentSize < Word.capacity) (small : s.count < Word.capacity)
    (within : pair.Within s.count) : checkSlices s pair = .ok () := by
  have whole : (pair.upper + 1) * s.segmentSize ≤ s.count * s.segmentSize :=
    Nat.mul_le_mul_right _ within.upper_lt
  have long : s.length = s.count * s.segmentSize + s.rest.length := rfl
  rw [Nat.succ_mul] at whole
  rw [checkSlices_eq fits small within.lower_lt_upper within.upper_lt.le, if_neg (by omega)]

/-- A merge of two segments that exist passes its checks, and does what the rule for runs says. -/
theorem exists_mergeSegments (order : ElementOrder α) {n : Nat} {rest : List α} {cells : Nat → List α}
    {bench : Bench α} {pair : Pair} (fits : n * size < Word.capacity) (small : n < Word.capacity)
    (within : pair.Within n) (holds : bench.segments.Holds n size rest cells) :
    ∃ after, mergeSegments order.cmp bench pair = .ok after ∧
      after.segments.Holds n size rest
        ((SegmentTask.merge pair).effect (Rule.runs order) cells) := by
  obtain ⟨t, buffer, done, holds'⟩ := holds.exists_mergePair order fits
    (within.lower_lt_upper.trans within.upper_lt) within.upper_lt within.lower_lt_upper.ne pair.direction
    bench.buffer
  have checked : checkSlices bench.segments pair = .ok () := by
    apply checkSlices_eq_ok
    all_goals simp only [holds.count_eq, holds.size_eq, fits, small, within]
  refine ⟨⟨t, buffer⟩, ?_, holds'⟩
  rw [mergeSegments, checked]
  simp only [done, bind, Except.bind, pure, Except.pure]

theorem toList_perm_of_mergeSegments {bench after : Bench α} {pair : Pair}
    (done : mergeSegments order.cmp bench pair = .ok after) :
    after.segments.toList.Perm bench.segments.toList := by
  simp only [mergeSegments, bind_eq_ok_iff] at done
  obtain ⟨_, _, ⟨segments, buffer⟩, moved, made⟩ := done
  cases made
  exact Segments.toList_perm_of_mergePair moved

/-- What the segmented sort holds after its local sorts and the first `r` stages. -/
def segmentedThrough (order : ElementOrder α) (size r : Nat) (data : List α) :
    Except (Halted (List α)) (List α) :=
  match prepare size data with
  | .error fault => .error ⟨fault, data⟩
  | .ok s =>
    match sortSegments order s with
    | .error halted => .error ⟨halted.fault, halted.state.toList⟩
    | .ok t =>
      match mergeAll order t (scheduleThrough t.count r) with
      | .error halted => .error ⟨halted.fault, halted.state.toList⟩
      | .ok merged => .ok merged.toList

/-- The local sorts succeed, and leave as many segments. -/
theorem exists_sortSegments (order : ElementOrder α) {n : Nat} {s : Segments α} {rest : List α}
    {cells : Nat → List α} (fits : n * size < Word.capacity) (holds : s.Holds n size rest cells) :
    ∃ t, sortSegments order s = .ok t ∧ t.toList.Perm s.toList ∧
      t.Holds n size rest
        (((List.range n).map .sort).foldl (SegmentTask.effect (Rule.runs order)) cells) := by
  obtain ⟨t, sorted, holds'⟩ := exists_performAll (Segments.sortSegment order)
    (fun s cells => s.Holds n size rest cells)
    (fun cells id => (SegmentTask.sort id).effect (Rule.runs order) cells) (List.range n)
    (fun id member s cells holds => holds.exists_sortSegment fits (List.mem_range.1 member)) holds
  refine ⟨t, by rw [sortSegments, holds.count_eq]; exact sorted, ?_, by rwa [List.foldl_map]⟩
  exact perm_of_performAll Segments.toList
    (fun s id t done => Segments.toList_perm_of_sortSegment done) sorted

/-- Merges of segments that exist succeed in turn. -/
theorem exists_performAll_mergeSegments (order : ElementOrder α) {n : Nat} {bench : Bench α}
    {rest : List α} {cells : Nat → List α} {pairs : List Pair} (fits : n * size < Word.capacity)
    (small : n < Word.capacity) (within : ∀ pair ∈ pairs, pair.Within n)
    (holds : bench.segments.Holds n size rest cells) :
    ∃ after, performAll (mergeSegments order.cmp) bench pairs = .ok after ∧
      after.segments.toList.Perm bench.segments.toList ∧
      after.segments.Holds n size rest
        ((pairs.map .merge).foldl (SegmentTask.effect (Rule.runs order)) cells) := by
  obtain ⟨after, merged, holds'⟩ := exists_performAll (mergeSegments order.cmp)
    (fun bench cells => bench.segments.Holds n size rest cells)
    (fun cells pair => (SegmentTask.merge pair).effect (Rule.runs order) cells) pairs
    (fun pair member bench cells holds => exists_mergeSegments order fits small (within pair member) holds)
    holds
  refine ⟨after, merged, ?_, by rwa [List.foldl_map]⟩
  exact perm_of_performAll (fun bench => bench.segments.toList)
    (fun s pair t done => toList_perm_of_mergeSegments done) merged

theorem exists_mergeAll (order : ElementOrder α) {n : Nat} {s : Segments α} {rest : List α}
    {cells : Nat → List α} {pairs : List Pair} (fits : n * size < Word.capacity)
    (small : n < Word.capacity) (within : ∀ pair ∈ pairs, pair.Within n)
    (holds : s.Holds n size rest cells) :
    ∃ t, mergeAll order s pairs = .ok t ∧ t.toList.Perm s.toList ∧
      t.Holds n size rest
        ((pairs.map .merge).foldl (SegmentTask.effect (Rule.runs order)) cells) := by
  obtain ⟨bench, merged, perm, holds'⟩ : ∃ after,
      performAll (mergeSegments order.cmp) ⟨s, []⟩ pairs = .ok after ∧ _ :=
    exists_performAll_mergeSegments order fits small within holds
  exact ⟨bench.segments, by rw [mergeAll, merged], perm, holds'⟩

/-- After each stage the segmented sort holds what the network leaves there. -/
theorem exists_segmentedThrough (suits : Suits size m data) (order : ElementOrder α) {r : Nat}
    (within : r ≤ stageCount (2 ^ m)) :
    ∃ s : Segments α, segmentedThrough order size r data = .ok s.toList ∧
      s.Holds (2 ^ m) size (data.drop (2 ^ m * size)) (stageCells order size m r data) ∧
      s.toList.Perm data := by
  have small := suits.small
  obtain ⟨s, prepared, holds, joined⟩ := exists_prepare_of_suits suits
  obtain ⟨t, sorted, perm, holds'⟩ := exists_sortSegments order suits.fits holds
  obtain ⟨u, merged, perm', holds''⟩ := exists_mergeAll order suits.fits small
    (fun pair member => within_of_mem_schedule small (mem_schedule_of_mem_scheduleThrough (r := r) member))
    holds'
  rw [← List.foldl_append] at holds''
  refine ⟨u, ?_, holds_stageCells small (admissible_tasksThrough small r) within
    (fun _ => mem_tasksThrough_iff) holds'', ?_⟩
  · simp only [segmentedThrough, prepared, sorted, holds'.count_eq, merged]
  · exact (perm'.trans perm).trans (joined ▸ .refl _)

/-- After the last stage the segmented sort is done. -/
theorem segmentedThrough_stageCount (suits : Suits size m data) (order : ElementOrder α) :
    segmentedThrough order size (stageCount (2 ^ m)) data = segmented order size data := by
  obtain ⟨s, prepared, holds, -⟩ := exists_prepare_of_suits suits
  obtain ⟨t, sorted, -, holds'⟩ := exists_sortSegments order suits.fits holds
  obtain ⟨u, merged, -⟩ := exists_mergeAll order suits.fits suits.small
    (fun _ member => within_of_mem_schedule suits.small member) holds'
  simp only [segmentedThrough, segmented, prepared, sorted, holds'.count_eq, merged,
    scheduleThrough_stageCount suits.small]

/-- The segmented network succeeds and leaves what the network leaves. -/
theorem exists_segmented (suits : Suits size m data) (order : ElementOrder α) :
    ∃ s : Segments α, segmented order size data = .ok s.toList ∧
      s.Holds (2 ^ m) size (data.drop (2 ^ m * size)) (networkCells order size m data) ∧
      s.toList.Perm data := by
  rw [← segmentedThrough_stageCount suits, ← stageCells_stageCount suits.small]
  exact exists_segmentedThrough suits order (le_refl _)

/-! ## single elements -/

section Elements

variable {cmp : α → α → Ordering} {n : Nat} {a b : Array α} {cells : Nat → α} {pair : Pair}

/-- Comparing and exchanging the elements of a pair does what the rule for elements says. -/
theorem exists_compareExchange (ordered : pair.lower < pair.upper) (inside : pair.upper < n)
    (size : a.size = n) (holds : ∀ i < n, a[i]? = some (cells i)) :
    ∃ b, compareExchange cmp a pair = .ok b ∧ b.size = n ∧
      ∀ i < n, b[i]? = some ((SegmentTask.merge pair).effect (Rule.elements cmp) cells i) := by
  subst size
  have low : pair.lower < a.size := ordered.trans inside
  have first : a[pair.lower] = cells pair.lower :=
    Option.some.inj ((Array.getElem?_eq_getElem low).symm.trans (holds _ low))
  have second : a[pair.upper] = cells pair.upper :=
    Option.some.inj ((Array.getElem?_eq_getElem inside).symm.trans (holds _ inside))
  unfold compareExchange
  rw [dif_pos low, dif_pos inside, first, second]
  simp only [SegmentTask.effect, Rule.elements]
  split
  · refine ⟨_, rfl, Array.size_swap .., fun i within => ?_⟩
    rw [Array.getElem?_swap, first, second]
    by_cases upper : pair.upper = i
    · subst upper
      rw [if_pos rfl, Function.update_self]
    · rw [if_neg upper, Function.update_of_ne (Ne.symm upper)]
      by_cases lower : pair.lower = i
      · subst lower
        rw [if_pos rfl, Function.update_self]
      · rw [if_neg lower, Function.update_of_ne (Ne.symm lower), holds i within]
  · refine ⟨_, rfl, rfl, fun i within => ?_⟩
    rw [Function.update_eq_self_iff.2 (Function.update_of_ne ordered.ne' ..).symm,
      Function.update_eq_self]
    exact holds i within

theorem toList_perm_of_compareExchange (h : compareExchange cmp a pair = .ok b) :
    b.toList.Perm a.toList := by
  unfold compareExchange at h
  split at h
  · split at h
    · split at h
      · cases h
        exact (Array.swap_perm _ _).toList
      · cases h
        exact .refl _
    · cases h
  · cases h

/-- What the elementwise sort holds after its first `r` stages. -/
def elementwiseThrough (cmp : α → α → Ordering) (r : Nat) (data : List α) :
    Except (Halted (List α)) (List α) :=
  match performAll (compareExchange cmp) data.toArray (scheduleThrough data.length r) with
  | .ok after => .ok after.toList
  | .error halted => .error ⟨halted.fault, halted.state.toList⟩

/-- After the last stage the elementwise sort is done. -/
theorem elementwiseThrough_stageCount (small : data.length < Word.capacity) :
    elementwiseThrough cmp (stageCount data.length) data = elementwise cmp data := by
  rw [elementwiseThrough, scheduleThrough_stageCount small]
  rfl

/-- A list with an element is a row of cells. -/
theorem exists_cells (nonempty : 0 < data.length) :
    ∃ cells : Nat → α, data = (List.range data.length).map cells := by
  obtain ⟨first, -⟩ := List.exists_mem_of_length_pos nonempty
  refine ⟨fun i => data.getD i first, List.ext_getElem (by simp) fun i inside _ => ?_⟩
  simp [inside]

variable (cmp) in
/-- After each stage the elementwise sort holds what the network leaves there. -/
theorem elementwiseThrough_eq_ok {r : Nat} (small : 2 ^ m < Word.capacity)
    (within : r ≤ stageCount (2 ^ m)) (cells : Nat → α) :
    elementwiseThrough cmp r ((List.range (2 ^ m)).map cells) =
      .ok ((List.range (2 ^ m)).map
        ((Rule.elements cmp).through cells ((stages (2 ^ m)).take r))) := by
  obtain ⟨b, done, size, holds⟩ := exists_performAll (compareExchange cmp)
    (fun a cells => a.size = 2 ^ m ∧ ∀ i < 2 ^ m, a[i]? = some (cells i))
    (fun cells pair => (SegmentTask.merge pair).effect (Rule.elements cmp) cells)
    (scheduleThrough (2 ^ m) r)
    (fun pair member a cells holds => by
      have isTask :=
        merge_mem_tasks_iff.2 (mem_schedule_iff.1 (mem_schedule_of_mem_scheduleThrough member))
      exact exists_compareExchange (lower_lt_upper_of_mem_tasks isTask)
        (lt_of_mem_touched small isTask (SegmentTask.mem_touched_merge.2 (.inr rfl))) holds.1 holds.2)
    (s := ((List.range (2 ^ m)).map cells).toArray) (t := cells)
    ⟨by simp, fun i inside => by simp [inside]⟩
  -- elements need no local sort
  have sorts : ∀ ids : List Nat, (ids.map SegmentTask.sort).foldl
      (SegmentTask.effect (Rule.elements cmp)) cells = cells := by
    intro ids
    induction ids with
    | nil => rfl
    | cons id ids ih =>
      rw [List.map_cons, List.foldl_cons, SegmentTask.effect, Rule.elements, Function.update_eq_self]
      exact ih
  have log : (scheduleThrough (2 ^ m) r).foldl
      (fun cells pair => (SegmentTask.merge pair).effect (Rule.elements cmp) cells) cells =
      (tasksThrough (2 ^ m) r).foldl (SegmentTask.effect (Rule.elements cmp)) cells := by
    rw [tasksThrough, List.foldl_append, sorts, List.foldl_map]
  have after : b.toList = (List.range (2 ^ m)).map
      ((Rule.elements cmp).through cells ((stages (2 ^ m)).take r)) := by
    refine List.ext_getElem (by simp [size]) fun i inside _ => ?_
    have low : i < 2 ^ m := by simpa [size] using inside
    have here := holds i low
    rw [log, foldl_effect_of_through small (admissible_tasksThrough small r) within
      (fun _ => mem_tasksThrough_iff) low, Array.getElem?_eq_getElem (by omega)] at here
    rw [Array.getElem_toList, Option.some.inj here, List.getElem_map, List.getElem_range]
    rfl
  rw [elementwiseThrough, List.length_map, List.length_range, done]
  exact congrArg Except.ok after

variable (cmp) in
/-- The elementwise network succeeds, and what it leaves ascends. -/
theorem exists_elementwise [Std.TransCmp cmp] (small : 2 ^ m < Word.capacity)
    (count : data.length = 2 ^ m) :
    ∃ sorted, elementwise cmp data = .ok sorted ∧
      sorted.Pairwise (fun a b => (cmp a b).isLE = true) ∧ sorted.Perm data := by
  obtain ⟨cells, row⟩ := exists_cells (count ▸ Nat.two_pow_pos m)
  rw [count] at row
  have done := elementwiseThrough_eq_ok cmp small (le_refl _) cells
  rw [← row, ← count, elementwiseThrough_stageCount (count ▸ small), count, ← length_stages small,
    List.take_length] at done
  have sorted : SortedTowards cmp (.ofBlock 0) _ :=
    sortedTowards_block_elements small (le_refl m) cells (by omega)
  have kept := flatMap_through_perm cells (conserves_elements cmp) small (q := 0) fun _ listed => listed
  rw [Nat.mul_zero, ← List.range_eq_range'] at sorted kept
  rw [← List.map_eq_flatMap, ← List.map_eq_flatMap, ← row] at kept
  refine ⟨_, done, sorted.imp fun allows => ?_, kept⟩
  rw [← Direction.ascending_allows]
  exact allows

end Elements

end Sequential

end SortNetwork
