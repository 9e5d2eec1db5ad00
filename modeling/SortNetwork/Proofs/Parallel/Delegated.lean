import Mathlib
import SortNetwork.Proofs.InPlace
import SortNetwork.Proofs.Parallel.Delegated.Cutting
import SortNetwork.Proofs.Reordering

/-!
# SortNetwork.Proofs.Parallel.Delegated

Passes that a pool of workers performs, in any order within each pass.

A job leaves of the list what its task leaves of the segments (`perform_jobOf`), and the tasks of one pass share
no segment.  So whatever order the pool takes the jobs in, each pass leaves what the segmented sort of one
worker has after as many stages (`exists_performAll_take`), and so does the whole (`delegated_eq_segmented`).
-/

namespace SortNetwork.Parallel.Delegated

variable {α : Type} {n m size : Nat}

/-! ## a job on the list -/

namespace Span

theorem read_toArray (span : Span) (elements : List α) :
    span.read elements.toArray = (elements.drop span.start).take span.length := by
  simp [read, List.extract]

theorem writeAt_toArray {place : Nat} {run elements : List α} (inside : place + run.length ≤ elements.length) :
    writeAt elements.toArray place run = (overlay elements place run).toArray := by
  induction run generalizing place elements with
  | nil => simp [writeAt, overlay]
  | cons x run ih =>
    rw [List.length_cons] at inside
    have here : place < elements.length := by omega
    rw [writeAt, List.setIfInBounds_toArray, ih (by rw [List.length_set]; omega)]
    congr 1
    have front : (elements.set place x).take (place + 1) = elements.take place ++ [x] := by
      rw [List.take_succ_eq_append_getElem (by rwa [List.length_set]), List.take_set_of_le (le_refl _),
        List.getElem_set_self]
    have back : (elements.set place x).drop (place + 1 + run.length) =
        elements.drop (place + (run.length + 1)) := by
      rw [List.drop_set_of_lt (by omega)]
      congr 1
      omega
    rw [overlay, overlay, front, back, List.length_cons, List.append_assoc (elements.take place)]
    rfl

end Span

section Simulation

variable {order : ElementOrder α} {s t : Segments α} {call : SegmentTask × List α}

theorem read_segment (s : Segments α) (i : Fin s.count) :
    Span.read ⟨i * s.segmentSize, s.segmentSize⟩ s.toList.toArray = s.get i := by
  rw [Span.read_toArray, ← s.slice_toList i]
  rfl

theorem write_segment (s : Segments α) (i : Fin s.count) {run : List α} (fits : run.length = s.segmentSize) :
    Span.write ⟨i * s.segmentSize, s.segmentSize⟩ s.toList.toArray run =
      (s.replace i run fits).toList.toArray := by
  have last : (i + 1) * s.segmentSize ≤ s.count * s.segmentSize := Nat.mul_le_mul_right _ i.isLt
  rw [Nat.succ_mul] at last
  have long := s.length_toList
  rw [Segments.length] at long
  rw [Span.write, Span.writeAt_toArray (by dsimp only; omega), s.toList_replace]

theorem exists_locate_of_mergePair {cmp : α → α → Ordering} {a b : Nat} {d : Direction} {buffer : List α}
    (done : (s.mergePair cmp a b d buffer).map Prod.fst = .ok t) :
    ∃ i j, a ≠ b ∧ s.locate a = .ok i ∧ s.locate b = .ok j := by
  unfold Segments.mergePair at done
  split at done
  · cases done
  · next distinct =>
    split at done
    · cases done
    · cases done
    · next i j found found' => exact ⟨i, j, distinct, found, found'⟩

theorem performWith_sort (order : ElementOrder α) (s : Segments α) (id : Nat) (buffer : List α) :
    SegmentTask.performWith order s (.sort id, buffer) = s.sortSegment order id := by
  rw [SegmentTask.performWith, SegmentTask.perform]
  cases s.sortSegment order id <;> rfl

theorem performWith_merge (order : ElementOrder α) (s : Segments α) (pair : Pair) (buffer : List α) :
    SegmentTask.performWith order s (.merge pair, buffer) =
      (s.mergePair order.cmp pair.lower pair.upper pair.direction buffer).map Prod.fst := by
  rw [SegmentTask.performWith, SegmentTask.perform]
  cases s.mergePair order.cmp pair.lower pair.upper pair.direction buffer <;> rfl

/-- A job leaves of the list what its task leaves of the segments. -/
theorem perform_jobOf (done : SegmentTask.performWith order s call = .ok t) :
    Job.perform order s.toList.toArray (call.map (jobOf s.segmentSize) id) = .ok t.toList.toArray ∧
      t.segmentSize = s.segmentSize := by
  obtain ⟨task, buffer⟩ := call
  cases task with
  | sort id =>
    rw [performWith_sort] at done
    unfold Segments.sortSegment at done
    split at done
    · next i found =>
      cases done
      obtain rfl := Segments.val_of_locate found
      refine ⟨?_, rfl⟩
      simp only [Prod.map, jobOf, Job.perform, read_segment]
      rw [write_segment s i (by simp)]
    · cases done
  | merge pair =>
    rw [performWith_merge] at done
    obtain ⟨i, j, distinct, found, found'⟩ := exists_locate_of_mergePair done
    rw [Segments.mergePair_eq_ok order.cmp distinct found found'] at done
    cases done
    have same : (s.get i).length = (s.get j).length := by simp
    have merged := merge_eq_ok order.cmp pair.direction same (by simpa using s.segmentSize_pos) buffer
    refine ⟨?_, rfl⟩
    simp only [Prod.map, jobOf, Job.perform, id, ← Segments.val_of_locate found,
      ← Segments.val_of_locate found', read_segment, merged]
    rw [write_segment s i (by simp)]
    exact congrArg Except.ok (write_segment _ (j.cast (Segments.count_replace ..).symm) (by simp))

/-- Jobs leave of the list what their tasks leave of the segments. -/
theorem performAll_jobOf {calls : List (SegmentTask × List α)}
    (done : performAll (SegmentTask.performWith order) s calls = .ok t) :
    performAll (Job.perform order) s.toList.toArray (calls.map (Prod.map (jobOf s.segmentSize) id)) =
      .ok t.toList.toArray := by
  induction calls generalizing s with
  | nil =>
    cases done
    rfl
  | cons call calls ih =>
    rw [performAll] at done
    split at done
    · next next moved =>
      obtain ⟨performed, size⟩ := perform_jobOf moved
      rw [List.map_cons, performAll, performed, ← size]
      exact ih done
    · cases done

end Simulation

/-! ## orders -/

/-- Whether a pool takes pass after pass, and in each pass every item once.  Each item comes with what is in the
buffer before it. -/
def InPasses {τ : Type} (orders : List (List (τ × List α))) (passes : List (List τ)) : Prop :=
  List.Forall₂ (fun run pass => (run.map Prod.fst).Perm pass) orders passes

/-- The jobs of a pass in some order are its tasks in some order. -/
theorem exists_calls {τ υ : Type} {f : τ → υ} {run : List (υ × List α)} {pass : List τ}
    (same : (run.map Prod.fst).Perm (pass.map f)) :
    ∃ calls : List (τ × List α), (calls.map Prod.fst).Perm pass ∧ run = calls.map (Prod.map f id) := by
  induction run generalizing pass with
  | nil =>
    rw [List.map_nil, List.nil_perm, List.map_eq_nil_iff] at same
    exact ⟨[], by rw [same]; rfl, rfl⟩
  | cons item run ih =>
    obtain ⟨x, member, image⟩ := List.mem_map.1 (same.subset List.mem_cons_self)
    obtain ⟨before, after, rfl⟩ := List.append_of_mem member
    have front : (before ++ x :: after).Perm (x :: (before ++ after)) := List.perm_middle
    have left : (run.map Prod.fst).Perm ((before ++ after).map f) := by
      have all := same.trans (front.map f)
      rw [List.map_cons, List.map_cons, image] at all
      exact all.cons_inv
    obtain ⟨calls, perm, rfl⟩ := ih left
    refine ⟨(x, item.2) :: calls, ?_, by rw [List.map_cons, Prod.map, image]; rfl⟩
    exact (perm.cons x).trans front.symm

/-- Orders of the jobs are orders of the tasks. -/
theorem InPasses.exists_map {τ υ : Type} {f : τ → υ} {orders : List (List (υ × List α))}
    {passes : List (List τ)} (same : InPasses orders (passes.map (List.map f))) :
    ∃ calls : List (List (τ × List α)),
      InPasses calls passes ∧ orders = calls.map (List.map (Prod.map f id)) := by
  induction passes generalizing orders with
  | nil =>
    cases same
    exact ⟨[], .nil, rfl⟩
  | cons pass passes ih =>
    cases same with
    | cons first later =>
      obtain ⟨run, perm, rfl⟩ := exists_calls first
      obtain ⟨calls, same, rfl⟩ := ih later
      exact ⟨run :: calls, .cons perm same, rfl⟩

/-- Any order within each pass is admissible. -/
theorem admissible_of_orders (small : 2 ^ m < Word.capacity) {orders : List (List SegmentTask)}
    (same : List.Forall₂ List.Perm orders (layout (2 ^ m))) :
    Admissible (2 ^ m) orders.flatten ∧ orders.flatten.Perm (tasks (2 ^ m)) := by
  have all : orders.flatten.Perm (tasks (2 ^ m)) := by
    rw [← flatten_layout]
    exact List.Perm.flatten_congr same
  have staged : orders.flatten.Pairwise fun task other =>
      task.stageNumber (2 ^ m) ≤ other.stageNumber (2 ^ m) := by
    refine pairwise_flatten_of_forall₂ same
      (fun pass member _ first _ second => (stageNumber_eq_of_mem_layout member first second).le) ?_
    rw [flatten_layout]
    exact pairwise_stageNumber_tasks small
  exact ⟨admissible_of_pairwise small all (staged.imp fun le _ _ _ => le), all⟩

section Passes

variable {data : List α}

/-- After each pass the list is what the segmented sort leaves after as many stages, whatever order the pool
takes the tasks in and whatever is in the buffers. -/
theorem performAll_take_eq_segmentedThrough (order : ElementOrder α) (suits : Suits size m data)
    {s : Segments α}
    (holds : s.Holds (2 ^ m) size (data.drop (2 ^ m * size)) (Segments.slice size data))
    {orders : List (List (SegmentTask × List α))}
    (same : InPasses orders (layout (2 ^ m)))
    {r : Nat} (within : r ≤ stageCount (2 ^ m)) :
    ∃ t, performAll (SegmentTask.performWith order) s (orders.take (r + 1)).flatten = .ok t ∧
      Sequential.segmentedThrough order size r data = .ok t.toList := by
  have perms : List.Forall₂ List.Perm (orders.map (List.map Prod.fst)) (layout (2 ^ m)) :=
    List.forall₂_map_left_iff.2 same
  have tasksOf : ((orders.take (r + 1)).flatten.map Prod.fst).Perm (tasksThrough (2 ^ m) r) := by
    rw [← flatten_take_layout, List.map_flatten, List.map_take]
    exact List.Perm.flatten_congr (List.forall₂_take _ perms)
  refine performAll_eq_segmentedThrough suits order within ?_ (fun task member => ?_) holds
  · have all := (admissible_of_orders suits.small perms).1
    rw [← List.take_append_drop (r + 1) orders, List.map_append, List.flatten_append] at all
    rw [List.map_flatten]
    exact all.of_append
  · rw [tasksOf.mem_iff, mem_tasksThrough_iff member]

/-- After each pass the list is what the segmented sort leaves after as many stages, whatever order the pool
takes the jobs in and whatever is in the buffers. -/
theorem exists_performAll_take (order : ElementOrder α) (suits : Suits size m data)
    {orders : List (List (Job × List α))} (same : InPasses orders (jobs size (2 ^ m)))
    {r : Nat} (within : r ≤ stageCount (2 ^ m)) :
    ∃ after, performAll (Job.perform order) data.toArray (orders.take (r + 1)).flatten = .ok after ∧
      Sequential.segmentedThrough order size r data = .ok after.toList := by
  obtain ⟨s, made⟩ := Segments.exists_ofList suits.size_pos data
  have holds := Segments.holds_of_ofList made
  rw [suits.count_eq] at holds
  obtain ⟨calls, inPasses, rfl⟩ := same.exists_map
  obtain ⟨t, done, through⟩ := performAll_take_eq_segmentedThrough order suits holds inPasses within
  have performed := performAll_jobOf done
  rw [Segments.toList_ofList made, Segments.segmentSize_of_ofList made] at performed
  exact ⟨t.toList.toArray, by rw [← performed, List.map_flatten, List.map_take], through⟩

/-- After the last pass the list is what the segmented sort leaves. -/
theorem exists_performAll (order : ElementOrder α) (suits : Suits size m data)
    {orders : List (List (Job × List α))} (same : InPasses orders (jobs size (2 ^ m))) :
    ∃ after, performAll (Job.perform order) data.toArray orders.flatten = .ok after ∧
      Sequential.segmented order size data = .ok after.toList := by
  have passes : orders.length = stageCount (2 ^ m) + 1 := by
    rw [same.length_eq, jobs, layout, List.length_map, List.length_cons, List.length_map,
      length_stages suits.small]
  have last := exists_performAll_take order suits same (le_refl _)
  rwa [← passes, List.take_length, Sequential.segmentedThrough_stageCount suits] at last

/-- Passes that can all be cut are performed one after the other. -/
theorem performPasses_eq (order : ElementOrder α) (elements : Array α) (passes : List (List Job)) :
    performPasses order elements (passes.map .ok) =
      performAll (Job.perform order) elements (passes.map (List.map fun job => (job, []))).flatten := by
  induction passes generalizing elements with
  | nil => rfl
  | cons pass passes ih =>
    rw [List.map_cons, List.map_cons, List.flatten_cons, performAll_append, performPasses]
    cases performAll (Job.perform order) elements (pass.map fun job => (job, [])) with
    | ok next => exact ih next
    | error halted => rfl

/-- A list of whole segments can be cut for every pass. -/
theorem passes_eq_ok_of_suits (suits : Suits size m data) (whole : data.length % size = 0) :
    passes size data.length = .ok ((jobs size (2 ^ m)).map .ok) := by
  rw [suits.length_eq whole]
  exact passes_eq_ok suits.size_pos suits.fits suits.small

/-- The passes in their order, with empty buffers. -/
theorem inPasses_self (passes : List (List Job)) :
    InPasses (passes.map (List.map fun job => (job, ([] : List α)))) passes := by
  refine List.forall₂_map_left_iff.2 (List.forall₂_same.2 fun pass _ => ?_)
  rw [List.map_map]
  exact .of_eq (List.map_id pass)

/-- Whatever passes a pool has performed by then, in whatever order, it has come to no fault. -/
theorem exists_performAll_of_initial (order : ElementOrder α) (suits : Suits size m data)
    {orders : List (List (Job × List α))} {begun : List (List Job)} (initial : begun <+: jobs size (2 ^ m))
    (same : InPasses orders begun) :
    ∃ after, performAll (Job.perform order) data.toArray orders.flatten = .ok after := by
  obtain ⟨later, all⟩ := initial
  have whole : InPasses (orders ++ later.map (List.map fun job => (job, []))) (jobs size (2 ^ m)) :=
    all ▸ List.rel_append same (inPasses_self later)
  obtain ⟨_, done, -⟩ := exists_performAll order suits whole
  rw [List.flatten_append, performAll_append] at done
  split at done
  · next after begun => exact ⟨after, begun⟩
  · cases done

/-- The passes leave what the segmented sort leaves. -/
theorem sort_eq_segmented (order : ElementOrder α) (suits : Suits size m data)
    (whole : data.length % size = 0) : Delegated.sort order size data = Sequential.segmented order size data := by
  obtain ⟨after, done, sequential⟩ := exists_performAll order suits (inPasses_self _)
  rw [sequential, Delegated.sort, passes_eq_ok_of_suits suits whole]
  simp only [performPasses_eq, done]

end Passes

/-- A list that fits can be cut for every pass.  The jobs of the stages are the pairs of the network, each at the
places of its segments and in its direction.  Whatever order the pool takes the jobs of each pass in, and
whatever is in the buffers that it merges through, the list after each pass is the one that the segmented sort
has after the same stage, and so is the list in the end. -/
theorem delegated_eq_segmented (order : ElementOrder α) (config : SortConfig) (data : List α)
    (short : data.length < 2 ^ 63) (delegated : config.strategy = .delegated)
    (valid : config.validate data.length = .ok ()) :
    passes config.segmentSize data.length =
        .ok ((jobs config.segmentSize (data.length / config.segmentSize)).map .ok) ∧
      (∀ stage ∈ stages (data.length / config.segmentSize),
        merges config.segmentSize data.length stage =
          .ok ((stage.pairs (data.length / config.segmentSize)).map fun pair =>
            jobOf config.segmentSize (.merge pair))) ∧
      Delegated.sort order config.segmentSize data = Sequential.segmented order config.segmentSize data ∧
      ∀ orders : List (List (Job × List α)),
        InPasses orders (jobs config.segmentSize (data.length / config.segmentSize)) →
        (∀ r ≤ stageCount (data.length / config.segmentSize),
          ∃ after,
            performAll (Job.perform order) data.toArray (orders.take (r + 1)).flatten = .ok after ∧
            Sequential.segmentedThrough order config.segmentSize r data = .ok after.toList) ∧
        ∃ after, performAll (Job.perform order) data.toArray orders.flatten = .ok after ∧
          Sequential.segmented order config.segmentSize data = .ok after.toList := by
  obtain ⟨m, suits, whole⟩ := exists_suits_of_ne short valid (by rw [delegated]; decide)
  rw [suits.count_eq]
  refine ⟨passes_eq_ok_of_suits suits whole, fun stage listed => ?_, sort_eq_segmented order suits whole,
    fun orders same => ⟨fun r => exists_performAll_take order suits same, exists_performAll order suits same⟩⟩
  rw [suits.length_eq whole]
  exact merges_eq_ok suits.size_pos suits.fits suits.small listed

/-- The passes over four segments of one element with the jobs of some of them in another order, and something
in some of the buffers. -/
def pooledOrders : List (List (Job × List Nat)) :=
  [[(.sort ⟨2, 1⟩, []), (.sort ⟨0, 1⟩, [7]), (.sort ⟨3, 1⟩, []), (.sort ⟨1, 1⟩, [])],
    [(.merge ⟨2, 1⟩ ⟨3, 1⟩ .descending, [9, 9]), (.merge ⟨0, 1⟩ ⟨1, 1⟩ .ascending, [])],
    [(.merge ⟨0, 1⟩ ⟨2, 1⟩ .ascending, []), (.merge ⟨1, 1⟩ ⟨3, 1⟩ .ascending, [5])],
    [(.merge ⟨2, 1⟩ ⟨3, 1⟩ .ascending, []), (.merge ⟨0, 1⟩ ⟨1, 1⟩ .ascending, [1, 2])]]

/-- Three workers and four segments of one element, two of them equal. -/
theorem delegated_eq_segmented_pooled :
    [3, 1, 2, 1].length < 2 ^ 63 ∧
    (⟨.delegated, 3, 1, .yield, .senseReversal, .locked⟩ : SortConfig).validate 4 = .ok () ∧
    InPasses pooledOrders (jobs 1 4) ∧
    performAll (Job.perform (.ofCmp (compare : Nat → Nat → Ordering))) #[3, 1, 2, 1]
      (pooledOrders.take 2).flatten = .ok #[1, 3, 2, 1] ∧
    Sequential.segmentedThrough (.ofCmp (compare : Nat → Nat → Ordering)) 1 1 [3, 1, 2, 1] =
      .ok [1, 3, 2, 1] ∧
    performAll (Job.perform (.ofCmp (compare : Nat → Nat → Ordering))) #[3, 1, 2, 1] pooledOrders.flatten =
      .ok #[1, 1, 2, 3] ∧
    Sequential.segmented (.ofCmp (compare : Nat → Nat → Ordering)) 1 [3, 1, 2, 1] = .ok [1, 1, 2, 3] := by
  have valid : (⟨.delegated, 3, 1, .yield, .senseReversal, .locked⟩ : SortConfig).validate 4 = .ok () :=
    SortConfig.validate_eq_ok_iff.2 ⟨by decide, by decide, by decide, ⟨2, by decide⟩, fun _ => by contradiction⟩
  have same : InPasses pooledOrders (jobs 1 4) := by
    unfold InPasses
    decide +kernel
  obtain ⟨-, -, -, pool⟩ := delegated_eq_segmented (.ofCmp (compare : Nat → Nat → Ordering))
    ⟨.delegated, 3, 1, .yield, .senseReversal, .locked⟩ [3, 1, 2, 1] (by decide) rfl valid
  obtain ⟨each, after, done, all⟩ := pool pooledOrders same
  obtain ⟨first, begun, through⟩ := each 1 (by decide)
  have half : performAll (Job.perform (.ofCmp (compare : Nat → Nat → Ordering))) #[3, 1, 2, 1]
      (pooledOrders.take 2).flatten = .ok #[1, 3, 2, 1] := by cbv
  have whole : performAll (Job.perform (.ofCmp (compare : Nat → Nat → Ordering))) #[3, 1, 2, 1]
      pooledOrders.flatten = .ok #[1, 1, 2, 3] := by cbv
  cases half.symm.trans begun
  cases whole.symm.trans done
  exact ⟨by decide, valid, same, half, through, whole, all⟩

/-- Five elements in segments of two: after the local sorts, the last of which is of a single element, the pool
cannot cut the last block. -/
example : Delegated.sort (.ofCmp (compare : Nat → Nat → Ordering)) 2 [5, 4, 3, 2, 1] =
    .error ⟨.splitPastEnd, [4, 5, 2, 3, 1]⟩ := by cbv

end SortNetwork.Parallel.Delegated
