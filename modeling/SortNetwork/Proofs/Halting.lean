import Mathlib
import SortNetwork.Proofs.Sequential

/-!
# SortNetwork.Proofs.Halting

How far the networks of one worker get.

All pairs of the schedule for a power of two lie within the network.  For any other number the first pair
that does not is `overrun`, and its upper segment is the one just past the end.  So a worker that can do
every pair within the network, and none that reaches past it, is done in the first case and halts at that
pair in the second (`performAll_schedule`).  Both networks are such workers: elements and segments that
exist are exchanged and merged whatever they hold.  What a run leaves when it halts is what the pairs
before have left, so no element is lost there either.
-/

namespace SortNetwork

variable {α : Type}

/-! ## runs that halt -/

section Runs

variable {σ ι : Type} {op : σ → ι → Except Fault σ} {s t : σ} {items before : List ι} {item : ι}
  {halted : Halted σ}

/-- A run halts at an item: those before it are done, and in the state that they leave it faults. -/
inductive HaltsAt (op : σ → ι → Except Fault σ) : σ → List ι → ι → Halted σ → Prop where
  | here {s : σ} {item : ι} {items : List ι} {fault : Fault} (stopped : op s item = .error fault) :
      HaltsAt op s (item :: items) item ⟨fault, s⟩
  | later {s next : σ} {first item : ι} {items : List ι} {halted : Halted σ}
      (done : op s first = .ok next) (halts : HaltsAt op next items item halted) :
      HaltsAt op s (first :: items) item halted

/-- A run that halts at an item is halted, and nothing after the item is looked at. -/
theorem HaltsAt.performAll_eq (h : HaltsAt op s items item halted) :
    performAll op s items = .error halted := by
  induction h with
  | here stopped => rw [performAll, stopped]
  | later done _ ih =>
    rw [performAll, done]
    exact ih

/-- A run that halts after items that are done. -/
theorem HaltsAt.append_left (done : performAll op s before = .ok t) (h : HaltsAt op t items item halted) :
    HaltsAt op s (before ++ items) item halted := by
  induction before generalizing s with
  | nil =>
    cases done
    exact h
  | cons first before ih =>
    rw [performAll] at done
    split at done
    · next moved => exact .later moved (ih done)
    · cases done

/-- What a run leaves, done or halted. -/
def leftBy : Except (Halted σ) σ → σ
  | .ok s => s
  | .error halted => halted.state

end Runs

/-! ## runs over a schedule -/

/-- A number of segments for which the schedule stays within the network. -/
def Schedulable (n : Nat) : Prop := n = 0 ∨ n.isPowerOfTwo

section Schedules

variable {σ : Type} {op : σ → Pair → Except Fault σ} {n : Nat} {fault : Fault} {s : σ}

theorem Schedulable.within (schedulable : Schedulable n) (fits : n < Word.capacity) {pair : Pair}
    (member : pair ∈ schedule n) : pair.Within n := by
  obtain rfl | ⟨e, rfl⟩ := schedulable
  · cases member
  · exact within_of_mem_schedule fits member

/-- A worker that can do all pairs within the network, and none that reaches past it, is done with a
schedule that stays within the network, and halts at the first pair of any other that does not. -/
theorem performAll_schedule (Holds : σ → Prop) (fits : n < Word.capacity)
    (inside : ∀ s pair, Holds s → pair.Within n → ∃ t, op s pair = .ok t ∧ Holds t)
    (outside : ∀ s b, Holds s → 0 < b → b ≤ n → op s (overrun n b) = .error fault) (holds : Holds s) :
    (Schedulable n → ∃ t, performAll op s (schedule n) = .ok t ∧ Holds t) ∧
      (¬Schedulable n → ∃ b t, IsGreatest {b | b.isPowerOfTwo ∧ b ∣ n} b ∧
        HaltsAt op s (schedule n) (overrun n b) ⟨fault, t⟩ ∧ Holds t) := by
  have all : ∀ pairs : List Pair, (∀ pair ∈ pairs, pair.Within n) →
      ∃ t, performAll op s pairs = .ok t ∧ Holds t := fun pairs within =>
    exists_performAll op (fun s (_ : Unit) => Holds s) (fun _ _ => ()) pairs
      (fun pair member s _ holds => inside s pair holds (within pair member)) (t := ()) holds
  refine ⟨fun schedulable => all _ fun _ => schedulable.within fits, fun other => ?_⟩
  obtain ⟨nonzero, notPower⟩ := not_or.1 other
  -- the pairs before the one that overruns are done, since they lie within the network
  obtain ⟨e, q, positive, split⟩ := exists_eq_two_pow_mul nonzero notPower
  obtain ⟨before, after, listed, within⟩ := exists_schedule_overrun fits positive split
  obtain ⟨t, done, holds'⟩ := all before within
  have stopped : op t (overrun n (2 ^ e)) = .error fault :=
    outside t _ holds' (Nat.two_pow_pos e) (Nat.le_of_dvd (Nat.pos_of_ne_zero nonzero)
      (Dvd.intro _ split.symm))
  refine ⟨2 ^ e, t, isGreatest_two_pow split, ?_, holds'⟩
  rw [listed]
  exact .append_left done (.here stopped)

end Schedules

/-- A network of `n` segments is done if the schedule stays within it, and otherwise halts, for this reason,
at the pair that leaves it. -/
structure EndsOrOverruns (run : Except (Halted (List α)) (List α)) (n : Nat) (fault : Fault)
    (StopsAt : Pair → Halted (List α) → Prop) : Prop where
  ok_iff : (∃ after, run = .ok after) ↔ Schedulable n
  overruns : ∀ halted, run = .error halted → halted.fault = fault ∧
    ∃ b, IsGreatest {b | b.isPowerOfTwo ∧ b ∣ n} b ∧ StopsAt (overrun n b) halted

/-- A network of a number of segments other than zero and the powers of two overruns. -/
theorem EndsOrOverruns.exists_halted {run : Except (Halted (List α)) (List α)} {n e q : Nat} {fault : Fault}
    {StopsAt : Pair → Halted (List α) → Prop} (h : EndsOrOverruns run n fault StopsAt) (positive : 0 < q)
    (split : n = 2 ^ e * (2 * q + 1)) :
    ∃ halted, run = .error halted ∧ halted.fault = fault ∧ StopsAt (overrun n (2 ^ e)) halted := by
  have greatest := isGreatest_two_pow split
  have above : 2 ^ e * 1 < 2 ^ e * (2 * q + 1) := Nat.mul_lt_mul_of_pos_left (by omega) (Nat.two_pow_pos e)
  rw [← split, Nat.mul_one] at above
  have other : ¬Schedulable n := by
    rintro (zero | isPower)
    · exact ((Nat.zero_le _).trans_lt above).ne' zero
    · exact absurd (greatest.2 ⟨isPower, dvd_refl n⟩) (Nat.not_le.2 above)
  cases run with
  | ok after => exact absurd (h.ok_iff.1 ⟨after, rfl⟩) other
  | error halted =>
    obtain ⟨cause, b, greatest', stopped⟩ := h.overruns halted rfl
    exact ⟨halted, rfl, cause, greatest'.unique greatest ▸ stopped⟩

/-- A run on some representation of a list, read as a run on the list. -/
def readBy {σ : Type} (view : σ → List α) : Except (Halted σ) σ → Except (Halted (List α)) (List α)
  | .ok s => .ok (view s)
  | .error halted => .error ⟨halted.fault, view halted.state⟩

/-- A worker that can do all pairs within the network, and none that reaches past it, ends or overruns, and
leaves what its operations keep. -/
theorem endsOrOverruns_of_performAll {σ : Type} (op : σ → Pair → Except Fault σ) (s : σ) (view : σ → List α)
    (Holds : σ → Prop) {n : Nat} {fault : Fault} (fits : n < Word.capacity)
    (inside : ∀ s pair, Holds s → pair.Within n → ∃ t, op s pair = .ok t ∧ Holds t)
    (outside : ∀ s b, Holds s → 0 < b → b ≤ n → op s (overrun n b) = .error fault) (holds : Holds s) :
    EndsOrOverruns (readBy view (performAll op s (schedule n))) n fault
        (fun pair halted => ∃ t, HaltsAt op s (schedule n) pair ⟨halted.fault, t⟩ ∧ halted.state = view t) ∧
      ∃ t, Holds t ∧ leftBy (readBy view (performAll op s (schedule n))) = view t := by
  obtain ⟨done, halts⟩ := performAll_schedule Holds fits inside outside holds
  by_cases schedulable : Schedulable n
  · obtain ⟨t, run, holds'⟩ := done schedulable
    rw [run]
    exact ⟨⟨⟨fun _ => schedulable, fun _ => ⟨_, rfl⟩⟩, fun _ run => nomatch run⟩, t, holds', rfl⟩
  · obtain ⟨b, t, greatest, stopped, holds'⟩ := halts schedulable
    rw [stopped.performAll_eq]
    refine ⟨⟨⟨?_, fun h => absurd h schedulable⟩, ?_⟩, t, holds', rfl⟩
    · rintro ⟨_, ⟨⟩⟩
    · rintro _ ⟨⟩
      exact ⟨rfl, b, greatest, t, stopped, rfl⟩

namespace Sequential

/-! ## single elements -/

section Elements

variable {cmp : α → α → Ordering} {data : List α} {a : Array α} {pair : Pair} {b : Nat}

/-- The elementwise sort halts at a pair of its schedule. -/
def ElementwiseHaltsAt (cmp : α → α → Ordering) (data : List α) (pair : Pair)
    (halted : Halted (List α)) : Prop :=
  ∃ after, HaltsAt (compareExchange cmp) data.toArray (schedule data.length) pair ⟨halted.fault, after⟩ ∧
    halted.state = after.toList

/-- What the elementwise sort keeps, however far it gets. -/
structure ElementsKept (data : List α) (a : Array α) : Prop where
  size_eq : a.size = data.length
  perm : a.toList.Perm data

variable (cmp) in
/-- The elements of a pair are put in order if they exist. -/
theorem ElementsKept.exists_compareExchange (h : ElementsKept data a) (within : pair.Within data.length) :
    ∃ after, compareExchange cmp a pair = .ok after ∧ ElementsKept data after := by
  obtain ⟨ordered, inside⟩ := within
  rw [← h.size_eq] at inside
  obtain ⟨after, done, size⟩ : ∃ after, compareExchange cmp a pair = .ok after ∧ after.size = a.size := by
    rw [compareExchange, dif_pos (ordered.trans inside), dif_pos inside]
    split
    · exact ⟨_, rfl, Array.size_swap ..⟩
    · exact ⟨_, rfl, rfl⟩
  exact ⟨after, done, size.trans h.size_eq, (toList_perm_of_compareExchange done).trans h.perm⟩

/-- The index just past the end is out of bounds. -/
theorem ElementsKept.compareExchange_overrun (h : ElementsKept data a) (positive : 0 < b)
    (le : b ≤ data.length) :
    compareExchange cmp a (overrun data.length b) =
      .error (.indexOutOfBounds data.length data.length) := by
  rw [← h.size_eq] at le ⊢
  have inside : (overrun a.size b).lower < a.size := Nat.sub_lt (positive.trans_le le) positive
  have outside : ¬(overrun a.size b).upper < a.size := Nat.lt_irrefl _
  rw [compareExchange, dif_pos inside, dif_neg outside]
  rfl

/-- The elementwise sort ends, or halts at an index just past the end, and loses no element. -/
theorem elementwise_endsOrOverruns (cmp : α → α → Ordering) {data : List α}
    (fits : data.length < Word.capacity) :
    EndsOrOverruns (elementwise cmp data) data.length (.indexOutOfBounds data.length data.length)
        (ElementwiseHaltsAt cmp data) ∧
      (leftBy (elementwise cmp data)).Perm data := by
  have run : elementwise cmp data =
      readBy Array.toList (performAll (compareExchange cmp) data.toArray (schedule data.length)) := by
    unfold elementwise
    cases performAll (compareExchange cmp) data.toArray (schedule data.length) <;> rfl
  obtain ⟨ends, after, kept, leaves⟩ := endsOrOverruns_of_performAll (compareExchange cmp) data.toArray
    Array.toList (ElementsKept data) fits (fun _ _ kept => kept.exists_compareExchange cmp)
    (fun _ _ kept => kept.compareExchange_overrun) ⟨rfl, .refl _⟩
  rw [run]
  exact ⟨ends, leaves ▸ kept.perm⟩

end Elements

/-! ## whole segments -/

section Segments

variable {order : ElementOrder α} {size b : Nat} {data : List α} {bench : Bench α} {pair : Pair}

/-- The segmented sort cuts the list and sorts the segments, and halts at a pair of its schedule. -/
def SegmentedHaltsAt (order : ElementOrder α) (size : Nat) (data : List α) (pair : Pair)
    (halted : Halted (List α)) : Prop :=
  ∃ s t bench, prepare size data = .ok s ∧ sortSegments order s = .ok t ∧
    HaltsAt (mergeSegments order.cmp) ⟨t, []⟩ (schedule (data.length / size)) pair
      ⟨halted.fault, bench⟩ ∧
    halted.state = bench.segments.toList

/-- What the segmented sort keeps, however far it gets. -/
structure SegmentsKept (size : Nat) (data : List α) (bench : Bench α) : Prop where
  exists_holds : ∃ cells, bench.segments.Holds (data.length / size) size
    (data.drop (data.length / size * size)) cells
  perm : bench.segments.toList.Perm data

/-- The segments of a pair are merged if they exist. -/
theorem SegmentsKept.exists_mergeSegments (order : ElementOrder α) (h : SegmentsKept size data bench)
    (fits : data.length < Word.capacity) (within : pair.Within (data.length / size)) :
    ∃ after, mergeSegments order.cmp bench pair = .ok after ∧ SegmentsKept size data after := by
  obtain ⟨cells, holds⟩ := h.exists_holds
  obtain ⟨after, done, holds'⟩ := Sequential.exists_mergeSegments order
    ((Nat.div_mul_le_self ..).trans_lt fits) ((Nat.div_le_self ..).trans_lt fits) within holds
  exact ⟨after, done, ⟨_, holds'⟩, (toList_perm_of_mergeSegments done).trans h.perm⟩

/-- The slice just past the end has only what is left over, which is too short. -/
theorem SegmentsKept.mergeSegments_overrun (h : SegmentsKept size data bench)
    (fits : data.length < Word.capacity) (positive : 0 < b) (le : b ≤ data.length / size) :
    mergeSegments order.cmp bench (overrun (data.length / size) b) =
      .error (.rangeEndOutOfBounds size (data.length % size)) := by
  obtain ⟨cells, holds⟩ := h.exists_holds
  have long : bench.segments.rest.length = data.length % size := by
    rw [holds.rest_eq, List.length_drop, Nat.mod_eq_sub_div_mul]
  have short := bench.segments.length_rest_lt
  have remaining : bench.segments.length - data.length / size * size = data.length % size := by
    rw [Segments.length, holds.count_eq, holds.size_eq, Nat.add_sub_cancel_left, long]
  have faults : checkSlices bench.segments (overrun (data.length / size) b) =
      .error (.rangeEndOutOfBounds size (data.length % size)) := by
    rw [checkSlices_eq]
    all_goals simp only [holds.count_eq, holds.size_eq, overrun]
    · rw [remaining, if_pos (by rwa [holds.size_eq, long] at short)]
    · exact (Nat.div_mul_le_self ..).trans_lt fits
    · exact (Nat.div_le_self ..).trans_lt fits
    · exact Nat.sub_lt (positive.trans_le le) positive
    · exact le_refl _
  rw [mergeSegments, faults]
  rfl

/-- The segmented sort ends, or halts at a slice of what is left over, and loses no element. -/
theorem segmented_endsOrOverruns (order : ElementOrder α) (positive : 0 < size)
    (twice : 2 * size < Word.capacity) (fits : data.length < Word.capacity) :
    EndsOrOverruns (segmented order size data) (data.length / size)
        (.rangeEndOutOfBounds size (data.length % size)) (SegmentedHaltsAt order size data) ∧
      (leftBy (segmented order size data)).Perm data ∧
      (leftBy (segmented order size data)).drop (data.length / size * size) =
        data.drop (data.length / size * size) := by
  obtain ⟨s, prepared, holds, whole⟩ := exists_prepare positive twice data
  obtain ⟨t, sorted, perm, holds⟩ :=
    exists_sortSegments order ((Nat.div_mul_le_self ..).trans_lt fits) holds
  have run : segmented order size data =
      readBy (fun bench => bench.segments.toList)
        (performAll (mergeSegments order.cmp) ⟨t, []⟩ (schedule (data.length / size))) := by
    simp only [segmented, prepared, sorted, mergeAll, holds.count_eq]
    cases performAll (mergeSegments order.cmp) ⟨t, []⟩ (schedule (data.length / size)) <;> rfl
  obtain ⟨ends, after, kept, leaves⟩ := endsOrOverruns_of_performAll (mergeSegments order.cmp) ⟨t, []⟩
    (fun bench => bench.segments.toList) (SegmentsKept size data) ((Nat.div_le_self ..).trans_lt fits)
    (fun _ _ kept => kept.exists_mergeSegments order fits)
    (fun _ _ kept => kept.mergeSegments_overrun fits) ⟨⟨_, holds⟩, whole ▸ perm⟩
  obtain ⟨cells, holds⟩ := kept.exists_holds
  rw [run]
  refine ⟨⟨ends.ok_iff, fun halted stopped => ?_⟩, leaves ▸ kept.perm, leaves ▸ holds.drop_toList⟩
  obtain ⟨cause, b, greatest, bench, halts, state⟩ := ends.overruns halted stopped
  exact ⟨cause, b, greatest, s, t, bench, prepared, sorted, halts, state⟩

end Segments

/-! ## both networks -/

/-- The networks of one worker are done exactly if there are no segments or a power of two of them.  For any
other number `n` of segments they halt, with `b` the largest power of two that divides `n`, in the stage of
blocks of `2 * b` at distance `b`, where the partner of segment `n - b` is `n`.  Done or halted, they leave
the elements of the list, and what follows the segments where it was. -/
theorem networks_end_or_overrun (cmp : α → α → Ordering) (order : ElementOrder α) {size : Nat}
    {data : List α} (positive : 0 < size) (small : size < 2 ^ 63) (short : data.length < 2 ^ 63) :
    (EndsOrOverruns (elementwise cmp data) data.length (.indexOutOfBounds data.length data.length)
        (ElementwiseHaltsAt cmp data) ∧
      (leftBy (elementwise cmp data)).Perm data) ∧
    (EndsOrOverruns (segmented order size data) (data.length / size)
        (.rangeEndOutOfBounds size (data.length % size)) (SegmentedHaltsAt order size data) ∧
      (leftBy (segmented order size data)).Perm data ∧
      (leftBy (segmented order size data)).drop (data.length / size * size) =
        data.drop (data.length / size * size)) := by
  have fits : data.length < Word.capacity := short.trans (by decide)
  have twice : 2 * size < Word.capacity := by
    simp only [Word.capacity, UInt64.size]
    omega
  exact ⟨elementwise_endsOrOverruns cmp fits, segmented_endsOrOverruns order positive twice fits⟩

/-- Twenty elements, and six segments of three of them with two left over. -/
theorem networks_overrun_twenty :
    0 < 3 ∧ 3 < 2 ^ 63 ∧ (List.range 20).length < 2 ^ 63 ∧
    (∃ halted, elementwise compare (List.range 20) = .error halted ∧
      halted.fault = .indexOutOfBounds 20 20 ∧
      ElementwiseHaltsAt compare (List.range 20) (overrun 20 4) halted) ∧
    ∃ halted, segmented (.ofCmp compare) 3 (List.range 20) = .error halted ∧
      halted.fault = .rangeEndOutOfBounds 3 2 ∧
      SegmentedHaltsAt (.ofCmp compare) 3 (List.range 20) (overrun 6 2) halted ∧
      halted.state.drop 18 = [18, 19] := by
  have short : (List.range 20).length < 2 ^ 63 := by decide
  obtain ⟨⟨elements, -⟩, segments, -, kept⟩ :=
    networks_end_or_overrun compare (.ofCmp compare) (by decide) (by decide : 3 < 2 ^ 63) short
  obtain ⟨halted, stopped, cause, there⟩ :=
    segments.exists_halted (e := 1) (q := 1) (by decide) (by decide)
  rw [stopped] at kept
  exact ⟨by decide, by decide, short, elements.exists_halted (e := 2) (q := 2) (by decide) (by decide),
    halted, stopped, cause, there, kept⟩

end Sequential

end SortNetwork
