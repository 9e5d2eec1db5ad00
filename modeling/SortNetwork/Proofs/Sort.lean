import Mathlib
import SortNetwork.Sort
import SortNetwork.Proofs.Parallel.Blocking
import SortNetwork.Proofs.Parallel.Delegated
import SortNetwork.Proofs.Parallel.LockFree
import SortNetwork.Proofs.Parallel.Stealing
import SortNetwork.Proofs.Parallel.WaitFree

/-!
# SortNetwork.Proofs.Sort

Every strategy sorts.

A list that a configuration fits is cut into a power of two of segments, and each strategy leaves in them
what the network leaves.  Where several workers act, that is so for every order of their steps, or for
every order in which a pool takes the jobs of a pass; and whatever order the workers have begun in, all
of them can finish.
-/

namespace SortNetwork

variable {α : Type} {order : ElementOrder α} {size m : Nat} {data : List α}

/-- The elements of a list in ascending order. -/
structure IsSortOf (order : ElementOrder α) (sorted data : List α) : Prop where
  ascends : sorted.Pairwise fun a b => (order.cmp a b).isLE = true
  perm : sorted.Perm data

/-- A list of at most one element is sorted. -/
theorem isSortOf_self (short : data.length ≤ 1) : IsSortOf order data data where
  ascends := by
    match data, short with
    | [], _ => exact .nil
    | [_], _ => exact List.pairwise_singleton ..
  perm := .refl _

/-- What the network leaves of a list without a rest is the list sorted. -/
theorem isSortOf_of_networkCells (suits : Suits size m data) (whole : data.length % size = 0)
    {s : Segments α}
    (holds : s.Holds (2 ^ m) size (data.drop (2 ^ m * size)) (networkCells order size m data)) :
    IsSortOf order s.toList data where
  ascends := pairwise_networkCells suits whole holds
  perm := by
    obtain ⟨t, -, holds', perm⟩ := Sequential.exists_segmented suits order
    rw [holds.toList_eq, ← holds'.toList_eq]
    exact perm

/-! ## strategies that share the segments out -/

namespace Parallel

variable {routine : Routine} {kind : BarrierKind} {threads : Nat} {strategy : Strategy}

theorem steady_of_routine? {segments : Segments α} (found : routine? strategy = some routine)
    (fits : 2 ^ m < Word.capacity) (divides : threads ∣ 2 ^ m) :
    Steady (routine.machine order threads) (routine.firstState threads (2 ^ m) kind segments)
      (2 ^ m) := by
  cases strategy <;> cases found
  · exact Blocking.steady fits divides
  · exact LockFree.steady fits divides
  · exact Stealing.steady fits divides
  · exact WaitFree.steady fits divides

/-- However the workers' steps interleave: no worker faults, all can finish, and once they have, the list
is sorted. -/
theorem exists_setUp_of_routine? (found : routine? strategy = some routine) (kind : BarrierKind)
    (order : ElementOrder α) (suits : Suits size m data) (whole : data.length % size = 0)
    (divides : threads ∣ 2 ^ m) :
    ∃ start, routine.setUp threads size kind (.start (data.length / size)) data = .ok start ∧
      ∀ s, (routine.machine order threads).system.Reachable start s →
        (∀ w < threads, ∀ cause, (routine.machine order threads).step w s ≠ .fault cause) ∧
        (∃ final, (routine.machine order threads).run s = .finished final ∧
          IsSortOf order final.store.segments.toList data) ∧
        ((routine.machine order threads).system.allFinished s = true →
          IsSortOf order s.store.segments.toList data) := by
  obtain ⟨segments, ready, holds, -⟩ := Routine.exists_setUp routine kind suits divides
  have steady :
      Steady (routine.machine order threads) (routine.firstState threads (2 ^ m) kind segments) (2 ^ m) :=
    steady_of_routine? found suits.small divides
  have sorts : ∀ log s, Execution (routine.machine order threads) _ log s →
      (routine.machine order threads).system.allFinished s = true →
        IsSortOf order s.store.segments.toList data :=
    fun log s execution finished => isSortOf_of_networkCells suits whole
      (execution.final suits (steady.orderly execution) holds (Machine.allFinished_iff.1 finished))
  refine ⟨_, ready, fun s reached => ?_⟩
  obtain ⟨log, execution⟩ := exists_execution_iff.2 reached
  obtain ⟨_, final, done, finishing, all⟩ := steady.exists_finished suits.fits suits.small holds execution
  exact ⟨fun w inside cause => steady.not_fault suits.fits suits.small holds execution inside cause,
    ⟨final, done, sorts _ _ finishing all⟩, sorts _ _ execution⟩

/-- A routine ends with the list sorted. -/
theorem Routine.sort_of_routine? (found : routine? strategy = some routine) (suits : Suits size m data)
    (whole : data.length % size = 0) (divides : threads ∣ 2 ^ m) :
    (routine.sort order threads size kind (.start (data.length / size)) data).verdict = .sorted ∧
      IsSortOf order (routine.sort order threads size kind (.start (data.length / size)) data).data
        data := by
  obtain ⟨start, ready, reached⟩ := exists_setUp_of_routine? found kind order suits whole divides
  obtain ⟨-, ⟨final, done, sorted⟩, -⟩ := reached start .start
  rw [Routine.sort, ready]
  dsimp only
  rw [done]
  exact ⟨rfl, sorted⟩

/-- The passes can be cut, and whatever order a pool takes the jobs of each pass in, the list is sorted. -/
theorem Delegated.exists_jobs_sorts (order : ElementOrder α) (suits : Suits size m data)
    (whole : data.length % size = 0) :
    ∃ jobs : List (List Delegated.Job), Delegated.passes size data.length = .ok (jobs.map .ok) ∧
      ∀ orders : List (List (Delegated.Job × List α)), Delegated.InPasses orders jobs →
        ∃ sorted, performAll (Delegated.Job.perform order) data.toArray orders.flatten = .ok sorted ∧
          IsSortOf order sorted.toList data := by
  refine ⟨_, Delegated.passes_eq_ok_of_suits suits whole, fun orders same => ?_⟩
  obtain ⟨sorted, done, sequential⟩ := Delegated.exists_performAll order suits same
  obtain ⟨s, sequential', holds, -⟩ := Sequential.exists_segmented suits order
  refine ⟨sorted, done, ?_⟩
  rw [Except.ok.inj (sequential.symm.trans sequential')]
  exact isSortOf_of_networkCells suits whole holds

end Parallel

/-! ## all strategies -/

/-- The workers of a configuration that fits have equal shares of the segments. -/
theorem exists_suits_of_routine? {config : SortConfig} {routine : Parallel.Routine}
    (short : data.length < 2 ^ 63)
    (valid : config.validate data.length = .ok ())
    (found : Parallel.routine? config.strategy = some routine) :
    ∃ m, Suits config.segmentSize m data ∧ data.length % config.segmentSize = 0 ∧
      config.threads ∣ 2 ^ m := by
  obtain ⟨strategy, threads, size, _, kind, _⟩ := config
  obtain ⟨m, suits, whole⟩ := exists_suits short valid
  obtain ⟨-, -, -, -, even⟩ := SortConfig.validate_eq_ok_iff.1 valid
  rw [suits.count_eq] at even
  cases strategy with
  | elementwise | sequential | delegated => cases found
  | _ => exact ⟨m, suits, whole, Nat.dvd_of_mod_eq_zero (even rfl)⟩

/-- The strategy of a configuration that fits leaves the list sorted. -/
theorem perform_sorts (order : ElementOrder α) {config : SortConfig} (short : data.length < 2 ^ 63)
    (valid : config.validate data.length = .ok ()) :
    (perform order config data).verdict = .sorted ∧
      IsSortOf order (perform order config data).data data := by
  cases found : Parallel.routine? config.strategy with
  | some routine =>
    obtain ⟨m, suits, whole, divides⟩ := exists_suits_of_routine? short valid found
    unfold perform
    rw [found]
    exact Parallel.Routine.sort_of_routine? found suits whole divides
  | none =>
    obtain ⟨m, suits, whole⟩ := exists_suits short valid
    obtain ⟨strategy, threads, size, _, kind, _⟩ := config
    cases strategy with
    | elementwise =>
      have trans := order.trans_cmp
      have count : data.length = 2 ^ m := by rw [← suits.count_eq]; exact (Nat.div_one _).symm
      obtain ⟨sorted, done, ascends, perm⟩ := Sequential.exists_elementwise order.cmp suits.small count
      simp only [perform, Parallel.routine?, done, SortReport.ofRun]
      exact ⟨trivial, ascends, perm⟩
    | sequential =>
      obtain ⟨s, done, holds, -⟩ := Sequential.exists_segmented suits order
      simp only [perform, Parallel.routine?]
      rw [show Sequential.segmented order size data = _ from done]
      exact ⟨rfl, isSortOf_of_networkCells suits whole holds⟩
    | delegated =>
      obtain ⟨s, done, holds, -⟩ := Sequential.exists_segmented suits order
      have run := Parallel.Delegated.sort_eq_segmented order suits whole
      simp only [perform, Parallel.routine?]
      rw [show Parallel.Delegated.sort order size data = _ from run.trans done]
      exact ⟨rfl, isSortOf_of_networkCells suits whole holds⟩
    | _ => cases found

/-- Every strategy sorts every list that its configuration fits, and every list of at most one element.
Where several workers act, they do so for every order of their steps: none of them faults, all can
finish, and once they have, the list is sorted.  A pool may take the jobs of each pass in any order, with
anything in its buffers. -/
theorem sort_sorts (order : ElementOrder α) (config : SortConfig) {data : List α}
    (short : data.length < 2 ^ 63)
    (valid : data.length ≤ 1 ∨ config.validate data.length = .ok ()) :
    (sort order config data).verdict = .sorted ∧ IsSortOf order (sort order config data).data data ∧
      (1 < data.length → ∀ routine, Parallel.routine? config.strategy = some routine →
        ∃ start,
          routine.setUp config.threads config.segmentSize config.barrier
            (.start (data.length / config.segmentSize)) data = .ok start ∧
          ∀ s, (routine.machine order config.threads).system.Reachable start s →
            (∀ w < config.threads, ∀ cause,
              (routine.machine order config.threads).step w s ≠ .fault cause) ∧
            (∃ final, (routine.machine order config.threads).run s = .finished final ∧
              IsSortOf order final.store.segments.toList data) ∧
            ((routine.machine order config.threads).system.allFinished s = true →
              IsSortOf order s.store.segments.toList data)) ∧
      (1 < data.length → config.strategy = .delegated →
        ∃ jobs : List (List Parallel.Delegated.Job),
          Parallel.Delegated.passes config.segmentSize data.length = .ok (jobs.map .ok) ∧
          ∀ orders : List (List (Parallel.Delegated.Job × List α)),
            Parallel.Delegated.InPasses orders jobs →
            ∃ sorted,
              performAll (Parallel.Delegated.Job.perform order) data.toArray orders.flatten = .ok sorted ∧
              IsSortOf order sorted.toList data) := by
  by_cases few : data.length ≤ 1
  · have same : sort order config data = ⟨.sorted, data, [.entered data.length config]⟩ := by
      rw [sort, if_pos few]
    rw [same]
    exact ⟨rfl, isSortOf_self few, fun many => absurd few (Nat.not_le.2 many),
      fun many => absurd few (Nat.not_le.2 many)⟩
  · have fits := valid.resolve_left few
    obtain ⟨verdict, sorted⟩ := perform_sorts order short fits
    refine ⟨?_, ?_, fun _ routine found => ?_, fun _ delegated => ?_⟩
    · rw [sort, if_neg few, fits]
      exact verdict
    · rw [sort, if_neg few, fits]
      exact sorted
    · obtain ⟨m, suits, whole, divides⟩ := exists_suits_of_routine? short fits found
      exact Parallel.exists_setUp_of_routine? found config.barrier order suits whole divides
    · obtain ⟨m, suits, whole⟩ := exists_suits short fits
      have size : config.effectiveSegmentSize = config.segmentSize := by
        rw [SortConfig.effectiveSegmentSize, delegated]
      rw [size] at suits whole
      exact Parallel.Delegated.exists_jobs_sorts order suits whole

/-- Two workers that take each other's tasks, on four segments of one element, two of which are equal. -/
theorem sort_sorts_four_segments :
    [3, 1, 2, 1].length < 2 ^ 63 ∧
    (⟨.stealing, 2, 1, .yield, .stepCounter, .locked⟩ : SortConfig).validate 4 = .ok () ∧
    (sort (.ofCmp (compare : Nat → Nat → Ordering)) ⟨.stealing, 2, 1, .yield, .stepCounter, .locked⟩
      [3, 1, 2, 1]).verdict = .sorted ∧
    IsSortOf (.ofCmp (compare : Nat → Nat → Ordering))
      (sort (.ofCmp (compare : Nat → Nat → Ordering)) ⟨.stealing, 2, 1, .yield, .stepCounter, .locked⟩
        [3, 1, 2, 1]).data [3, 1, 2, 1] ∧
    ∃ start,
      Parallel.Stealing.routine.setUp 2 1 .stepCounter (.start 4) [3, 1, 2, 1] = .ok start ∧
      ∀ s, (Parallel.Stealing.routine.machine (.ofCmp (compare : Nat → Nat → Ordering))
        2).system.Reachable start s →
        ∃ final, (Parallel.Stealing.routine.machine (.ofCmp compare) 2).run s = .finished final ∧
          IsSortOf (.ofCmp compare) final.store.segments.toList [3, 1, 2, 1] := by
  have valid : (⟨.stealing, 2, 1, .yield, .stepCounter, .locked⟩ : SortConfig).validate 4 = .ok () :=
    SortConfig.validate_eq_ok_iff.2 ⟨by decide, by decide, by decide, ⟨2, by decide⟩, fun _ => by decide⟩
  obtain ⟨verdict, sorted, interleaved, -⟩ := sort_sorts (.ofCmp (compare : Nat → Nat → Ordering)) _
    (show [3, 1, 2, 1].length < 2 ^ 63 by decide) (.inr valid)
  obtain ⟨start, ready, reached⟩ := interleaved (by decide) _ rfl
  exact ⟨by decide, valid, verdict, sorted, start, ready, fun s path => (reached s path).2.1⟩

end SortNetwork
