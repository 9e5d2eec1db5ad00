import Mathlib
import SortNetwork.Proofs.Parallel.Hauls
import SortNetwork.Proofs.Sort

/-!
# SortNetwork.Proofs.Safety

A list that a configuration fits makes no sort fault.

Every sum, product, quotient and remainder of sizes, every index and slice bound and every assertion is
checked where it is used, and a failed check is a fault.  `Faults` collects the faults that a strategy can
come to on a list, whatever the order of its steps: in the networks of one worker, while the passes of a pool
are cut and in their jobs, and in the set-up, in the steps and in the counts of workers that share the segments
out.  If the configuration fits, there are none (`accepted_never_faults`).
-/

namespace SortNetwork

variable {α : Type} {order : ElementOrder α} {config : SortConfig} {data : List α}

/-- The faults that the strategy of a configuration can come to on a list, in some order of its steps and
with something in the buffers of a pool. -/
inductive Faults (order : ElementOrder α) (config : SortConfig) (data : List α) : Fault → Prop where
  | elementwise {halted : Halted (List α)} (chosen : config.strategy = .elementwise)
      (stopped : Sequential.elementwise order.cmp data = .error halted) :
      Faults order config data halted.fault
  | sequential {halted : Halted (List α)} (chosen : config.strategy = .sequential)
      (stopped : Sequential.segmented order config.segmentSize data = .error halted) :
      Faults order config data halted.fault
  /-- while the passes are numbered -/
  | layout {cause : Fault} (chosen : config.strategy = .delegated)
      (stopped : Parallel.Delegated.passes config.segmentSize data.length = .error cause) :
      Faults order config data cause
  /-- while the list is cut for a pass -/
  | cut {passes : List (Except Fault (List Parallel.Delegated.Job))} {cause : Fault}
      (chosen : config.strategy = .delegated)
      (numbered : Parallel.Delegated.passes config.segmentSize data.length = .ok passes)
      (stopped : .error cause ∈ passes) : Faults order config data cause
  /-- in a job of one of the first passes -/
  | pass {passes : List (Except Fault (List Parallel.Delegated.Job))}
      {begun : List (List Parallel.Delegated.Job)} {halted : Halted (Array α)}
      {orders : List (List (Parallel.Delegated.Job × List α))} (chosen : config.strategy = .delegated)
      (numbered : Parallel.Delegated.passes config.segmentSize data.length = .ok passes)
      (initial : begun.map .ok <+: passes) (same : Parallel.Delegated.InPasses orders begun)
      (stopped : performAll (Parallel.Delegated.Job.perform order) data.toArray orders.flatten =
        .error halted) :
      Faults order config data halted.fault
  /-- while the segments to be counted are numbered -/
  | division {routine : Parallel.Routine} {cause : Fault}
      (chosen : Parallel.routine? config.strategy = some routine)
      (stopped : Word.div data.length config.segmentSize = .error cause) : Faults order config data cause
  | setUp {routine : Parallel.Routine} {cause : Fault}
      (chosen : Parallel.routine? config.strategy = some routine)
      (stopped : routine.setUp config.threads config.segmentSize config.barrier
        (.start (data.length / config.segmentSize)) data = .error cause) : Faults order config data cause
  /-- in a step of a worker, after any steps of all -/
  | step {routine : Parallel.Routine} {start s : Parallel.State α} {w : Nat} {cause : Fault}
      (chosen : Parallel.routine? config.strategy = some routine)
      (ready : routine.setUp config.threads config.segmentSize config.barrier
        (.start (data.length / config.segmentSize)) data = .ok start)
      (reached : (routine.machine order config.threads).system.Reachable start s)
      (inside : w < config.threads)
      (stopped : (routine.machine order config.threads).step w s = .fault cause) :
      Faults order config data cause
  /-- while a worker counts one more task of a drain, after any steps of all; workers that take the tasks of those
  behind only come to run if the counts of the segments fit into memory -/
  | count {routine : Parallel.Routine} {start s : Parallel.State α} {hauls : Nat → List SegmentTask}
      {w executed : Nat} {cause : Fault}
      (chosen : Parallel.routine? config.strategy = some routine)
      (ready : routine.setUp config.threads config.segmentSize config.barrier
        (.start (data.length / config.segmentSize)) data = .ok start)
      (hauling : Parallel.Hauling (routine.machine order config.threads) start hauls s)
      (inside : w < config.threads)
      (held : config.strategy = .waitFree → StageCounts.Held (data.length / config.segmentSize))
      (taken : (hauls w).length = executed + 1) (stopped : Word.add executed 1 = .error cause) :
      Faults order config data cause

namespace Parallel

variable {routine : Routine} {strategy : Strategy} {m threads : Nat}

theorem counted_of_routine? (found : routine? strategy = some routine) (counting : routine.counting = true)
    (fits : 2 ^ m < Word.capacity) (divides : threads ∣ 2 ^ m) (kind : BarrierKind) :
    (routine.outline threads (2 ^ m) kind).Counted (2 ^ m) threads [] := by
  cases strategy <;> cases found
  · cases counting
  · exact LockFree.counted_outline fits divides kind
  · cases counting
  · exact WaitFree.counted_outline fits divides kind

section Numbers

variable {size w : Nat} {kind : BarrierKind} {start s : State α}

/-- No worker of a counted sort counts more stages than there are, no segment is counted through more, and their
number is a word. -/
theorem counts_le_stageCount (found : routine? strategy = some routine)
    (counting : routine.counting = true) (suits : Suits size m data) (divides : threads ∣ 2 ^ m)
    (ready : routine.setUp threads size kind (.start (data.length / size)) data = .ok start)
    (reached : (routine.machine order threads).system.Reachable start s) :
    (∀ w < threads, s.outline.stages w ≤ 1 + stageCount (2 ^ m)) ∧
      (∀ i, s.outline.counts i ≤ 1 + stageCount (2 ^ m)) ∧ 1 + stageCount (2 ^ m) < Word.capacity := by
  obtain ⟨segments, ready', -⟩ := Routine.exists_setUp routine kind suits divides
  cases ready.symm.trans ready'
  obtain ⟨log, execution⟩ := exists_execution_iff.2 reached
  have outline : (routine.firstState threads (2 ^ m) kind segments).outline =
      routine.outline threads (2 ^ m) kind := Routine.outline_firstState ..
  have counted := execution.counted counting suits.small
    (outline ▸ counted_of_routine? found counting suits.small divides kind)
  have few := stageCount_le_of_fits suits.small
  refine ⟨fun w inside => counted.stages_le inside, counted.counts_le_stageCount suits.small, ?_⟩
  simp only [Word.bits, Word.capacity, UInt64.size] at *
  omega

/-- A word counts what a worker takes in a drain. -/
theorem length_haul_lt {hauls : Nat → List SegmentTask} (found : routine? strategy = some routine)
    (suits : Suits size m data) (divides : threads ∣ 2 ^ m)
    (ready : routine.setUp threads size kind (.start (data.length / size)) data = .ok start)
    (held : strategy = .waitFree → StageCounts.Held (2 ^ m))
    (hauling : Hauling (routine.machine order threads) start hauls s) (inside : w < threads) :
    (hauls w).length < Word.capacity := by
  obtain ⟨segments, ready', -⟩ := Routine.exists_setUp routine kind suits divides
  cases ready.symm.trans ready'
  cases strategy <;> cases found
  · rw [Blocking.haul_eq_nil suits.small divides hauling inside]
    decide
  · rw [LockFree.haul_eq_nil suits.small divides hauling inside]
    decide
  · exact (Stealing.length_haul_le suits.small divides hauling inside).trans_lt suits.small
  · exact WaitFree.length_haul_lt suits.small (held rfl) divides hauling inside

end Numbers

end Parallel

/-- A configuration that fits comes to no fault. -/
theorem not_faults (short : data.length < 2 ^ 63) (valid : config.validate data.length = .ok ())
    (cause : Fault) : ¬Faults order config data cause := by
  intro faults
  cases faults with
  | elementwise chosen stopped =>
    obtain ⟨m, suits, -⟩ := exists_suits short valid
    have trans := order.trans_cmp
    have count : data.length = 2 ^ m := by
      rw [← suits.count_eq, SortConfig.effectiveSegmentSize, chosen, Nat.div_one]
    obtain ⟨sorted, done, -⟩ := Sequential.exists_elementwise order.cmp suits.small count
    cases stopped.symm.trans done
  | sequential chosen stopped =>
    obtain ⟨m, suits, -⟩ := exists_suits_of_ne short valid (by rw [chosen]; decide)
    obtain ⟨s, done, -⟩ := Sequential.exists_segmented suits order
    cases stopped.symm.trans done
  | layout chosen stopped =>
    obtain ⟨m, suits, whole⟩ := exists_suits_of_ne short valid (by rw [chosen]; decide)
    cases stopped.symm.trans (Parallel.Delegated.passes_eq_ok_of_suits suits whole)
  | cut chosen numbered stopped =>
    obtain ⟨m, suits, whole⟩ := exists_suits_of_ne short valid (by rw [chosen]; decide)
    cases numbered.symm.trans (Parallel.Delegated.passes_eq_ok_of_suits suits whole)
    obtain ⟨jobs, -, absurdity⟩ := List.mem_map.1 stopped
    cases absurdity
  | pass chosen numbered initial same stopped =>
    obtain ⟨m, suits, whole⟩ := exists_suits_of_ne short valid (by rw [chosen]; decide)
    cases numbered.symm.trans (Parallel.Delegated.passes_eq_ok_of_suits suits whole)
    have initial := (List.prefix_map_iff_of_injective fun _ _ => Except.ok.inj).1 initial
    obtain ⟨after, done⟩ := Parallel.Delegated.exists_performAll_of_initial order suits initial same
    cases stopped.symm.trans done
  | division chosen stopped =>
    obtain ⟨m, suits, -⟩ := exists_suits_of_routine? short valid chosen
    rw [Word.div, if_neg suits.size_pos.ne'] at stopped
    cases stopped
  | setUp chosen stopped =>
    obtain ⟨m, suits, whole, divides⟩ := exists_suits_of_routine? short valid chosen
    obtain ⟨start, ready, -⟩ :=
      Parallel.exists_setUp_of_routine? chosen config.barrier order suits whole divides
    cases stopped.symm.trans ready
  | step chosen ready reached inside stopped =>
    obtain ⟨m, suits, whole, divides⟩ := exists_suits_of_routine? short valid chosen
    obtain ⟨start, ready', safe⟩ :=
      Parallel.exists_setUp_of_routine? chosen config.barrier order suits whole divides
    cases ready.symm.trans ready'
    exact (safe _ reached).1 _ inside _ stopped
  | count chosen ready hauling inside held taken stopped =>
    obtain ⟨m, suits, -, divides⟩ := exists_suits_of_routine? short valid chosen
    rw [suits.count_eq] at held
    have few := Parallel.length_haul_lt chosen suits divides ready held hauling inside
    rw [Word.add, if_pos (by omega)] at stopped
    cases stopped

/-- A configuration that does not fit may come to one. -/
example : ∃ cause, Faults (.ofCmp (compare : Nat → Nat → Ordering))
    ⟨.elementwise, 1, 1, .yield, .senseReversal, .locked⟩ [3, 1, 2] cause :=
  ⟨_, .elementwise rfl rfl⟩

/-- A pool that is given a list with a rest cannot cut the last block of it. -/
example : Faults (.ofCmp (compare : Nat → Nat → Ordering))
    ⟨.delegated, 1, 2, .yield, .senseReversal, .locked⟩ [5, 4, 3, 2, 1] .splitPastEnd :=
  .cut rfl rfl (by cbv; exact .tail _ (.head _))

end SortNetwork
