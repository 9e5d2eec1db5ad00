import SortNetwork.Event
import SortNetwork.Parallel.Blocking
import SortNetwork.Parallel.Delegated
import SortNetwork.Parallel.LockFree
import SortNetwork.Parallel.Stealing
import SortNetwork.Parallel.WaitFree
import SortNetwork.Sequential

/-!
# SortNetwork.Sort

Sorting a list in the way that a configuration says.

A list of at most one element is sorted already, whatever the configuration.  For any other list the
configuration must fit; if it does not, the sort is refused and the list stays as it is.
-/

namespace SortNetwork

variable {α : Type}

/-- How a sort ended. -/
inductive Verdict where
  | sorted
  | refused (error : SortError)
  | faulted (fault : Fault)
  /-- the workers waited for each other for ever -/
  | stalled
  deriving DecidableEq, Repr

/-- How a sort ended, the list it left and what it reported. -/
structure SortReport (α : Type) where
  verdict : Verdict
  data : List α
  events : List Event

/-! ## the partitioned strategies -/

namespace Parallel

/-- What workers that shared the segments out leave behind. -/
structure Aftermath (α : Type) where
  verdict : Verdict
  data : List α
  segmentCounts : StageCounts
  workerCounts : StageCounts

/-- Carries out a routine.  A sort that cannot even be set up leaves the list and the counts alone. -/
def Routine.sort (routine : Routine) (order : ElementOrder α) (threads size : Nat)
    (barrier : BarrierKind) (counts : StageCounts) (data : List α) : Aftermath α :=
  match routine.setUp threads size barrier counts data with
  | .error fault =>
    { verdict := .faulted fault, data, segmentCounts := counts, workerCounts := .start threads }
  | .ok start =>
    let ending := (routine.machine order threads).run start
    { verdict :=
        match ending with
        | .finished _ => .sorted
        | .stalled _ => .stalled
        | .halted stopped => .faulted stopped.fault
      data := ending.state.store.segments.toList
      segmentCounts := ending.state.store.segmentCounts
      workerCounts := ending.state.store.workerCounts }

/-- The routine of a strategy that shares the segments out. -/
def routine? : Strategy → Option Routine
  | .elementwise | .sequential | .delegated => none
  | .blocking => some Blocking.routine
  | .lockFree => some LockFree.routine
  | .stealing => some Stealing.routine
  | .waitFree => some WaitFree.routine

end Parallel

/-! ## all strategies -/

/-- The report of a computation on one list. -/
def SortReport.ofRun (events : List Event) (run : Except (Halted (List α)) (List α)) : SortReport α :=
  match run with
  | .ok data => { verdict := .sorted, data, events }
  | .error halted => { verdict := .faulted halted.fault, data := halted.state, events }

/-- Performs the strategy of a configuration, without asking whether it fits. -/
def perform (order : ElementOrder α) (config : SortConfig) (data : List α) : SortReport α :=
  let segments := data.length / config.segmentSize
  let started := Event.started config segments (stageCount segments)
  match Parallel.routine? config.strategy with
  | none =>
    match config.strategy with
    | .elementwise => .ofRun [] (Sequential.elementwise order.cmp data)
    | .sequential => .ofRun [] (Sequential.segmented order config.segmentSize data)
    | _ => .ofRun [started] (Parallel.Delegated.sort order config.segmentSize data)
  | some routine =>
    let result := routine.sort order config.threads config.segmentSize config.barrier (.start segments) data
    let finished := (List.range config.threads).map fun worker =>
      Event.finished config.strategy worker (result.workerCounts.counts[worker]?.getD 0)
    { verdict := result.verdict, data := result.data, events := started :: finished }

/-- Sorts a list in ascending order. -/
def sort (order : ElementOrder α) (config : SortConfig) (data : List α) : SortReport α :=
  let entered := Event.entered data.length config
  if data.length ≤ 1 then { verdict := .sorted, data, events := [entered] }
  else
    match config.validate data.length with
    | .error error =>
      { verdict := .refused error, data, events := [entered, .refused error] }
    | .ok () =>
      let report := perform order config data
      { report with events := entered :: report.events }

end SortNetwork
