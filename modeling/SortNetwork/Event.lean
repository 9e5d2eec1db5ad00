import SortNetwork.Config

/-!
# SortNetwork.Event

What a sort reports while it runs.

A sort opens with a span that names its configuration.  A refusal is a warning; a strategy with several
workers announces itself, and its workers report when they are done.
-/

namespace SortNetwork

/-- How important a report is. -/
inductive Level where
  | warn
  | debug
  | trace
  deriving DecidableEq, Repr

/-- How a level is written. -/
def Level.name : Level → String
  | .warn => "WARN"
  | .debug => "DEBUG"
  | .trace => "TRACE"

/-- The value of a field. -/
inductive Field where
  | number (n : Nat)
  | text (s : String)
  deriving DecidableEq, Repr

/-- A report of a sort. -/
inductive Event where
  /-- a sort of a list of this length begins -/
  | entered (length : Nat) (config : SortConfig)
  /-- the configuration does not fit -/
  | refused (error : SortError)
  /-- a strategy with several workers begins with this many segments and stages -/
  | started (config : SortConfig) (segments stages : Nat)
  /-- a worker is done; where it counts stages itself, after this many -/
  | finished (strategy : Strategy) (worker completed : Nat)
  deriving DecidableEq, Repr

namespace Event

/-- The name of the span, for a report that opens one. -/
def span? : Event → Option String
  | .entered _ _ => some "sort"
  | _ => none

/-- How important the report is. -/
def level : Event → Level
  | .entered _ _ | .started _ _ _ => .debug
  | .refused _ => .warn
  | .finished _ _ _ => .trace

/-- How a strategy with several workers announces itself. -/
def announcement? : Strategy → Option String
  | .elementwise | .sequential => none
  | .delegated => some "delegated bitonic sort"
  | .blocking => some "blocking bitonic sort"
  | .lockFree => some "lock-free bitonic sort"
  | .stealing => some "work-stealing bitonic sort"
  | .waitFree => some "wait-free bitonic sort"

/-- The settings that a strategy depends on and therefore announces. -/
def announcedSettings (config : SortConfig) : List (String × Field) :=
  match config.strategy with
  | .blocking => [("barrier", .text (Variant.name config.barrier))]
  | .stealing =>
    [("barrier", .text (Variant.name config.barrier)), ("queue", .text (Variant.name config.queue))]
  | .waitFree => [("queue", .text (Variant.name config.queue))]
  | .elementwise | .sequential | .delegated | .lockFree => []

/-- The stages a worker has completed, under the name that its strategy gives them. -/
def completedStages (strategy : Strategy) (completed : Nat) : List (String × Field) :=
  match strategy with
  | .lockFree => [("my_stage", .number completed)]
  | .waitFree => [("stage", .number completed)]
  | .elementwise | .sequential | .delegated | .blocking | .stealing => []

/-- The fields of a report, in the order in which they are written. -/
def fields : Event → List (String × Field)
  | .entered length config =>
    [("len", .number length), ("sort_type", .text (Variant.name config.strategy)),
      ("num_threads", .number config.threads), ("segment_size", .number config.segmentSize)]
  | .refused error => [("message", .text "rejected sort configuration"), ("err", .text error.message)]
  | .started config segments stages =>
    [("message", .text ((announcement? config.strategy).getD "")), ("num_segments", .number segments),
      ("stages", .number stages)] ++ announcedSettings config
  | .finished strategy worker completed =>
    [("message", .text "worker finished"), ("thread", .number worker)] ++
      completedStages strategy completed

end Event

end SortNetwork
