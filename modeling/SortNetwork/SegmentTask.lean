import SortNetwork.Network.Stage
import SortNetwork.Segments

/-!
# SortNetwork.SegmentTask

The pieces of work that a segmented sort is made of.

A task sorts one segment or performs one merge of the network.  Whoever performs it needs the segments and
some buffer to merge through; what the buffer held before does not matter.
-/

namespace SortNetwork

/-- A piece of work on segments. -/
inductive SegmentTask where
  | sort (id : Nat)
  | merge (pair : Pair)
  deriving DecidableEq, Repr

/-- The segments together with the buffer of whoever works on them. -/
structure Bench (α : Type) where
  segments : Segments α
  buffer : List α

namespace SegmentTask

variable {α : Type}

/-- The segments that the task touches, in the order in which it is done with them. -/
def touched : SegmentTask → List Nat
  | .sort id => [id]
  | .merge pair => [pair.lower, pair.upper]

/-- Performs the task. -/
def perform (order : ElementOrder α) (bench : Bench α) : SegmentTask → Except Fault (Bench α)
  | .sort id =>
    match bench.segments.sortSegment order id with
    | .ok segments => .ok { bench with segments }
    | .error fault => .error fault
  | .merge pair =>
    match bench.segments.mergePair order.cmp pair.lower pair.upper pair.direction bench.buffer with
    | .ok (segments, buffer) => .ok { segments, buffer }
    | .error fault => .error fault

end SegmentTask

end SortNetwork
