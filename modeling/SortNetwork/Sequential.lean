import SortNetwork.SegmentTask

/-!
# SortNetwork.Sequential

The network performed by one worker, merge after merge.

Two networks have the same schedule.  The elementwise one treats every element as a segment of its own and
puts the two elements of a pair in order; the segmented one first sorts each segment and then merges
segments.  Both are meant for a power of two of elements or segments.  For any other number the schedule
soon names a partner past the end, and the run halts there with what it has done so far.
-/

namespace SortNetwork.Sequential

variable {α : Type}

/-! ## single elements -/

/-- Puts the two elements of a pair in order. -/
def compareExchange (cmp : α → α → Ordering) (data : Array α) (pair : Pair) :
    Except Fault (Array α) :=
  if h₁ : pair.lower < data.size then
    if h₂ : pair.upper < data.size then
      if pair.direction.opposite.before cmp data[pair.lower] data[pair.upper] then
        .ok (data.swap pair.lower pair.upper)
      else .ok data
    else .error (.indexOutOfBounds data.size pair.upper)
  else .error (.indexOutOfBounds data.size pair.lower)

/-- Sorts a power of two of elements by comparing and exchanging single elements. -/
def elementwise (cmp : α → α → Ordering) (data : List α) : Except (Halted (List α)) (List α) :=
  match performAll (compareExchange cmp) data.toArray (schedule data.length) with
  | .ok sorted => .ok sorted.toList
  | .error halted => .error ⟨halted.fault, halted.state.toList⟩

/-! ## whole segments -/

/-- Checks the slices that the merge of a pair takes out of the list: it cuts the list before the upper
segment, takes the lower segment from the first part, and the upper one from the front of the second. -/
def checkSlices (s : Segments α) (pair : Pair) : Except Fault Unit := do
  let split ← Word.mul pair.upper s.segmentSize
  if s.length < split then throw .splitPastEnd
  let _ ← Word.mul pair.lower s.segmentSize
  let next ← Word.add pair.lower 1
  let stop ← Word.mul next s.segmentSize
  if split < stop then throw (.rangeEndOutOfBounds stop split)
  if s.length - split < s.segmentSize then
    throw (.rangeEndOutOfBounds s.segmentSize (s.length - split))

/-- Merges the two segments of a pair. -/
def mergeSegments (cmp : α → α → Ordering) (bench : Bench α) (pair : Pair) :
    Except Fault (Bench α) := do
  checkSlices bench.segments pair
  let (segments, buffer) ←
    bench.segments.mergePair cmp pair.lower pair.upper pair.direction bench.buffer
  return { segments, buffer }

/-- Sorts every segment, in order. -/
def sortSegments (order : ElementOrder α) (s : Segments α) :
    Except (Halted (Segments α)) (Segments α) :=
  performAll (Segments.sortSegment order) s (List.range s.count)

/-- The segmented network after the local sorts: the merges of `pairs`, in order. -/
def mergeAll (order : ElementOrder α) (s : Segments α) (pairs : List Pair) :
    Except (Halted (Segments α)) (Segments α) :=
  match performAll (mergeSegments order.cmp) ⟨s, []⟩ pairs with
  | .ok bench => .ok bench.segments
  | .error halted => .error ⟨halted.fault, halted.state.segments⟩

/-- Checks that the list can be cut and that a buffer for two segments has a size, and cuts the list. -/
def prepare (size : Nat) (data : List α) : Except Fault (Segments α) := do
  let _ ← Word.div data.length size
  let _ ← Word.mul 2 size
  Segments.ofList size data

/-- Sorts a list whose segments number a power of two: every segment on its own, then the merges of the
schedule. -/
def segmented (order : ElementOrder α) (size : Nat) (data : List α) :
    Except (Halted (List α)) (List α) :=
  match prepare size data with
  | .error fault => .error ⟨fault, data⟩
  | .ok s =>
    match sortSegments order s with
    | .error halted => .error ⟨halted.fault, halted.state.toList⟩
    | .ok t =>
      match mergeAll order t (schedule t.count) with
      | .error halted => .error ⟨halted.fault, halted.state.toList⟩
      | .ok merged => .ok merged.toList

end SortNetwork.Sequential
