import SortNetwork.ElementOrder
import SortNetwork.Merge
import SortNetwork.Network.Stage

/-!
# SortNetwork.Parallel.Delegated

Passes handed to a pool of workers.

The local sorts are one pass, and every stage is another.  A pass is cut into jobs when it is begun.  The pool
does the jobs of a pass in any order, each once, and finishes a pass before it begins the next.

A stage `(k, j)` finds its pairs by cutting the list: into blocks of `2 * j` segments, each block into two
halves, and the halves into segments, which are taken pairwise.  A block that ends before its middle, chunks
of no elements and two segments of different lengths are faults.  Of the segments that are sorted on their
own the last may be shorter than the others.
-/

namespace SortNetwork.Parallel.Delegated

variable {α : Type}

/-! ## places in the list -/

/-- Some elements that follow each other. -/
structure Span where
  start : Nat
  length : Nat
  deriving DecidableEq, Repr

namespace Span

/-- The elements of the span, as far as the list reaches. -/
def read (span : Span) (elements : Array α) : List α :=
  (elements.extract span.start (span.start + span.length)).toList

/-- Writes a run over the elements from a place on. -/
def writeAt (elements : Array α) (place : Nat) : List α → Array α
  | [] => elements
  | x :: run => writeAt (elements.setIfInBounds place x) (place + 1) run

/-- Writes a run over the elements of the span. -/
def write (span : Span) (elements : Array α) (run : List α) : Array α := writeAt elements span.start run

/-- Cuts the span in two, the first part as long as asked for. -/
def splitAt (span : Span) (middle : Nat) : Except Fault (Span × Span) :=
  if span.length < middle then .error .splitPastEnd
  else .ok (⟨span.start, middle⟩, ⟨span.start + middle, span.length - middle⟩)

/-- Cuts the span into chunks of a size, the last of which may be shorter. -/
def chunks (span : Span) (size : Nat) : Except Fault (List Span) :=
  if size = 0 then .error .emptyChunks
  else .ok <| (List.range ((span.length + size - 1) / size)).map fun i =>
    ⟨span.start + i * size, min size (span.length - i * size)⟩

end Span

/-! ## jobs -/

/-- What a worker of the pool does in one go. -/
inductive Job where
  | sort (segment : Span)
  | merge (first second : Span) (direction : Direction)
  deriving DecidableEq, Repr

/-- Does a job with a buffer to merge through.  A job that faults has written nothing. -/
def Job.perform (order : ElementOrder α) (elements : Array α) (call : Job × List α) :
    Except Fault (Array α) :=
  match call.1 with
  | .sort segment => .ok (segment.write elements (order.sortRun (segment.read elements)))
  | .merge first second direction =>
    match SortNetwork.merge order.cmp direction (first.read elements) (second.read elements) call.2 with
    | .ok merged => .ok (second.write (first.write elements merged.first) merged.second)
    | .error fault => .error fault

/-! ## passes -/

/-- The local sorts. -/
def sorts (size length : Nat) : Except Fault (List Job) := do
  return (← Span.chunks ⟨0, length⟩ size).map .sort

/-- The number of the segment at a place in the lower half of a block. -/
def lowerNumber (stage : Stage) (block offset : Nat) : Except Fault Nat := do
  let twice ← Word.mul block 2
  let first ← Word.mul twice stage.j
  Word.add first offset

/-- The merges of block number `block`, whose lower half holds `half` elements.  The number of the lower
segment tells the direction. -/
def blockMerges (size : Nat) (stage : Stage) (half block : Nat) (chunk : Span) :
    Except Fault (List Job) := do
  let (lower, upper) ← chunk.splitAt half
  let firsts ← lower.chunks size
  let seconds ← upper.chunks size
  (firsts.zip seconds).zipIdx.mapM fun ((first, second), offset) => do
    -- the buffer has room for both segments
    let _ ← Word.mul 2 size
    let i ← lowerNumber stage block offset
    return .merge first second (stage.direction i)

/-- The merges of a stage, block after block. -/
def merges (size length : Nat) (stage : Stage) : Except Fault (List Job) := do
  let half ← Word.mul stage.j size
  let whole ← Word.mul 2 half
  let blocks ← Span.chunks ⟨0, length⟩ whole
  let jobs ← blocks.zipIdx.mapM fun (chunk, block) => blockMerges size stage half block chunk
  return jobs.flatten

/-- The passes over a list: the local sorts, and the merges of each stage.  What goes wrong when a pass is cut
goes wrong when it is its turn. -/
def passes (size length : Nat) : Except Fault (List (Except Fault (List Job))) := do
  let n ← Word.div length size
  return sorts size length :: (stages n).map (merges size length)

/-- Cuts and performs passes, one after the other and each in its order, with an empty buffer for each job. -/
def performPasses (order : ElementOrder α) (elements : Array α) :
    List (Except Fault (List Job)) → Except (Halted (Array α)) (Array α)
  | [] => .ok elements
  | .error fault :: _ => .error ⟨fault, elements⟩
  | .ok jobs :: later =>
    match performAll (Job.perform order) elements (jobs.map fun job => (job, [])) with
    | .ok next => performPasses order next later
    | .error halted => .error halted

/-- Sorts a list in passes. -/
def sort (order : ElementOrder α) (size : Nat) (data : List α) :
    Except (Halted (List α)) (List α) :=
  match passes size data.length with
  | .error fault => .error ⟨fault, data⟩
  | .ok layout =>
    match performPasses order data.toArray layout with
    | .ok sorted => .ok sorted.toList
    | .error halted => .error ⟨halted.fault, halted.state.toList⟩

end SortNetwork.Parallel.Delegated
