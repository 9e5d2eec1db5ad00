import SortNetwork.Merge.Loop
import SortNetwork.SegmentTask

/-!
# SortNetwork.Segments.InPlace

Segments as places in one list, which the operations on them read and write.

A `Layout` knows how long the segments are and how many there are, and nothing else; so it finds a segment
by arithmetic alone.  The elements lie in a `Memory` with the buffer of the merges.  An operation that faults
stops where it is, and whatever it has written until then stays written (`InPlace`).

* `Layout.new_eq_ok`: a list can be cut into segments of any size but zero.
-/

namespace SortNetwork

/-- The elements, and the buffer of the merges. -/
structure Memory (α : Type) where
  elements : List α
  buffer : List α
  deriving DecidableEq, Repr

/-- What is done with a memory, up to the first fault. -/
abbrev InPlace (α β : Type) := EStateM Fault (Memory α) β

/-- How long the segments of a list are, and how many there are. -/
structure Layout where
  segmentSize : Nat
  count : Nat
  deriving DecidableEq, Repr

variable {α : Type}

/-- The elements with a run in the place of those from `place` on. -/
def overlay (elements : List α) (place : Nat) (run : List α) : List α :=
  elements.take place ++ run ++ elements.drop (place + run.length)

namespace Layout

/-- The segments of a list of the given length.  There is no segment of size zero. -/
def new (size length : Nat) : Except Fault Layout :=
  if 0 < size then .ok ⟨size, length / size⟩ else .error .emptySegments

/-- Where a segment begins: it must exist, and its first element must have a place in a word. -/
def start (layout : Layout) (id : Nat) : Except Fault Nat :=
  if id < layout.count then Word.mul id layout.segmentSize else .error .segmentOutOfRange

/-- The segment that begins at a place. -/
def read (layout : Layout) (place : Nat) : InPlace α (List α) := do
  return ((← get).elements.drop place).take layout.segmentSize

/-- Writes a run over the elements from a place on. -/
def write (place : Nat) (run : List α) : InPlace α Unit :=
  modify fun memory => { memory with elements := overlay memory.elements place run }

/-- Copies elements over a segment, which must be as many. -/
def copyOver (place : Nat) (segment part : List α) : InPlace α Unit := do
  let run ← ofExcept (overwrite segment part)
  write place run

/-- Cuts the buffer where the first segment ends, and copies both parts over the segments. -/
def scatter (place₁ place₂ : Nat) (segment₁ segment₂ : List α) : InPlace α Unit := do
  let buffer := (← get).buffer
  if buffer.length < segment₁.length then throw .splitPastEnd
  copyOver place₁ segment₁ (buffer.take segment₁.length)
  copyOver place₂ segment₂ (buffer.drop segment₁.length)

/-- Merges the segments that begin at two places, whose orientations are read off their ends. -/
def mergeAt (layout : Layout) (cmp : α → α → Ordering) (target : Direction) (place₁ place₂ : Nat) :
    InPlace α Unit := do
  let segment₁ ← layout.read place₁
  let segment₂ ← layout.read place₂
  if segment₁.length ≠ segment₂.length then throw (.valuesDiffer segment₁.length segment₂.length)
  if segment₁.isEmpty then return
  modify fun memory =>
    { memory with
      buffer := (pour (target.before cmp) (readTowards target (.ofRun cmp segment₁) segment₁)
        (readTowards target (.ofRun cmp segment₂) segment₂) (memory.buffer.toArray.shrink 0)).toList }
  scatter place₁ place₂ segment₁ segment₂

/-- Sorts one segment. -/
def sortSegment (layout : Layout) (order : ElementOrder α) (id : Nat) : InPlace α Unit := do
  let place ← ofExcept (layout.start id)
  let segment ← layout.read place
  write place (order.sortRun segment)

/-- Merges two different segments and leaves the front of the merged run in the first. -/
def mergePair (layout : Layout) (cmp : α → α → Ordering) (a b : Nat) (direction : Direction) :
    InPlace α Unit := do
  if a = b then throw (.valuesAgree a b)
  let place₁ ← ofExcept (layout.start a)
  let place₂ ← ofExcept (layout.start b)
  layout.mergeAt cmp direction place₁ place₂

/-- Performs a task. -/
def perform (layout : Layout) (order : ElementOrder α) : SegmentTask → InPlace α Unit
  | .sort id => layout.sortSegment order id
  | .merge pair => layout.mergePair order.cmp pair.lower pair.upper pair.direction

/-- A list can be cut into segments of any size but zero. -/
theorem new_eq_ok {size : Nat} (some_ : 0 < size) (length : Nat) :
    new size length = .ok ⟨size, length / size⟩ := by
  rw [new, if_pos some_]

end Layout

end SortNetwork
