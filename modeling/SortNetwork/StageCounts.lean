import SortNetwork.Fault

/-!
# SortNetwork.StageCounts

How many stages each segment, or each worker, has completed.

A count only ever grows by one.  A worker that is about to touch a segment waits until its count equals the
worker's own stage exactly, so a count that ran ahead would keep the worker waiting for ever.

Counts are not cut off at the end of a word.  In a sort none of them has to be: no segment and no worker goes
through more than the local sorts and all stages (`counts_le_stageCount` in `SortNetwork.Proofs.Safety`).

* `load_advance_same`, `load_advance_other`: advancing one count changes that count alone.
-/

namespace SortNetwork

/-- One count per segment or worker. -/
structure StageCounts where
  counts : Array Nat
  deriving DecidableEq, Repr

namespace StageCounts

/-- Counts that start from none. -/
def start (size : Nat) : StageCounts := ⟨Array.replicate size 0⟩

/-- How many counts there are. -/
def size (c : StageCounts) : Nat := c.counts.size

/-- Reads a count. -/
def load (c : StageCounts) (i : Nat) : Except Fault Nat :=
  if h : i < c.counts.size then .ok c.counts[i] else .error (.indexOutOfBounds c.counts.size i)

/-- Adds one to a count. -/
def advance (c : StageCounts) (i : Nat) : Except Fault StageCounts :=
  if h : i < c.counts.size then .ok ⟨c.counts.set i (c.counts[i] + 1)⟩
  else .error (.indexOutOfBounds c.counts.size i)

/-- There is a count to read exactly where there is one. -/
theorem exists_load_iff {c : StageCounts} {i : Nat} : (∃ n, c.load i = .ok n) ↔ i < c.size := by
  unfold load size
  split
  · next inside => simp [inside]
  · next outside => simp [outside]

/-- A count can be advanced exactly where there is one. -/
theorem exists_advance_iff {c : StageCounts} {i : Nat} : (∃ d, c.advance i = .ok d) ↔ i < c.size := by
  unfold advance size
  split
  · next inside => simp [inside]
  · next outside => simp [outside]

/-- All counts start from zero. -/
theorem load_start {size i : Nat} (h : i < size) : (start size).load i = .ok 0 := by
  simp [start, load, h]

/-- Advancing a count adds one to it. -/
theorem load_advance_same {c d : StageCounts} {i n : Nat} (h : c.advance i = .ok d)
    (before : c.load i = .ok n) : d.load i = .ok (n + 1) := by
  unfold advance at h
  unfold load at before
  split at h
  · next inside =>
    cases h
    rw [dif_pos inside] at before
    cases before
    simp [load, inside]
  · cases h

/-- Advancing a count changes no other. -/
theorem load_advance_other {c d : StageCounts} {i j : Nat} (h : c.advance i = .ok d) (other : j ≠ i) :
    d.load j = c.load j := by
  unfold advance at h
  split at h
  · cases h
    simp [load, Array.getElem_set, Ne.symm other]
  · cases h

/-- Advancing a count keeps their number. -/
theorem size_advance {c d : StageCounts} {i : Nat} (h : c.advance i = .ok d) : d.size = c.size := by
  unfold advance at h
  split at h <;> cases h
  simp [size]

/-! ## scripted waits -/

/-- An operation on counts, where a wait lists what happens after each poll in vain. -/
inductive Operation where
  | advance (i : Nat)
  | load (i : Nat)
  | measure
  /-- polls count `i` until it equals `stage`, and gives up when no list of operations is left -/
  | waitFor (i stage : Nat) (polls : List (List Operation))

/-- What an operation answers. -/
inductive Answer where
  | advanced
  | value (n : Nat)
  | size (n : Nat)
  /-- whether the count was reached, and how many polls were in vain and followed by operations -/
  | waited (reached : Bool) (polls : Nat)
  deriving DecidableEq, Repr

namespace Operation

mutual

/-- Performs an operation with all operations inside it.  A fault ends them all and keeps the counts
reached. -/
def perform : Operation → EStateM Fault StageCounts Answer
  | .advance i => fun c =>
    match c.advance i with
    | .ok d => .ok .advanced d
    | .error fault => .error fault c
  | .load i => fun c =>
    match c.load i with
    | .ok n => .ok (.value n) c
    | .error fault => .error fault c
  | .measure => fun c => .ok (.size c.size) c
  | .waitFor i stage polls => do
    let (reached, count) ← pollThrough i stage polls
    return .waited reached count

/-- Performs operations one after the other and drops their answers. -/
def performEach : List Operation → EStateM Fault StageCounts Unit
  | [] => return
  | operation :: operations => do
    let _ ← operation.perform
    performEach operations

/-- Polls until count `i` equals `stage` or no list of operations is left; also tells how many lists were
performed. -/
def pollThrough (i stage : Nat) : List (List Operation) → EStateM Fault StageCounts (Bool × Nat)
  | [] => fun c =>
    match c.load i with
    | .ok n => .ok (n == stage, 0) c
    | .error fault => .error fault c
  | operations :: polls => fun c =>
    match c.load i with
    | .ok n =>
      if n = stage then .ok (true, 0) c
      else
        (do
          performEach operations
          let (reached, count) ← pollThrough i stage polls
          return (reached, count + 1)) c
    | .error fault => .error fault c

end

end Operation

end StageCounts

end SortNetwork
