import SortNetwork.Network.Stage

/-!
# SortNetwork.Network.Partition

The contiguous run of segments that one worker owns.

The segments are dealt out in equal shares, in order of the workers; what a division with a remainder
leaves over belongs to nobody.  In each stage a worker merges the pairs whose lower segment it owns, while
the upper segment may belong to another worker.

* `share_eq_ok_iff`: when a share exists, and where it begins and ends.
-/

namespace SortNetwork

/-- A worker's share of the segments: those from `low` up to, and without, `high`. -/
structure Partition where
  worker : Nat
  low : Nat
  high : Nat
  deriving DecidableEq, Repr

namespace Partition

/-- The share of one of `threads` workers in `n` segments. -/
def share (worker threads n : Nat) : Except Fault Partition := do
  let each ← Word.div n threads
  let low ← Word.mul worker each
  let high ← Word.add low each
  return { worker, low, high }

/-- The segments of the share, in order. -/
def segments (part : Partition) : List Nat := List.range' part.low (part.high - part.low)

/-- The pairs of a stage that the share is responsible for. -/
def pairs (part : Partition) (stage : Stage) : List Pair := stage.pairsAmong part.segments

theorem mem_segments_iff {part : Partition} {id : Nat} :
    id ∈ part.segments ↔ part.low ≤ id ∧ id < part.high := by
  simp only [segments, List.mem_range'_1]
  omega

/-- A share exists when there is a worker and its end fits into a word; it begins behind the shares of the
workers before and is as long as each of them. -/
theorem share_eq_ok_iff {worker threads n : Nat} {part : Partition} :
    share worker threads n = .ok part ↔
      threads ≠ 0 ∧ worker * (n / threads) + n / threads < Word.capacity ∧
        part = ⟨worker, worker * (n / threads), worker * (n / threads) + n / threads⟩ := by
  unfold share
  simp only [bind_eq_ok_iff, Word.div_eq_ok_iff, Word.mul_eq_ok_iff, Word.add_eq_ok_iff]
  constructor
  · rintro ⟨_, ⟨some_worker, rfl⟩, _, ⟨_, rfl⟩, _, ⟨fits, rfl⟩, made⟩
    exact ⟨some_worker, fits, (Except.ok.inj made).symm⟩
  · rintro ⟨some_worker, fits, rfl⟩
    have begins : worker * (n / threads) < Word.capacity := Nat.lt_of_le_of_lt (Nat.le_add_right _ _) fits
    exact ⟨_, ⟨some_worker, rfl⟩, _, ⟨begins, rfl⟩, _, ⟨fits, rfl⟩, rfl⟩

/-- A worker's share holds as many segments as everybody's. -/
theorem length_segments_of_share {worker threads n : Nat} {part : Partition}
    (h : share worker threads n = .ok part) : part.segments.length = n / threads := by
  obtain ⟨_, _, rfl⟩ := share_eq_ok_iff.1 h
  simp [segments]

end Partition

end SortNetwork
