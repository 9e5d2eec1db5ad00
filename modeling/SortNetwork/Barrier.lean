import SortNetwork.Variant

/-!
# SortNetwork.Barrier

A barrier that workers pass together, cycle after cycle.

A call to the barrier takes a snapshot of its marker and counts itself among the arrivals.  The last of the
participants resets the count and moves the marker on, which releases the cycle; every other call polls the
marker until it differs from the snapshot.  Only equality with the snapshot matters, so the marker may wrap.

A call is divided into the steps between which other workers may act (`Barrier.Call`), and `Barrier.step`
performs one of them.  The two kinds of barrier differ in how the marker moves: a flag is set to the
complement of the snapshot, a step count grows by one.

* `step_arriving_of_lt`, `step_arriving_of_le`: which arrivals poll, and which one releases.
-/

namespace SortNetwork

/-- How the marker of a barrier moves on. -/
inductive BarrierKind where
  /-- the marker is a flag, complemented by a release -/
  | senseReversal
  /-- the marker counts releases, modulo `2 ^ 32` -/
  | stepCounter
  deriving DecidableEq, Repr

instance : Variant BarrierKind where
  noun := "barrier"
  all := [.senseReversal, .stepCounter]
  name
    | .senseReversal => "sense"
    | .stepCounter => "step"
  preferred := .senseReversal

/-- The kind with a numeric tag. -/
def BarrierKind.ofTag? : Nat → Option BarrierKind
  | 0 => some .senseReversal
  | 1 => some .stepCounter
  | _ => none

/-- The arrivals since the last release, and the marker that a release moves. -/
structure Barrier where
  kind : BarrierKind
  arrivals : Nat := 0
  marker : UInt32 := 0
  deriving DecidableEq, Repr

namespace Barrier

/-- Whether the next arrival completes a cycle of `participants`.  A cycle has at least one participant. -/
def completes (b : Barrier) (participants : Nat) : Bool := participants - 1 ≤ b.arrivals

/-- One more arrival. -/
def arrive (b : Barrier) : Barrier := { b with arrivals := b.arrivals + 1 }

/-- The arrivals of the next cycle start from none. -/
def reset (b : Barrier) : Barrier := { b with arrivals := 0 }

/-- Moves the marker on, away from the snapshot of the releasing call. -/
def release (b : Barrier) (snapshot : UInt32) : Barrier :=
  match b.kind with
  | .senseReversal => { b with marker := ~~~snapshot }
  | .stepCounter => { b with marker := b.marker + 1 }

/-! ## single steps -/

/-- How far a call has come. -/
inductive Call where
  /-- about to take its snapshot of the marker -/
  | entering
  /-- about to count itself -/
  | arriving (snapshot : UInt32)
  /-- waiting for a marker other than its snapshot -/
  | polling (snapshot : UInt32)
  /-- the last arrival, about to reset the count -/
  | resetting (snapshot : UInt32)
  /-- the last arrival, about to move the marker -/
  | releasing (snapshot : UInt32)
  deriving DecidableEq, Repr

/-- What one step of a call did. -/
inductive Turn where
  /-- the call came to its next step -/
  | moved (barrier : Barrier) (call : Call)
  /-- the call polled an unchanged marker -/
  | unchanged
  /-- the call returned -/
  | left (barrier : Barrier)
  deriving DecidableEq, Repr

/-- Performs one step of a call that was made for `participants`. -/
def step (b : Barrier) (participants : Nat) : Call → Turn
  | .entering => .moved b (.arriving b.marker)
  | .arriving snapshot =>
    .moved b.arrive (if b.completes participants then .resetting snapshot else .polling snapshot)
  | .polling snapshot => if b.marker = snapshot then .unchanged else .left b
  | .resetting snapshot => .moved b.reset (.releasing snapshot)
  | .releasing snapshot => .left (b.release snapshot)

/-- An arrival before the last one goes on to poll. -/
theorem step_arriving_of_lt {b : Barrier} {participants : Nat} {snapshot : UInt32}
    (h : b.arrivals < participants - 1) :
    b.step participants (.arriving snapshot) = .moved b.arrive (.polling snapshot) := by
  simp [step, completes, Nat.not_le.2 h]

/-- The last arrival goes on to release the cycle. -/
theorem step_arriving_of_le {b : Barrier} {participants : Nat} {snapshot : UInt32}
    (h : participants - 1 ≤ b.arrivals) :
    b.step participants (.arriving snapshot) = .moved b.arrive (.resetting snapshot) := by
  simp [step, completes, h]

@[simp] theorem kind_arrive (b : Barrier) : b.arrive.kind = b.kind := rfl

@[simp] theorem kind_reset (b : Barrier) : b.reset.kind = b.kind := rfl

@[simp] theorem kind_release (b : Barrier) (snapshot : UInt32) :
    (b.release snapshot).kind = b.kind := by
  unfold release
  split <;> simp_all

end Barrier

end SortNetwork
