import SortNetwork.Barrier
import SortNetwork.WaitPolicy

/-!
# SortNetwork.Barrier.Nested

Waits on one barrier made by one worker, some of them while it is waiting already.

What a call does between two polls may itself be a call to the same barrier, as if other workers arrived
meanwhile.  Such calls form a finite tree (`Visit`): every call lists, for each poll that it can afford,
the calls made before the next poll.  A call that polls an unchanged marker once more than that is given up,
although its arrival stays counted.
-/

namespace SortNetwork.Barrier

/-- A call to the barrier, with what it does between its polls. -/
inductive Visit where
  /-- each poll in vain is followed by the next list of calls, and the call is given up when none is left -/
  | waitWith (participants : Nat) (polls : List (List Visit))
  /-- nothing but the policy happens between polls -/
  | wait (participants : Nat) (policy : WaitPolicy)

/-- What became of a call. -/
structure Visit.Report where
  /-- whether the call returned, and was not given up -/
  left : Bool
  /-- how many of its polls were in vain and followed by calls -/
  polls : Nat
  /-- what became of those calls -/
  inner : List (List Visit.Report)
  /-- the barrier right after the call -/
  after : Barrier

namespace Visit

mutual

/-- Performs a call with all calls inside it. -/
def perform : Visit → Barrier → Report
  | .waitWith participants polls, b =>
    if b.completes participants then
      { left := true, polls := 0, inner := [], after := b.arrive.reset.release b.marker }
    else
      pollThrough b.marker polls b.arrive
  | .wait participants _, b =>
    if b.completes participants then
      { left := true, polls := 0, inner := [], after := b.arrive.reset.release b.marker }
    else
      { left := false, polls := 0, inner := [], after := b.arrive }

/-- Performs calls one after the other. -/
def performEach : List Visit → Barrier → List Report × Barrier
  | [], b => ([], b)
  | visit :: visits, b =>
    let report := visit.perform b
    let (reports, after) := performEach visits report.after
    (report :: reports, after)

/-- Polls until the marker differs from the snapshot or no list of calls is left. -/
def pollThrough (snapshot : UInt32) : List (List Visit) → Barrier → Report
  | [], b => { left := b.marker != snapshot, polls := 0, inner := [], after := b }
  | visits :: polls, b =>
    if b.marker = snapshot then
      let (reports, between) := performEach visits b
      let rest := pollThrough snapshot polls between
      { rest with polls := rest.polls + 1, inner := reports :: rest.inner }
    else
      { left := true, polls := 0, inner := [], after := b }

end

end Visit

end SortNetwork.Barrier
