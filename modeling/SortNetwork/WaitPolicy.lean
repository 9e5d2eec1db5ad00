import SortNetwork.Variant

/-!
# SortNetwork.WaitPolicy

What a worker does between two polls.

A policy decides how much of the processor a waiting worker gives back.  It never changes what a poll sees,
so nothing else in the library depends on it.
-/

namespace SortNetwork

/-- How a waiting worker spends the time between two polls. -/
inductive WaitPolicy where
  /-- polls again at once -/
  | spin
  /-- lets other workers run -/
  | yield
  /-- tells the processor that it is polling -/
  | pause
  deriving DecidableEq, Repr

instance : Variant WaitPolicy where
  noun := "wait policy"
  all := [.spin, .yield, .pause]
  name
    | .spin => "spin"
    | .yield => "yield"
    | .pause => "pause"
  preferred := .yield

end SortNetwork
