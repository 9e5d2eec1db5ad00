import SortNetwork.CommandLine
import SortNetwork.Sort

/-!
# SortNetwork.Benchmark

What the benchmark program sorts, how often, and with which configurations.

Lists of four sizes are filled with pseudo-random numbers that are kept small enough for some of them to
repeat.  Every strategy asked for sorts each list once, to be checked, and then as often as makes the runs
of all sizes comparable: first to warm up, then under the clock.
-/

namespace SortNetwork.Benchmark

/-- The binary logarithms of the sizes. -/
def logSizes : List Nat := [10, 15, 20, 22]

/-- The largest size, as a logarithm, that the elementwise network is tried on. -/
def elementwiseMaxLogSize : Nat := 16

/-- How often a list of this size is sorted under the clock. -/
def repeats (logSize : Nat) : Nat := 1 <<< (22 - logSize)

/-- How often a body is called to warm up, before it is called `repeats` times under the clock. -/
def warmUps (repeats : Nat) : Nat := repeats

/-- How often a body is called in all. -/
def calls (repeats : Nat) : Nat := warmUps repeats + repeats

/-- The strategies to be tried: those asked for, or all. -/
def strategies (options : CommandLine.Options) : List Strategy :=
  if options.strategies.isEmpty then Variant.all else options.strategies

/-- Whether a strategy is left out for a size. -/
def skips (strategy : Strategy) (logSize : Nat) : Bool :=
  strategy == .elementwise && elementwiseMaxLogSize < logSize

/-- The number of workers: as many as asked for, or as is standard, but no more than there are segments. -/
def threads (options : CommandLine.Options) (processors segments : Nat) : Nat :=
  min (options.threads.getD (SortConfig.standard processors).threads) segments

/-- The configuration for a strategy and a number of segments. -/
def config (options : CommandLine.Options) (processors segments : Nat) (strategy : Strategy) :
    SortConfig :=
  { SortConfig.standard processors strategy with
    threads := threads options processors segments
    segmentSize := options.effectiveSegmentSize
    waitPolicy := options.effectiveWaitPolicy }

/-! ## numbers -/

/-- The next state of the generator and its number: the two halves of a wide product, mixed. -/
def random (state : UInt64) : UInt64 × UInt64 :=
  let next := state + 0x2d358dccaa6c78a5
  let product := next.toNat * (next ^^^ 0x8bb84b93962eacc9).toNat
  (next, UInt64.ofNat product ^^^ UInt64.ofNat (product / Word.capacity))

/-- The numbers in `drawn`, of which the latest stands first, followed by `count` pseudo-random ones below
`2 ^ logSize`, all in the order in which they were drawn. -/
def numbers (logSize : Nat) :
    (count : Nat) → (state : UInt64) → (drawn : List Nat) → List Nat × UInt64
  | 0, state, drawn => (drawn.reverse, state)
  | count + 1, state, drawn =>
    let (state, n) := random state
    numbers logSize count state (n.toNat % (1 <<< logSize) :: drawn)

/-- The order of numbers. -/
def order : ElementOrder Nat := .ofCmp compare

end SortNetwork.Benchmark
