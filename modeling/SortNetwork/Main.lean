import SortNetwork.Benchmark
import SortNetwork.Duration

/-!
# SortNetwork.Main

The benchmark program: sorts pseudo-random numbers with every strategy asked for and tells how long it
took.
-/

namespace SortNetwork.Benchmark

/-- What the program says when its arguments lead to no run. -/
def usage : String :=
  "usage: sort-network [STRATEGY]... [-t THREADS] [-s SEGMENT_SIZE] [-w WAIT_POLICY]"

/-- The number of processors counted on where no number of workers is asked for. -/
def processors : Nat := 1

/-- Runs a body, first to warm up and then under the clock, and reports the average time. -/
def timed (name : String) (repeats : Nat) (body : IO Unit) : IO Unit := do
  for _ in List.range (warmUps repeats) do body
  let start ← IO.monoNanosNow
  for _ in List.range repeats do body
  let stop ← IO.monoNanosNow
  IO.println ("  " ++ name ++ ": " ++ Duration.text repeats 0 (stop - start))

/-- Sorts one list with one strategy, checks the result and measures the time. -/
def tryStrategy (config : SortConfig) (logSize : Nat) (data expected : List Nat) : IO Unit := do
  let name := Variant.name config.strategy
  if skips config.strategy logSize then return
  let report := sort order config data
  match report.verdict with
  | .refused error => IO.eprintln ("  skipping " ++ name ++ ": " ++ error.message)
  | .sorted =>
    if report.data != expected then IO.eprintln ("  " ++ name ++ ": output is not the sorted list")
    else
      let unsorted ← IO.mkRef data
      let result ← IO.mkRef data
      timed name (repeats logSize) do
        result.set (sort order config (← unsorted.get)).data
  | .faulted fault => IO.eprintln ("  " ++ name ++ ": " ++ fault.message)
  | .stalled => IO.eprintln ("  " ++ name ++ ": stalled")

/-- Tries all strategies on one size after the other. -/
def runSizes (options : CommandLine.Options) : List Nat → UInt64 → IO Unit
  | [], _ => return
  | logSize :: logSizes, state => do
    let (data, state) := numbers logSize (1 <<< logSize) state []
    let expected := order.sortRun data
    let segments := data.length / max 1 options.effectiveSegmentSize
    IO.println ("size: " ++ toString (8 * data.length / 1024) ++ "KiB, segments: " ++ toString segments ++
      ", threads: " ++ toString (threads options processors segments))
    for strategy in strategies options do
      tryStrategy (config options processors segments strategy) logSize data expected
    runSizes options logSizes state

end SortNetwork.Benchmark

open SortNetwork

/-- Reads the arguments and runs the benchmark. -/
def main (arguments : List String) : IO UInt32 := do
  match CommandLine.parse arguments with
  | .ok options =>
    Benchmark.runSizes options Benchmark.logSizes 0
    return 0
  | .error .helpRequested =>
    IO.println Benchmark.usage
    return 0
  | .error _ =>
    IO.eprintln Benchmark.usage
    return 2
