import SortNetwork.Barrier
import SortNetwork.TaskQueue
import SortNetwork.WaitPolicy
import SortNetwork.Word

/-!
# SortNetwork.Config

How a list is to be sorted, and which lists that fits.

A configuration fits a list if its segments number a power of two and, for the strategies that share the
segments out, if every worker gets equally many.  A configuration that does not fit is refused with the
first reason that applies, in a fixed order.

* `validate_eq_ok_iff`: the configurations that fit.
-/

namespace SortNetwork

/-- Who performs which merge of the network, and how a merge learns that its segments are ready. -/
inductive Strategy where
  /-- one worker, on single elements -/
  | elementwise
  /-- one worker, on segments -/
  | sequential
  /-- a pool of workers that performs each stage as one pass -/
  | delegated
  /-- workers with shares of the segments, and a barrier after each stage -/
  | blocking
  /-- workers with shares of the segments that wait for the segments they need -/
  | lockFree
  /-- workers that queue their merges and take from each other's queues while they wait at a barrier -/
  | stealing
  /-- workers that queue their merges, and take from the queues of those behind while they wait for a
  segment -/
  | waitFree
  deriving DecidableEq, Repr

instance : Variant Strategy where
  noun := "sort type"
  all := [.elementwise, .sequential, .delegated, .blocking, .lockFree, .stealing, .waitFree]
  name
    | .elementwise => "original"
    | .sequential => "sequential"
    | .delegated => "delegated"
    | .blocking => "blocking"
    | .lockFree => "lockfree"
    | .stealing => "stealing"
    | .waitFree => "waitfree"
  preferred := .blocking

namespace Strategy

/-- The strategies that employ several workers. -/
def parallel : List Strategy := [.delegated, .blocking, .lockFree, .stealing, .waitFree]

/-- Whether each worker owns a share of the segments. -/
def partitions : Strategy → Bool
  | .blocking | .lockFree | .stealing | .waitFree => true
  | .elementwise | .sequential | .delegated => false

end Strategy

/-- How a list is to be sorted. -/
structure SortConfig where
  strategy : Strategy
  threads : Nat
  segmentSize : Nat
  waitPolicy : WaitPolicy := .yield
  barrier : BarrierKind := .senseReversal
  queue : QueueKind := .locked
  deriving DecidableEq, Repr

/-- A change to one setting of a configuration. -/
inductive SortConfig.Change where
  | threads (n : Nat)
  | segmentSize (n : Nat)
  | waitPolicy (policy : WaitPolicy)
  | barrier (kind : BarrierKind)
  | queue (kind : QueueKind)
  deriving DecidableEq, Repr

/-- Why a configuration does not fit a list. -/
inductive SortError where
  | zeroSegmentSize
  | zeroThreads
  | indivisibleLength (length segmentSize : Nat)
  | segmentCountNotPowerOfTwo (segments : Nat)
  | unevenPartition (segments threads : Nat)
  deriving DecidableEq, Repr

/-- What a refusal says of itself. -/
def SortError.message : SortError → String
  | .zeroSegmentSize => "segment size must be at least 1"
  | .zeroThreads => "at least one thread is required"
  | .indivisibleLength length segmentSize =>
    "input length " ++ toString length ++ " is not a multiple of the segment size " ++ toString segmentSize
  | .segmentCountNotPowerOfTwo segments =>
    "segment count " ++ toString segments ++ " is not a power of two"
  | .unevenPartition segments threads =>
    toString segments ++ " segments cannot be split evenly across " ++ toString threads ++ " threads"

namespace SortConfig

/-- The segment size where none is given. -/
def standardSegmentSize : Nat := 256

/-- The configuration where nothing is given but the strategy, on a machine with this many processors: one
worker for each, rounded down to a power of two. -/
def standard (processors : Nat) (strategy : Strategy := Variant.preferred) : SortConfig where
  strategy := strategy
  threads := 1 <<< processors.log2
  segmentSize := standardSegmentSize

/-- The configuration after a change. -/
def apply (config : SortConfig) : Change → SortConfig
  | .threads n => { config with threads := n }
  | .segmentSize n => { config with segmentSize := n }
  | .waitPolicy policy => { config with waitPolicy := policy }
  | .barrier kind => { config with barrier := kind }
  | .queue kind => { config with queue := kind }

/-- The configuration after changes, of which a later one wins. -/
def applyAll (config : SortConfig) (changes : List Change) : SortConfig := changes.foldl apply config

/-- The segment size that counts: the elementwise network has segments of one element. -/
def effectiveSegmentSize (config : SortConfig) : Nat :=
  match config.strategy with
  | .elementwise => 1
  | _ => config.segmentSize

/-- The number of workers that counts: the networks of one worker need no other. -/
def effectiveThreads (config : SortConfig) : Nat :=
  match config.strategy with
  | .elementwise | .sequential => 1
  | _ => config.threads

/-- Checks that the configuration fits a list of this length. -/
def validate (config : SortConfig) (length : Nat) : Except SortError Unit :=
  let size := config.effectiveSegmentSize
  let threads := config.effectiveThreads
  let segments := length / size
  if size = 0 then .error .zeroSegmentSize
  else if threads = 0 then .error .zeroThreads
  else if length % size ≠ 0 then .error (.indivisibleLength length size)
  else if ¬segments.isPowerOfTwo then .error (.segmentCountNotPowerOfTwo segments)
  else if config.strategy.partitions && segments % threads != 0 then
    .error (.unevenPartition segments threads)
  else .ok ()

/-- The configurations that fit: there are a segment size and a worker, the segments number a power of two,
and they can be shared out evenly if they are. -/
theorem validate_eq_ok_iff {config : SortConfig} {length : Nat} :
    config.validate length = .ok () ↔
      config.effectiveSegmentSize ≠ 0 ∧ config.effectiveThreads ≠ 0 ∧
        length % config.effectiveSegmentSize = 0 ∧
        (length / config.effectiveSegmentSize).isPowerOfTwo ∧
        (config.strategy.partitions = true →
          length / config.effectiveSegmentSize % config.effectiveThreads = 0) := by
  unfold validate
  dsimp only
  split
  · simp_all
  split
  · simp_all
  split
  · simp_all
  split
  · simp_all
  split <;> simp_all

end SortConfig

end SortNetwork
