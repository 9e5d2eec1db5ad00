/-!
# SortNetwork.Fault

The causes that can stop a computation midway, and what it means to stop.

Every index, every slice bound, every product of sizes and every assertion of the library is checked
where it is used, and a failed check is a `Fault`.  An operation on its own either succeeds or faults
without a trace; a run of operations that faults hands back the state it had reached (`Halted`), since
that state can be observed.

* `bind_eq_ok_iff`: two computations in turn succeed exactly when both do.
* `performAll_append`: a run over two lists of operations is the second run after the first.
-/

namespace SortNetwork

/-! ## causes -/

/-- Why a computation stopped. -/
inductive Fault where
  /-- an index at or past the end of a collection -/
  | indexOutOfBounds (length index : Nat)
  /-- a slice that ends past its collection -/
  | rangeEndOutOfBounds (stop length : Nat)
  /-- a collection cut in two past its end -/
  | splitPastEnd
  /-- a segment number at or past the segment count -/
  | segmentOutOfRange
  /-- a worker number for which no merge buffer was set aside -/
  | workerOutOfRange
  /-- a segment size of zero -/
  | emptySegments
  /-- a slice cut into chunks of no elements -/
  | emptyChunks
  /-- two quantities that must agree and do not -/
  | valuesDiffer (left right : Nat)
  /-- two quantities that must differ and agree -/
  | valuesAgree (left right : Nat)
  | divisionByZero
  | remainderByZero
  | multiplicationOverflow
  | additionOverflow
  /-- a queued task that gave up with a message of its own -/
  | taskFailed (message : String)
  deriving DecidableEq, Repr

/-- What a fault says of itself. -/
def Fault.message : Fault → String
  | .indexOutOfBounds length index =>
    "index out of bounds: the len is " ++ toString length ++ " but the index is " ++ toString index
  | .rangeEndOutOfBounds stop length =>
    "range end index " ++ toString stop ++ " out of range for slice of length " ++ toString length
  | .splitPastEnd => "mid > len"
  | .segmentOutOfRange => "assertion failed: id < self.num_segments"
  | .workerOutOfRange => "assertion failed: index < self.buffers.len()"
  | .emptySegments => "segment size must be at least 1"
  | .emptyChunks => "chunk_size must not be zero"
  | .valuesDiffer left right =>
    "assertion `left == right` failed\n  left: " ++ toString left ++ "\n right: " ++ toString right
  | .valuesAgree left right =>
    "assertion `left != right` failed\n  left: " ++ toString left ++ "\n right: " ++ toString right
  | .divisionByZero => "attempt to divide by zero"
  | .remainderByZero => "attempt to calculate the remainder with a divisor of zero"
  | .multiplicationOverflow => "attempt to multiply with overflow"
  | .additionOverflow => "attempt to add with overflow"
  | .taskFailed message => message

/-! ## computations in turn -/

/-- Two computations in turn succeed exactly when both do, the second on what the first found. -/
theorem bind_eq_ok_iff {α β : Type} {first : Except Fault α} {next : α → Except Fault β} {b : β} :
    (first >>= next) = .ok b ↔ ∃ a, first = .ok a ∧ next a = .ok b := by
  cases first with
  | error fault => simp [bind, Except.bind]
  | ok a => simp [bind, Except.bind]

/-! ## runs that stop -/

/-- A run that a fault stopped, with the state it had reached. -/
structure Halted (σ : Type) where
  fault : Fault
  state : σ

variable {σ ι : Type}

/-- Performs `op` on each item in turn.  An operation that faults has changed nothing, so the run halts
in the state before it. -/
def performAll (op : σ → ι → Except Fault σ) (s : σ) : List ι → Except (Halted σ) σ
  | [] => .ok s
  | item :: items =>
    match op s item with
    | .ok next => performAll op next items
    | .error fault => .error ⟨fault, s⟩

@[simp] theorem performAll_nil (op : σ → ι → Except Fault σ) (s : σ) :
    performAll op s [] = .ok s := rfl

/-- A run over two lists of operations is the second run after the first. -/
theorem performAll_append (op : σ → ι → Except Fault σ) (s : σ) (items more : List ι) :
    performAll op s (items ++ more) =
      match performAll op s items with
      | .ok next => performAll op next more
      | .error halted => .error halted := by
  induction items generalizing s with
  | nil => rfl
  | cons item items ih =>
    simp only [List.cons_append, performAll]
    cases op s item with
    | ok next => exact ih next
    | error fault => rfl

end SortNetwork
