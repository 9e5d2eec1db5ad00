import SortNetwork.Barrier
import SortNetwork.Interleaving

/-!
# SortNetwork.Barrier.Sums

Workers that add to shared sums, meet at a barrier, and read the sums.

There is one sum for each round.  In each round every worker adds to that round's sum, meets the others and
then reads the sum, which by then holds what all of them added.
-/

namespace SortNetwork.Barrier.Sums

/-- One step of a worker. -/
inductive Action where
  | add (round amount : Nat)
  | meet (call : Call)
  | read (round : Nat)
  deriving DecidableEq, Repr

/-- What a worker has to do and what it has read. -/
structure Member where
  code : List Action
  seen : List Nat := []
  deriving Repr

/-- What the workers share, and the workers. -/
structure Hall where
  barrier : Barrier
  sums : Array Nat
  members : Array Member
  deriving Repr

/-- What a worker that contributes `value` does: in round `r`, counted from zero, it adds the value times
`r + 1`. -/
def code (rounds value : Nat) : List Action :=
  (List.range rounds).flatMap fun round =>
    [.add round (value * (round + 1)), .meet .entering, .read round]

/-- The beginning: a worker for each value, and sums of zero. -/
def start (kind : BarrierKind) (rounds : Nat) (values : List Nat) : Hall where
  barrier := { kind }
  sums := Array.replicate rounds 0
  members := (values.map fun value => { code := code rounds value }).toArray

/-- Performs the first action of a worker. -/
def step (worker : Nat) (hall : Hall) : Outcome Hall :=
  match hall.members[worker]? with
  | none => .finished
  | some member =>
    match member.code with
    | [] => .finished
    | .add round amount :: rest =>
      .progress { hall with
        sums := hall.sums.modify round (· + amount)
        members := hall.members.setIfInBounds worker { member with code := rest } }
    | .read round :: rest =>
      match hall.sums[round]? with
      | some sum =>
        .progress { hall with
          members := hall.members.setIfInBounds worker { code := rest, seen := member.seen ++ [sum] } }
      | none => .fault (.indexOutOfBounds hall.sums.size round)
    | .meet call :: rest =>
      match hall.barrier.step hall.members.size call with
      | .moved barrier next =>
        .progress { hall with
          barrier, members := hall.members.setIfInBounds worker { member with code := .meet next :: rest } }
      | .unchanged => .waiting hall
      | .left barrier =>
        .progress { hall with
          barrier, members := hall.members.setIfInBounds worker { member with code := rest } }

/-- What each worker has read when all are done.  A round takes a worker no more than six steps. -/
def run (kind : BarrierKind) (rounds : Nat) (values : List Nat) : List (List Nat) :=
  let system : System Hall := ⟨values.length, step⟩
  let final := (system.run (6 * rounds * values.length) (start kind rounds values)).state
  final.members.toList.map Member.seen

end SortNetwork.Barrier.Sums
