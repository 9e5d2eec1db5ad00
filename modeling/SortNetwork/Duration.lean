import SortNetwork.Binary64

/-!
# SortNetwork.Duration

The text of an average running time.

The total time is divided by the number of repetitions in double precision, brought to the largest unit in
which it is at least one, and written with one decimal place, a half going to the even neighbour.  Without
repetitions the average is infinite, or not a number if no time passed either.
-/

namespace SortNetwork.Duration

/-- An average as double precision gives it. -/
inductive Average where
  | finite (nanoseconds : Fraction)
  | infinite
  | undefined

/-- The average of a total time over repetitions. -/
def average (repeats nanoseconds : Nat) : Average :=
  if repeats = 0 then (if nanoseconds = 0 then .undefined else .infinite)
  else .finite (Binary64.div (Binary64.ofNat nanoseconds) (Binary64.ofNat repeats))

/-- A number with one decimal place. -/
def oneDecimal (x : Fraction) : String :=
  let tenths := roundDiv (x.num * 10) x.den
  toString (tenths / 10) ++ "." ++ toString (tenths % 10)

/-- The number of nanoseconds in a second. -/
def perSecond : Nat := 1000000000

/-- The units below the second, with the number of nanoseconds that is too many for each. -/
def units : List (Nat × String) := [(1000, "ns"), (1000000, "us"), (perSecond, "ms")]

/-- The time in the first of the units that suits it, each a thousand times the one before. -/
def inUnits (nanoseconds : Fraction) (scale : Nat) : List (Nat × String) → String
  | [] => oneDecimal (Binary64.div nanoseconds ⟨scale, 1⟩) ++ "s"
  | (limit, unit) :: larger =>
    if nanoseconds.lt ⟨limit, 1⟩ then oneDecimal (Binary64.div nanoseconds ⟨scale, 1⟩) ++ unit
    else inUnits nanoseconds limit larger

/-- How the average of a running time is written. -/
def text (repeats seconds nanoseconds : Nat) : String :=
  match average repeats (seconds * perSecond + nanoseconds) with
  | .finite time => inUnits time 1 units
  | .infinite => "infs"
  | .undefined => "NaNs"

end SortNetwork.Duration
