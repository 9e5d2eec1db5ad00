/-!
# SortNetwork.Binary64

Division in double precision, on exact fractions.

A non-negative double is a fraction whose numerator has at most 53 significant bits over, or times, a power
of two.  Arithmetic computes the exact fraction and rounds it once, to the nearest double and to the even
one of two that are equally near.  The exponents that can arise from counts and sizes never leave the
range of the format, so it is not bounded here.

* `roundDiv_mul`: a quotient that is whole is not rounded.
-/

namespace SortNetwork

/-- The quotient rounded to the nearest whole number, and to the even one of two that are equally near. -/
def roundDiv (num den : Nat) : Nat :=
  let quotient := num / den
  let twice := 2 * (num % den)
  if den < twice || (twice == den && quotient % 2 == 1) then quotient + 1 else quotient

/-- A quotient that is whole is not rounded. -/
theorem roundDiv_mul (n : Nat) {den : Nat} (h : 0 < den) : roundDiv (n * den) den = n := by
  have : den ≠ 0 := Nat.ne_of_gt h
  simp [roundDiv, Nat.mul_div_cancel n h, Ne.symm this]

/-- A non-negative fraction. -/
structure Fraction where
  num : Nat
  den : Nat
  deriving Repr

namespace Fraction

/-- Whether one fraction is less than another. -/
def lt (a b : Fraction) : Bool := a.num * b.den < b.num * a.den

/-- The exact quotient. -/
def quotient (a b : Fraction) : Fraction := ⟨a.num * b.den, a.den * b.num⟩

end Fraction

namespace Binary64

/-- The number of significant bits. -/
def precision : Nat := 53

/-- The fraction rounded to a multiple of `2 ^ exponent`. -/
def roundAt (x : Fraction) : (exponent : Int) → Fraction
  | .ofNat e => ⟨roundDiv x.num (x.den <<< e) <<< e, 1⟩
  | .negSucc e => ⟨roundDiv (x.num <<< (e + 1)) x.den, 1 <<< (e + 1)⟩

/-- The power of two at or below a positive fraction: the exponent, which may be one less than the
logarithms of numerator and denominator suggest. -/
def exponentOf (x : Fraction) : Int :=
  let guess : Int := (x.num.log2 : Int) - (x.den.log2 : Int)
  let below : Bool := match guess with
    | .ofNat e => x.num < x.den <<< e
    | .negSucc e => x.num <<< (e + 1) < x.den
  if below then guess - 1 else guess

/-- The double nearest to a fraction. -/
def round (x : Fraction) : Fraction :=
  if x.num = 0 then ⟨0, 1⟩ else roundAt x (exponentOf x - (precision - 1 : Nat))

/-- The double nearest to a whole number. -/
def ofNat (n : Nat) : Fraction := round ⟨n, 1⟩

/-- The quotient of two doubles, of which the second is not zero. -/
def div (a b : Fraction) : Fraction := round (a.quotient b)

end Binary64

end SortNetwork
