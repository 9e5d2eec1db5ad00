import SortNetwork.Fault

/-!
# SortNetwork.Word

Arithmetic on sizes and indices, which live in a 64-bit word.

A size is a natural number below `Word.capacity`.  Sums and products that leave the word are faults, and
so are quotients and remainders by zero; no operation wraps.

* `add_eq_ok_iff`, `mul_eq_ok_iff`, `div_eq_ok_iff`, `rem_eq_ok_iff`: when an operation succeeds, and with
  what.
-/

namespace SortNetwork.Word

/-- The number of bits in a word. -/
def bits : Nat := 64

/-- The first number that does not fit into a word. -/
def capacity : Nat := UInt64.size

/-- The sum, if it fits. -/
def add (a b : Nat) : Except Fault Nat :=
  if a + b < capacity then .ok (a + b) else .error .additionOverflow

/-- The product, if it fits. -/
def mul (a b : Nat) : Except Fault Nat :=
  if a * b < capacity then .ok (a * b) else .error .multiplicationOverflow

/-- The quotient, unless the divisor is zero. -/
def div (a b : Nat) : Except Fault Nat :=
  if b = 0 then .error .divisionByZero else .ok (a / b)

/-- The remainder, unless the divisor is zero. -/
def rem (a b : Nat) : Except Fault Nat :=
  if b = 0 then .error .remainderByZero else .ok (a % b)

/-! ## when an operation succeeds -/

theorem add_eq_ok_iff {a b c : Nat} : add a b = .ok c ↔ a + b < capacity ∧ c = a + b := by
  unfold add
  split
  · next fits => simp [fits, eq_comm]
  · next overflow => simp [overflow]

theorem mul_eq_ok_iff {a b c : Nat} : mul a b = .ok c ↔ a * b < capacity ∧ c = a * b := by
  unfold mul
  split
  · next fits => simp [fits, eq_comm]
  · next overflow => simp [overflow]

theorem div_eq_ok_iff {a b c : Nat} : div a b = .ok c ↔ b ≠ 0 ∧ c = a / b := by
  unfold div
  split <;> simp_all [eq_comm]

theorem rem_eq_ok_iff {a b c : Nat} : rem a b = .ok c ↔ b ≠ 0 ∧ c = a % b := by
  unfold rem
  split <;> simp_all [eq_comm]

end SortNetwork.Word
