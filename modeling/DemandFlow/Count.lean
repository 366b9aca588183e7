/-
  Counts of messages and bytes as they stand on the wire: 64-bit words. Sums and products stop
  at the largest word instead of wrapping, and a difference stops at zero, which is what
  subtraction on `Nat` does already.
-/

namespace DemandFlow.Count

/-- The largest count a 64-bit word holds: 2^64 - 1. -/
def top : Nat := 18446744073709551615

/-- The sum of two counts, held at `top`. -/
def add (a b : Nat) : Nat := min (a + b) top

/-- The product of two counts, held at `top`. -/
def mul (a b : Nat) : Nat := min (a * b) top

theorem top_pos : 0 < top := by decide

theorem add_le_top (a b : Nat) : add a b ≤ top := Nat.min_le_right _ _

theorem mul_le_top (a b : Nat) : mul a b ≤ top := Nat.min_le_right _ _

theorem add_of_le {a b : Nat} (h : a + b ≤ top) : add a b = a + b := Nat.min_eq_left h

theorem mul_of_le {a b : Nat} (h : a * b ≤ top) : mul a b = a * b := Nat.min_eq_left h

theorem le_add_left {a b : Nat} (h : a ≤ top) : a ≤ add a b := by
  unfold add; omega

theorem add_zero {a : Nat} (h : a ≤ top) : add a 0 = a := add_of_le h

end DemandFlow.Count
