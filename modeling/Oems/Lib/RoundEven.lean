import Mathlib.Algebra.Order.Ring.Nat

namespace Lib.RoundEven

/-- Round to a multiple of `unit`, halves to an even multiple. -/
def toMultiple (unit n : ℕ) : ℕ :=
  if 2 * (n % unit) < unit ∨ 2 * (n % unit) = unit ∧ n / unit % 2 = 0 then n / unit * unit
  else (n / unit + 1) * unit

theorem toMultiple_one (n : ℕ) : toMultiple 1 n = n := by
  rw [toMultiple, Nat.mod_one, if_pos (Or.inl Nat.one_pos), Nat.div_one, mul_one]

/-- Keep some binary digits of a number. -/
def significant (digits n : ℕ) : ℕ := toMultiple (2 ^ (n.log2 + 1 - digits)) n

theorem significant_of_lt {digits n : ℕ} (hn : 0 < n) (h : n < 2 ^ digits) :
    significant digits n = n := by
  have hlog : n.log2 < digits := (Nat.log2_lt hn.ne').mpr h
  have hunit : n.log2 + 1 - digits = 0 := Nat.sub_eq_zero_of_le hlog
  rw [significant, hunit, pow_zero, toMultiple_one]

end Lib.RoundEven
