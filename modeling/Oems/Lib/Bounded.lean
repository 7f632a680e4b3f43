import Mathlib.Algebra.Order.Ring.Abs
import Mathlib.Algebra.Ring.Int.Defs
import Mathlib.Data.Int.Order.Basic
import Mathlib.Tactic.Positivity

namespace Lib.Bounded

/-- Integer arithmetic of a signed type with some number of value bits. An
operation that overflows, or divides by zero, has no result. -/
def fit (w : ℕ) (x : ℤ) : Option ℤ := if -2 ^ w ≤ x ∧ x < 2 ^ w then some x else none

def add (w : ℕ) (x y : ℤ) : Option ℤ := fit w (x + y)

def sub (w : ℕ) (x y : ℤ) : Option ℤ := fit w (x - y)

def mul (w : ℕ) (x y : ℤ) : Option ℤ := fit w (x * y)

def abs (w : ℕ) (x : ℤ) : Option ℤ := fit w |x|

/-- The remainder of the division that rounds to zero. The quotient has to fit. -/
def rem (w : ℕ) (x y : ℤ) : Option ℤ :=
  if y = 0 then none else (fit w (x.tdiv y)).map fun _ => x.tmod y

theorem fit_eq {w : ℕ} {x : ℤ} (hlo : -2 ^ w ≤ x) (hhi : x < 2 ^ w) : fit w x = some x :=
  if_pos ⟨hlo, hhi⟩

theorem add_eq {w : ℕ} {x y : ℤ} (hx : 0 ≤ x) (hy : 0 ≤ y) :
    add w x y = if x + y < 2 ^ w then some (x + y) else none := by
  have hlo : -2 ^ w ≤ x + y := by
    have := pow_pos (show (0 : ℤ) < 2 by decide) w
    omega
  simp only [add, fit, hlo, true_and]

theorem sub_eq {w : ℕ} {x y : ℤ} (hx : 0 ≤ x) (hy : 0 ≤ y) (hxw : x < 2 ^ w) (hyw : y < 2 ^ w) :
    sub w x y = some (x - y) :=
  fit_eq (by omega) (by omega)

theorem abs_eq {w : ℕ} {x : ℤ} (hlo : -2 ^ w < x) (hhi : x < 2 ^ w) : abs w x = some |x| :=
  fit_eq (by have := abs_nonneg x; omega) (abs_lt.mpr ⟨hlo, hhi⟩)

theorem mul_eq {w u v : ℕ} {x y : ℤ} (hx : |x| ≤ 2 ^ u) (hy : |y| ≤ 2 ^ v) (hw : u + v < w) :
    mul w x y = some (x * y) := by
  have hpow : (2 : ℤ) ^ (u + v) < 2 ^ w := pow_lt_pow_right₀ (by norm_num) hw
  have hprod : |x * y| ≤ 2 ^ (u + v) := by
    rw [abs_mul, pow_add]
    exact mul_le_mul hx hy (abs_nonneg y) (by positivity)
  obtain ⟨hlo, hhi⟩ := abs_le.mp hprod
  exact fit_eq (by omega) (by omega)

theorem rem_eq {w : ℕ} {x y : ℤ} (hx : 0 ≤ x) (hy : 0 < y) (hxw : x < 2 ^ w) :
    rem w x y = some (x.tmod y) := by
  have hle : x.tdiv y ≤ x := Int.tdiv_le_self y hx
  have hge : 0 ≤ x.tdiv y := Int.tdiv_nonneg hx (le_of_lt hy)
  rw [rem, if_neg (by omega), fit_eq (by omega) (by omega)]
  rfl

end Lib.Bounded
