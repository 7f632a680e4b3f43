import Mathlib.Algebra.Order.Floor.Ring
import Mathlib.Data.Rat.Floor
import Mathlib.Algebra.Order.BigOperators.Group.List
import Mathlib.Algebra.BigOperators.Group.List.Lemmas
import Mathlib.Tactic.Linarith

namespace Lib.Apportion

variable {K : Type*} [Field K] [LinearOrder K] [FloorRing K]

/-- Round to the nearest integer, halves away from zero. -/
def roundAway (x : K) : ℤ := if 0 ≤ x then ⌊x + 1 / 2⌋ else ⌈x - 1 / 2⌉

/-- Share out a total: every share but the last is rounded for itself, and the
last one takes what is left. -/
def apportion (total : ℤ) : List K → List ℤ
  | [] => []
  | [_] => [total]
  | x :: y :: shares => roundAway x :: apportion (total - roundAway x) (y :: shares)

def taken (shares : List K) : ℤ := (shares.dropLast.map roundAway).sum

/-- How many of the shares before the last are nearer to the integer above, or halfway. -/
def nearerAbove (shares : List K) : ℕ := shares.dropLast.countP fun x => 1 / 2 ≤ Int.fract x

/-- What the shares before the last have beyond integers. -/
def fractions (shares : List K) : K := (shares.dropLast.map Int.fract).sum

theorem apportion_eq {shares : List K} (h : shares ≠ []) (total : ℤ) :
    apportion total shares = shares.dropLast.map roundAway ++ [total - taken shares] := by
  induction shares generalizing total with
  | nil => exact absurd rfl h
  | cons x shares ih =>
    cases shares with
    | nil => simp [apportion, taken]
    | cons y shares =>
      have hleft : total - roundAway x - taken (y :: shares) = total - taken (x :: y :: shares) := by
        simp only [taken, List.dropLast_cons_cons, List.map_cons, List.sum_cons]
        omega
      rw [apportion, ih (List.cons_ne_nil _ _), hleft, List.dropLast_cons_cons]
      rfl

theorem sum_apportion {shares : List K} (h : shares ≠ []) (total : ℤ) :
    (apportion total shares).sum = total := by
  rw [apportion_eq h, List.sum_append, List.sum_singleton]
  exact add_sub_cancel _ _

variable [IsStrictOrderedRing K]

theorem roundAway_nonneg {x : K} (h : 0 ≤ x) : 0 ≤ roundAway x := by
  rw [roundAway, if_pos h]
  apply Int.floor_nonneg.mpr
  linarith

theorem rounded_nonneg {shares : List K} (h : ∀ x ∈ shares, 0 ≤ x) :
    ∀ n ∈ shares.dropLast.map roundAway, 0 ≤ n := by
  intro n hn
  obtain ⟨x, hx, rfl⟩ := List.mem_map.mp hn
  exact roundAway_nonneg (h x (List.mem_of_mem_dropLast hx))

theorem apportion_nonneg_iff {shares : List K} (hne : shares ≠ []) (h : ∀ x ∈ shares, 0 ≤ x)
    (total : ℤ) : (∀ n ∈ apportion total shares, 0 ≤ n) ↔ taken shares ≤ total := by
  rw [apportion_eq hne]
  constructor
  · intro hall
    have hlast := hall (total - taken shares) (by simp)
    omega
  · intro hle n hn
    obtain hn | hn := List.mem_append.mp hn
    · exact rounded_nonneg h n hn
    · rw [List.mem_singleton.mp hn]
      omega

theorem roundAway_eq {x : K} (h : 0 ≤ x) :
    roundAway x = ⌊x⌋ + if 1 / 2 ≤ Int.fract x then 1 else 0 := by
  have hsplit := Int.floor_add_fract x
  have hlt := Int.fract_lt_one x
  have hnonneg := Int.fract_nonneg x
  rw [roundAway, if_pos h, Int.floor_eq_iff]
  split_ifs with hhalf
  · push_cast
    constructor <;> linarith
  · push_cast
    constructor <;> linarith

/-- Rounding takes the fractions away, and adds one where they are a half or more. -/
theorem taken_eq {shares : List K} (h : ∀ x ∈ shares, 0 ≤ x) :
    (taken shares : K) = shares.dropLast.sum - fractions shares + nearerAbove shares := by
  have hall : ∀ x ∈ shares.dropLast, 0 ≤ x := fun x hx => h x (List.mem_of_mem_dropLast hx)
  rw [taken, fractions, nearerAbove]
  generalize shares.dropLast = rounded at hall ⊢
  induction rounded with
  | nil => simp
  | cons x xs ih =>
    obtain ⟨hx, hxs⟩ := List.forall_mem_cons.mp hall
    have hsplit := Int.floor_add_fract x
    rw [List.map_cons, List.sum_cons, List.map_cons, List.sum_cons, List.sum_cons, List.countP_cons,
      Int.cast_add, ih hxs, roundAway_eq hx]
    simp only [decide_eq_true_eq]
    split_ifs <;> push_cast <;> linarith

/-- The rounded shares fit in a total exactly when, beyond what the shares exceed it by, those
that are rounded up are made good by the fractions and the last share. -/
theorem taken_le_iff {shares : List K} (hne : shares ≠ []) (h : ∀ x ∈ shares, 0 ≤ x)
    (total : ℤ) : taken shares ≤ total ↔
      nearerAbove shares + (shares.sum - total) ≤ fractions shares + shares.getLast hne := by
  have hsplit : shares.dropLast.sum + shares.getLast hne = shares.sum := by
    conv_rhs => rw [← List.dropLast_append_getLast hne]
    rw [List.sum_append, List.sum_singleton]
  rw [← Int.cast_le (R := K), taken_eq h, ← hsplit]
  constructor
  · intro hle
    linarith
  · intro hle
    linarith

theorem sum_positive_apportion {shares : List K} (hne : shares ≠ []) (h : ∀ x ∈ shares, 0 ≤ x)
    {total : ℤ} (hlt : total < taken shares) :
    ((apportion total shares).map fun n => max n 0).sum = taken shares := by
  have hsame : (shares.dropLast.map roundAway).map (fun n => max n 0) =
      shares.dropLast.map roundAway := by
    conv_rhs => rw [← List.map_id (shares.dropLast.map roundAway)]
    apply List.map_congr_left
    intro n hn
    exact max_eq_left (rounded_nonneg h n hn)
  have hlast : max (total - taken shares) 0 = 0 := max_eq_right (by omega)
  rw [apportion_eq hne, List.map_append, hsame, List.map_singleton, hlast, List.sum_append,
    List.sum_singleton, add_zero, taken]

end Lib.Apportion
