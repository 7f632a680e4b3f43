import Mathlib.Algebra.BigOperators.Group.Finset.Piecewise
import Mathlib.Algebra.Order.BigOperators.Group.Finset
import Mathlib.Algebra.Order.Group.MinMax
import Mathlib.Tactic.Abel

namespace Lib.Greedy

variable {κ α : Type*} [DecidableEq κ] [AddCommGroup α] [LinearOrder α]

/-- The one that comes before all others who want something. -/
structure First (ahead : κ → κ → Prop) (claimants : Finset κ) (demand : κ → α) (x : κ) : Prop where
  mem : x ∈ claimants
  wants : 0 < demand x
  before : ∀ y ∈ claimants, y ≠ x → 0 < demand y → ahead x y
  not_behind : ∀ y ∈ claimants, 0 < demand y → ¬ ahead y x

/-- Serve the first claimant with all that it wants or all there is, and go on with the next,
until nothing is left to give or nobody wants more. -/
inductive Serves (ahead : κ → κ → Prop) (claimants : Finset κ) :
    α → (κ → α) → List (κ × α) → Prop
  | spent {supply : α} {demand : κ → α} (h : supply ≤ 0) : Serves ahead claimants supply demand []
  | content {supply : α} {demand : κ → α} (h : ∀ x ∈ claimants, demand x = 0) :
      Serves ahead claimants supply demand []
  | serve {supply : α} {demand : κ → α} {x : κ} {rest : List (κ × α)}
      (hfirst : First ahead claimants demand x)
      (hrest : Serves ahead claimants (supply - min supply (demand x))
        (Function.update demand x (demand x - min supply (demand x))) rest) :
      Serves ahead claimants supply demand ((x, min supply (demand x)) :: rest)

def received (x : κ) (served : List (κ × α)) : α :=
  ((served.filter fun y => y.1 = x).map Prod.snd).sum

/-- What a claimant wants of what those ahead of it leave. -/
def share (ahead : κ → κ → Prop) [DecidableRel ahead] (claimants : Finset κ) (supply : α)
    (demand : κ → α) (x : κ) : α :=
  max 0 (min (demand x) (supply - ∑ y ∈ claimants with ahead y x, demand y))

omit [LinearOrder α] in
theorem received_cons (x y : κ) (a : α) (served : List (κ × α)) :
    received x ((y, a) :: served) = (if y = x then a else 0) + received x served := by
  by_cases h : y = x
  · simp [received, h]
  · simp [received, h]

section

variable {ahead : κ → κ → Prop} {claimants : Finset κ} {supply : α} {demand : κ → α} {x : κ}

omit [LinearOrder α] in
theorem sum_update {s : Finset κ} (hx : x ∈ s) (k : α) :
    ∑ y ∈ s, Function.update demand x (demand x - k) y = ∑ y ∈ s, demand y - k := by
  rw [Finset.sum_update_of_mem hx, Finset.sum_eq_add_sum_sdiff_singleton_of_mem hx]
  abel

omit [DecidableEq κ] in
theorem share_of_sated [DecidableRel ahead] (h : demand x = 0) :
    share ahead claimants supply demand x = 0 := by
  rw [share, h]
  exact max_eq_left (min_le_left _ _)

theorem First.sum_ahead [DecidableRel ahead] (h : First ahead claimants demand x)
    (hdemand : ∀ y ∈ claimants, 0 ≤ demand y) (k : α) :
    ∑ y ∈ claimants with ahead y x, Function.update demand x k y = 0 := by
  apply Finset.sum_eq_zero
  intro y hy
  obtain ⟨hmem, hahead⟩ := Finset.mem_filter.mp hy
  have hne : y ≠ x := by
    rintro rfl
    exact h.not_behind y hmem h.wants hahead
  rw [Function.update_of_ne hne]
  by_contra hc
  exact h.not_behind y hmem (lt_of_le_of_ne (hdemand y hmem) (Ne.symm hc)) hahead

theorem First.share_self [DecidableRel ahead] (h : First ahead claimants demand x)
    (hdemand : ∀ y ∈ claimants, 0 ≤ demand y) :
    share ahead claimants supply demand x = max 0 (min supply (demand x)) := by
  have hsum := h.sum_ahead hdemand (demand x)
  rw [Function.update_eq_self] at hsum
  rw [share, hsum, sub_zero, min_comm]

theorem First.share_of_ne [DecidableRel ahead] (h : First ahead claimants demand x)
    (hdemand : ∀ y ∈ claimants, 0 ≤ demand y) {y : κ} (hy : y ∈ claimants) (hne : y ≠ x) (k : α) :
    share ahead claimants (supply - k) (Function.update demand x (demand x - k)) y =
      share ahead claimants supply demand y := by
  have hself : Function.update demand x (demand x - k) y = demand y := Function.update_of_ne hne ..
  obtain hpos | hzero := (hdemand y hy).lt_or_eq
  · have hmem : x ∈ claimants.filter fun z => ahead z y :=
      Finset.mem_filter.mpr ⟨h.mem, h.before y hy hne hpos⟩
    rw [share, share, hself, sum_update hmem, sub_sub_sub_cancel_right]
  · rw [share_of_sated hzero.symm, share_of_sated (hself.trans hzero.symm)]

theorem First.share_after [DecidableRel ahead] (h : First ahead claimants demand x)
    (hdemand : ∀ y ∈ claimants, 0 ≤ demand y) :
    share ahead claimants (supply - min supply (demand x))
      (Function.update demand x (demand x - min supply (demand x))) x = 0 := by
  rw [share, h.sum_ahead hdemand, sub_zero, Function.update_self]
  apply max_eq_left
  obtain hle | hle := le_total supply (demand x)
  · rw [min_eq_left hle]
    exact (min_le_right _ _).trans (sub_self supply).le
  · rw [min_eq_right hle]
    exact (min_le_left _ _).trans (sub_self (demand x)).le

variable [IsOrderedAddMonoid α]

theorem update_nonneg (hdemand : ∀ y ∈ claimants, 0 ≤ demand y) :
    ∀ y ∈ claimants, 0 ≤ Function.update demand x (demand x - min supply (demand x)) y := by
  intro y hy
  by_cases h : y = x
  · rw [h, Function.update_self]
    exact sub_nonneg.mpr (min_le_right _ _)
  · rw [Function.update_of_ne h]
    exact hdemand y hy

end

section

variable {ahead : κ → κ → Prop} {claimants : Finset κ} {supply : α} {demand : κ → α}
  {served : List (κ × α)} [IsOrderedAddMonoid α]

/-- Every claimant gets its share. -/
theorem Serves.received_eq [DecidableRel ahead] (h : Serves ahead claimants supply demand served)
    (hdemand : ∀ y ∈ claimants, 0 ≤ demand y) (hsupply : 0 ≤ supply) {x : κ}
    (hx : x ∈ claimants) : received x served = share ahead claimants supply demand x := by
  induction h with
  | @spent supply demand h =>
    have hahead : 0 ≤ ∑ y ∈ claimants with ahead y x, demand y :=
      Finset.sum_nonneg fun y hy => hdemand y (Finset.mem_of_mem_filter y hy)
    symm
    apply max_eq_left
    exact (min_le_right _ _).trans (sub_nonpos.mpr (h.trans hahead))
  | content h => exact (share_of_sated (h x hx)).symm
  | @serve supply demand z rest hfirst hrest ih =>
    have hrest := ih (update_nonneg hdemand) (sub_nonneg.mpr (min_le_left _ _))
    rw [received_cons, hrest]
    by_cases hz : z = x
    · subst hz
      rw [if_pos rfl, hfirst.share_after hdemand, add_zero, hfirst.share_self hdemand]
      exact (max_eq_right (le_min hsupply hfirst.wants.le)).symm
    · rw [if_neg hz, zero_add]
      exact hfirst.share_of_ne hdemand hx (Ne.symm hz) _

theorem Serves.sum_eq (h : Serves ahead claimants supply demand served)
    (hdemand : ∀ y ∈ claimants, 0 ≤ demand y) (hsupply : 0 ≤ supply) :
    (served.map Prod.snd).sum = min supply (∑ y ∈ claimants, demand y) := by
  induction h with
  | @spent supply demand h =>
    obtain rfl := le_antisymm h hsupply
    exact (min_eq_left (Finset.sum_nonneg hdemand)).symm
  | content h =>
    rw [Finset.sum_eq_zero h]
    exact (min_eq_right hsupply).symm
  | @serve supply demand x rest hfirst hrest ih =>
    have hrest := ih (update_nonneg hdemand) (sub_nonneg.mpr (min_le_left _ _))
    rw [List.map_cons, List.sum_cons, hrest, sum_update hfirst.mem, ← min_add_add_left]
    exact congrArg₂ min (add_sub_cancel _ _) (add_sub_cancel _ _)

end

end Lib.Greedy
