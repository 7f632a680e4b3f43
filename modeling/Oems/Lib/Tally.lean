import Mathlib.Algebra.BigOperators.Group.Multiset.Basic
import Mathlib.Algebra.BigOperators.Ring.Multiset
import Mathlib.Algebra.Order.BigOperators.Group.Multiset
import Mathlib.Data.Multiset.Filter

namespace Lib.Tally

variable {α β M : Type*} [AddCommMonoid M]

/-- The sum over the postings that touch an account. -/
def balance (touches : β → α → Prop) [DecidableRel touches] (amount : β → M)
    (postings : Multiset β) (a : α) : M :=
  ((postings.filter fun x => touches x a).map amount).sum

theorem sum_map_ite (p : β → Prop) [DecidablePred p] (amount : β → M) (postings : Multiset β) :
    (postings.map fun x => if p x then amount x else 0).sum =
      ((postings.filter p).map amount).sum := by
  induction postings using Multiset.induction with
  | empty => rfl
  | cons x postings ih =>
    rw [Multiset.map_cons, Multiset.sum_cons, ih]
    by_cases h : p x
    · rw [if_pos h, Multiset.filter_cons_of_pos _ h, Multiset.map_cons, Multiset.sum_cons]
    · rw [if_neg h, Multiset.filter_cons_of_neg _ h, zero_add]

variable {touches : β → α → Prop} [DecidableRel touches] {amount : β → M}

theorem sum_touched (x : β) (accounts : Multiset α) :
    (accounts.map fun a => if touches x a then amount x else 0).sum =
      accounts.countP (touches x) • amount x := by
  rw [sum_map_ite (touches x) (fun _ => amount x), Multiset.map_const', Multiset.sum_replicate,
    Multiset.countP_eq_card_filter]

theorem sum_balance (accounts : Multiset α) (postings : Multiset β) :
    (accounts.map (balance touches amount postings)).sum =
      (postings.map fun x => accounts.countP (touches x) • amount x).sum := by
  have hbalance : balance touches amount postings = fun a =>
      (postings.map fun x => if touches x a then amount x else 0).sum := by
    funext a
    exact (sum_map_ite (fun x => touches x a) amount postings).symm
  rw [hbalance, Multiset.sum_map_sum_map]
  exact congrArg Multiset.sum (Multiset.map_congr rfl fun x _ => sum_touched x accounts)

theorem countP_eq_one {accounts : Multiset α} (hnodup : accounts.Nodup) {p : α → Prop}
    [DecidablePred p] {a : α} (ha : a ∈ accounts) (h : ∀ b ∈ accounts, p b ↔ b = a) :
    accounts.countP p = 1 := by
  classical
  rw [← Multiset.count_eq_one_of_mem hnodup ha]
  exact Multiset.countP_congr rfl fun b hb => propext ((h b hb).trans eq_comm)

/-- Where each posting of one kind touches one account and the others touch none, the
accounts add up to the postings of that kind. -/
theorem sum_balance_of_once (kind : β → Prop) [DecidablePred kind] {accounts : Multiset α}
    (hnodup : accounts.Nodup) {postings : Multiset β}
    (honce : ∀ x ∈ postings, kind x → ∃ a ∈ accounts, ∀ b ∈ accounts, touches x b ↔ b = a)
    (hnone : ∀ x ∈ postings, ¬ kind x → ∀ b ∈ accounts, ¬ touches x b) :
    (accounts.map (balance touches amount postings)).sum =
      ((postings.filter kind).map amount).sum := by
  rw [sum_balance]
  induction postings using Multiset.induction with
  | empty => rfl
  | cons x postings ih =>
    have htail := ih (fun y hy => honce y (Multiset.mem_cons_of_mem hy))
      fun y hy => hnone y (Multiset.mem_cons_of_mem hy)
    rw [Multiset.map_cons, Multiset.sum_cons, htail]
    by_cases hx : kind x
    · obtain ⟨a, ha, hone⟩ := honce x (Multiset.mem_cons_self x _) hx
      rw [Multiset.filter_cons_of_pos _ hx, Multiset.map_cons, Multiset.sum_cons,
        countP_eq_one hnodup ha hone, one_nsmul]
    · have hzero := hnone x (Multiset.mem_cons_self x _) hx
      rw [Multiset.filter_cons_of_neg _ hx, Multiset.countP_eq_zero.mpr hzero, zero_nsmul,
        zero_add]

end Lib.Tally
