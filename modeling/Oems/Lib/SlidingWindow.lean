import Mathlib.Algebra.Order.Group.Unbundled.Basic
import Mathlib.Algebra.Order.Group.Defs
import Mathlib.Data.List.Induction
import Mathlib.Data.List.TakeWhile
import Mathlib.Data.List.Basic

namespace Lib.SlidingWindow

section Order

variable {α : Type*} [LinearOrder α]

/-- The entries of a log from one instant on. -/
def since (a : α) (log : List α) : List α := log.filter fun t => a ≤ t

/-- Drop the entries at the front that have expired. -/
def expire (a : α) (log : List α) : List α := log.dropWhile fun t => t < a

theorem since_append (a : α) (log later : List α) :
    since a (log ++ later) = since a log ++ since a later :=
  List.filter_append log later

theorem since_append_of_lt {a : α} {log : List α} (h : ∀ t ∈ log, t < a) (later : List α) :
    since a (log ++ later) = since a later := by
  have hnone : since a log = [] :=
    List.filter_eq_nil_iff.mpr fun t ht => by simpa using h t ht
  rw [since_append, hnone, List.nil_append]

theorem expire_cons (a t : α) (log : List α) :
    expire a (t :: log) = if t < a then expire a log else t :: log := by
  rw [expire, List.dropWhile_cons]
  by_cases h : t < a
  · rw [if_pos (by simpa using h), if_pos h, expire]
  · rw [if_neg (by simpa using h), if_neg h]

theorem expire_eq_since {log : List α} (h : log.Pairwise (· ≤ ·)) (a : α) :
    expire a log = since a log := by
  induction log with
  | nil => rfl
  | cons t log ih =>
    obtain ⟨hle, hlog⟩ := List.pairwise_cons.mp h
    rw [expire_cons]
    by_cases hold : t < a
    · rw [if_pos hold, ih hlog, since, since, List.filter_cons_of_neg (by simpa using hold)]
    · have hall : ∀ s ∈ t :: log, a ≤ s := by
        intro s hs
        obtain rfl | hs := List.mem_cons.mp hs
        · exact not_lt.mp hold
        · exact (not_lt.mp hold).trans (hle s hs)
      rw [if_neg hold]
      exact (List.filter_eq_self.mpr fun s hs => by simpa using hall s hs).symm

theorem expire_append (a : α) (log : List α) :
    ∃ old, log = old ++ expire a log ∧ ∀ t ∈ old, t < a := by
  refine ⟨log.takeWhile fun t => t < a, List.takeWhile_append_dropWhile.symm, fun t ht => ?_⟩
  simpa using List.mem_takeWhile_imp ht

theorem expire_expire {a b : α} (h : a ≤ b) (log : List α) :
    expire b (expire a log) = expire b log := by
  induction log with
  | nil => rfl
  | cons t log ih =>
    rw [expire_cons a]
    by_cases hold : t < a
    · rw [if_pos hold, ih, expire_cons b, if_pos (hold.trans_le h)]
    · rw [if_neg hold]

end Order

section Interval

variable {α : Type*} [LinearOrder α] [AddCommGroup α]

/-- The entries of a log in the closed interval of some width that begins at an
instant. -/
def inside (width a : α) (log : List α) : List α := log.filter fun t => a ≤ t ∧ t ≤ a + width

/-- Each entry of the log `later`, made after the log `log`, is preceded by fewer
than `m` entries that are not older than it by more than a width. -/
def Paced (width : α) (m : ℕ) (log later : List α) : Prop :=
  ∀ pre t post, later = pre ++ t :: post → (since (t - width) (log ++ pre)).length < m

variable {width : α} {m : ℕ} {log later : List α}

theorem inside_append (width a : α) (log later : List α) :
    inside width a (log ++ later) = inside width a log ++ inside width a later :=
  List.filter_append log later

variable [IsOrderedAddMonoid α]

theorem length_inside_le_since {a t : α} (h : t ≤ a + width) (log : List α) :
    (inside width a log).length ≤ (since (t - width) log).length := by
  apply List.Sublist.length_le
  apply List.monotone_filter_right
  intro s hs
  simp only [decide_eq_true_eq] at hs ⊢
  exact (sub_le_iff_le_add.mpr h).trans hs.1

/-- A paced log has at most `m` entries in each interval that it enters, those made
before it included. -/
theorem Paced.length_inside_le (h : Paced width m log later) (a : α)
    (hsome : inside width a later ≠ []) : (inside width a (log ++ later)).length ≤ m := by
  induction later using List.reverseRecOn with
  | nil => exact absurd rfl hsome
  | append_singleton later t ih =>
    have hbefore : Paced width m log later := by
      intro pre s post hsplit
      exact h pre s (post ++ [t]) (by rw [hsplit, List.append_assoc, List.cons_append])
    rw [← List.append_assoc, inside_append, List.length_append]
    by_cases hin : a ≤ t ∧ t ≤ a + width
    · have hfew : (since (t - width) (log ++ later)).length < m := h later t [] rfl
      have hle := length_inside_le_since hin.2 (log ++ later)
      have hone : (inside width a [t]).length ≤ 1 := List.length_filter_le _ _
      omega
    · have hnone : inside width a [t] = [] := List.filter_eq_nil_iff.mpr (by simpa using hin)
      rw [inside_append, hnone, List.append_nil] at hsome
      rw [hnone, List.length_nil, Nat.add_zero]
      exact ih hbefore hsome

theorem Paced.length_inside_le' (h : Paced width m log later) (a : α) :
    (inside width a later).length ≤ m := by
  by_cases hsome : inside width a later = []
  · rw [hsome]
    exact Nat.zero_le m
  · have hle := h.length_inside_le a hsome
    rw [inside_append, List.length_append] at hle
    omega

end Interval

end Lib.SlidingWindow
