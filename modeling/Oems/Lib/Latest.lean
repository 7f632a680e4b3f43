import Mathlib.Data.List.Induction

namespace Lib

variable {ι α : Type*} (value : ι → Option α)

/-- The value that the last entry of a log which has one gives. -/
def latest (log : List ι) : Option α := log.reverse.findSome? value

theorem exists_of_latest {log : List ι} {a : α} (h : latest value log = some a) :
    ∃ i ∈ log, value i = some a := by
  obtain ⟨i, hi, ha⟩ := List.exists_of_findSome?_eq_some h
  exact ⟨i, List.mem_reverse.mp hi, ha⟩

theorem latest_concat (log : List ι) (i : ι) :
    latest value (log ++ [i]) = (value i).or (latest value log) := by
  rw [latest, List.reverse_append, List.reverse_singleton, List.singleton_append,
    List.findSome?_cons, latest]
  cases value i <;> rfl

theorem latest_congr {value' : ι → Option α} {log : List ι} (h : ∀ i ∈ log, value i = value' i) :
    latest value log = latest value' log := by
  induction log using List.reverseRecOn with
  | nil => rfl
  | append_singleton log i ih =>
    rw [latest_concat, latest_concat, h i (by simp), ih fun j hj => h j (by simp [hj])]

theorem latest_append_of_none (log : List ι) {later : List ι} (h : ∀ i ∈ later, value i = none) :
    latest value (log ++ later) = latest value log := by
  rw [latest, List.reverse_append, List.findSome?_append,
    List.findSome?_eq_none_iff.mpr fun i hi => h i (List.mem_reverse.mp hi), latest]
  rfl

theorem latest_eq_none {log : List ι} (h : ∀ i ∈ log, value i = none) : latest value log = none :=
  latest_append_of_none value [] h

theorem latest_split {before after : List ι} {i : ι} {a : α} (hi : value i = some a)
    (h : ∀ j ∈ after, value j = none) : latest value (before ++ i :: after) = some a := by
  rw [← List.singleton_append, ← List.append_assoc, latest_append_of_none value _ h, latest_concat,
    hi]
  rfl

end Lib
