import Mathlib.Data.List.Basic
import Mathlib.Data.List.Find
import Mathlib.Data.List.Nodup

namespace Lib.Keyed

variable {α κ : Type*} [DecidableEq κ] (key : α → κ)

def find (k : κ) (l : List α) : Option α := l.find? fun x => key x = k

/-- Change the elements that have a key, taking out those sent to `none`. -/
def update (k : κ) (f : α → Option α) (l : List α) : List α :=
  l.filterMap fun x => if key x = k then f x else some x

variable {key} {k k' : κ} {f : α → Option α}

theorem find_eq_none_iff {l : List α} : find key k l = none ↔ k ∉ l.map key := by
  simp [find]

theorem mem_of_find {l : List α} {x : α} (h : find key k l = some x) : x ∈ l ∧ key x = k :=
  ⟨List.mem_of_find?_eq_some h, by simpa using List.find?_some h⟩

theorem find_of_mem {l : List α} (hl : (l.map key).Nodup) {x : α} (hx : x ∈ l) :
    find key (key x) l = some x := by
  induction l with
  | nil => simp at hx
  | cons y l ih =>
    obtain ⟨hy, hl⟩ := List.nodup_cons.mp hl
    obtain rfl | hx := List.mem_cons.mp hx
    · simp [find]
    · have hne : key y ≠ key x := fun he => hy (he ▸ List.mem_map_of_mem hx)
      simpa [find, hne] using ih hl hx

theorem find_append {l l' : List α} : find key k (l ++ l') = (find key k l).or (find key k l') :=
  List.find?_append

theorem update_cons (x : α) (l : List α) :
    update key k f (x :: l) =
      (if key x = k then f x else some x).toList ++ update key k f l := by
  unfold update
  rw [List.filterMap_cons]
  cases (if key x = k then f x else some x) <;> rfl

theorem update_of_notMem {l : List α} (h : k ∉ l.map key) : update key k f l = l := by
  have hid : ∀ x ∈ l, (if key x = k then f x else some x) = some x := by
    intro x hx
    have hne : key x ≠ k := fun he => h (he ▸ List.mem_map_of_mem hx)
    rw [if_neg hne]
  rw [update, List.filterMap_congr hid, List.filterMap_some]

theorem update_cons_self {x : α} {l : List α} (h : ((x :: l).map key).Nodup) :
    update key (key x) f (x :: l) = (f x).toList ++ l := by
  rw [update_cons, if_pos rfl, update_of_notMem (List.nodup_cons.mp h).1]

theorem update_none (k : κ) (l : List α) :
    update key k (fun _ => none) l = l.filter fun x => key x ≠ k := by
  induction l with
  | nil => rfl
  | cons x l ih =>
    rw [update_cons, ih]
    by_cases hk : key x = k
    · simp [hk]
    · simp [hk]

theorem mem_update_none {l : List α} {x : α} (h : x ∈ update key k (fun _ => none) l) :
    x ∈ l ∧ key x ≠ k := by
  obtain ⟨y, hy, hxy⟩ := List.mem_filterMap.mp h
  split_ifs at hxy with hk
  cases hxy
  exact ⟨hy, hk⟩

theorem eraseP_eq_update {l : List α} (hl : (l.map key).Nodup) :
    (l.eraseP fun x => key x = k) = update key k (fun _ => none) l := by
  induction l with
  | nil => rfl
  | cons x l ih =>
    obtain ⟨hx, hl⟩ := List.nodup_cons.mp hl
    by_cases hk : key x = k
    · subst hk
      rw [update_cons_self (List.nodup_cons.mpr ⟨hx, hl⟩)]
      simp
    · rw [update_cons, if_neg hk, List.eraseP_cons_of_neg (by simpa using hk), ih hl]
      rfl

variable (hf : ∀ x y, f x = some y → key y = key x)
include hf

theorem keys_update (l : List α) : ((update key k f l).map key).Sublist (l.map key) := by
  induction l with
  | nil => exact List.Sublist.refl _
  | cons x l ih =>
    rw [update_cons]
    by_cases hk : key x = k
    · rw [if_pos hk]
      cases hx : f x with
      | none => exact ih.cons _
      | some y =>
        have hy := hf x y hx
        simpa [hy] using ih
    · rw [if_neg hk]
      simpa using ih

theorem find_update_of_ne {l : List α} (h : k' ≠ k) :
    find key k' (update key k f l) = find key k' l := by
  induction l with
  | nil => rfl
  | cons x l ih =>
    rw [update_cons]
    by_cases hk : key x = k
    · have hx : key x ≠ k' := fun he => h (he.symm.trans hk)
      rw [if_pos hk]
      cases hfx : f x with
      | none => simpa [find, hx] using ih
      | some y =>
        have hy : key y ≠ k' := fun he => hx ((hf x y hfx).symm.trans he)
        simpa [find, hx, hy] using ih
    · rw [if_neg hk]
      by_cases hx : key x = k'
      · simp [find, hx]
      · simpa [find, hx] using ih

theorem find_update_self {l : List α} (hl : (l.map key).Nodup) :
    find key k (update key k f l) = (find key k l).bind f := by
  induction l with
  | nil => rfl
  | cons x l ih =>
    obtain ⟨hx, hl⟩ := List.nodup_cons.mp hl
    by_cases hk : key x = k
    · subst hk
      rw [update_cons_self (List.nodup_cons.mpr ⟨hx, hl⟩)]
      have hnone : find key (key x) l = none := find_eq_none_iff.mpr hx
      cases hfx : f x with
      | none => simpa [find, hfx] using hnone
      | some y =>
        have hy := hf x y hfx
        simp [find, hfx, hy]
    · rw [update_cons, if_neg hk]
      simpa [find, hk] using ih hl

omit hf in
theorem filter_update {p : α → Bool} (hp : ∀ x y, f x = some y → p y = p x) (l : List α) :
    (update key k f l).filter p = update key k f (l.filter p) := by
  induction l with
  | nil => rfl
  | cons x l ih =>
    rw [update_cons, List.filter_append, ih]
    by_cases hpx : p x
    · rw [List.filter_cons_of_pos hpx, update_cons]
      congr 1
      by_cases hk : key x = k
      · rw [if_pos hk]
        cases hfx : f x with
        | none => rfl
        | some y => simp [hp x y hfx, hpx]
      · simp [if_neg hk, hpx]
    · rw [List.filter_cons_of_neg hpx]
      by_cases hk : key x = k
      · rw [if_pos hk]
        cases hfx : f x with
        | none => rfl
        | some y => simp [hp x y hfx, hpx]
      · simp [if_neg hk, hpx]

end Lib.Keyed
