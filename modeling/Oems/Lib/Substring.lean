import Mathlib.Data.List.Infix

namespace Lib.Substring

variable {α : Type*}

def OccursAt (needle s : List α) (i : ℕ) : Prop :=
  ∃ l r, l.length = i ∧ s = l ++ (needle ++ r)

theorem occursAt_zero {needle s : List α} : OccursAt needle s 0 ↔ needle <+: s := by
  constructor
  · rintro ⟨l, r, hl, rfl⟩
    rw [List.length_eq_zero_iff.mp hl]
    exact ⟨r, rfl⟩
  · rintro ⟨r, rfl⟩
    exact ⟨[], r, rfl, rfl⟩

theorem occursAt_succ {needle s : List α} {c : α} {i : ℕ} :
    OccursAt needle (c :: s) (i + 1) ↔ OccursAt needle s i := by
  constructor
  · rintro ⟨l, r, hl, hs⟩
    cases l with
    | nil => simp at hl
    | cons d l =>
      obtain ⟨rfl, rfl⟩ := List.cons_eq_cons.mp hs
      exact ⟨l, r, by simpa using hl, rfl⟩
  · rintro ⟨l, r, rfl, rfl⟩
    exact ⟨c :: l, r, rfl, rfl⟩

theorem not_occursAt_nil_succ {needle : List α} {i : ℕ} : ¬ OccursAt needle [] (i + 1) := by
  rintro ⟨l, r, hl, hs⟩
  have hnil : l = [] := (List.append_eq_nil_iff.mp hs.symm).1
  simp [hnil] at hl

theorem OccursAt.getElem? {needle s : List α} {i : ℕ} (h : OccursAt needle s i) {k : ℕ}
    (hk : k < needle.length) : s[i + k]? = needle[k]? := by
  obtain ⟨l, r, rfl, rfl⟩ := h
  rw [List.getElem?_append_right (by omega), Nat.add_sub_cancel_left,
    List.getElem?_append_left hk]

theorem infix_iff_occursAt {needle s : List α} : needle <:+: s ↔ ∃ i, OccursAt needle s i := by
  constructor
  · rintro ⟨l, r, rfl⟩
    exact ⟨l.length, l, r, rfl, List.append_assoc ..⟩
  · rintro ⟨i, l, r, -, rfl⟩
    exact ⟨l, r, List.append_assoc ..⟩

theorem infix_append_iff_right {a : α} {n m : List α} (h : a ∉ m) (r : List α) :
    a :: n <:+: m ++ r ↔ a :: n <:+: r := by
  induction m with
  | nil => rw [List.nil_append]
  | cons b m ih =>
    have hstart : ¬ a :: n <+: b :: (m ++ r) := by
      intro hp
      obtain ⟨rfl, -⟩ := List.cons_prefix_cons.mp hp
      simp at h
    rw [List.cons_append, List.infix_cons_iff, ih fun hm => h (List.mem_cons_of_mem b hm)]
    simp [hstart]

theorem prefix_append_cons_iff {needle l : List α} {c : α} (hc : c ∉ needle) (r : List α) :
    needle <+: l ++ c :: r ↔ needle <+: l := by
  constructor
  · rintro ⟨t, ht⟩
    obtain ⟨a, rfl, -⟩ | ⟨a, rfl, ha⟩ := List.append_eq_append_iff.mp ht
    · exact List.prefix_append _ _
    · cases a with
      | nil => simp
      | cons b a =>
        obtain ⟨rfl, -⟩ := List.cons_eq_cons.mp ha
        simp at hc
  · exact fun h => h.trans (List.prefix_append _ _)

theorem infix_append_cons_iff {needle l : List α} {c : α} (hc : c ∉ needle) (r : List α) :
    needle <:+: l ++ c :: r ↔ needle <:+: l ∨ needle <:+: r := by
  induction l with
  | nil =>
    rw [List.nil_append, List.infix_cons_iff]
    have hstart := prefix_append_cons_iff (l := []) hc r
    rw [List.nil_append] at hstart
    rw [hstart]
    simp
  | cons d l ih =>
    rw [List.cons_append, List.infix_cons_iff, List.infix_cons_iff, ih,
      ← List.cons_append, prefix_append_cons_iff hc, or_assoc]

section Search

variable [DecidableEq α]

def find (needle : List α) : List α → Option ℕ
  | [] => if needle = [] then some 0 else none
  | c :: s => if needle <+: c :: s then some 0 else (find needle s).map (· + 1)

def findFrom (needle s : List α) (pos : ℕ) : Option ℕ :=
  (find needle (s.drop pos)).map (pos + ·)

def rfind (needle : List α) : List α → Option ℕ
  | [] => if needle = [] then some 0 else none
  | c :: s =>
    match rfind needle s with
    | some i => some (i + 1)
    | none => if needle <+: c :: s then some 0 else none

theorem find_eq_some_iff {needle s : List α} {i : ℕ} :
    find needle s = some i ↔ OccursAt needle s i ∧ ∀ j < i, ¬ OccursAt needle s j := by
  induction s generalizing i with
  | nil =>
    cases i with
    | zero => simp [find, occursAt_zero]
    | succ i => simp [find, not_occursAt_nil_succ]
  | cons c s ih =>
    rw [find]
    split_ifs with h
    · have h0 := occursAt_zero.mpr h
      cases i with
      | zero => simp [h0]
      | succ i => simpa using fun _ => ⟨0, by omega, h0⟩
    · have h0 : ¬ OccursAt needle (c :: s) 0 := fun e => h (occursAt_zero.mp e)
      cases i with
      | zero => simp [h0]
      | succ i =>
        rw [Option.map_eq_some_iff, occursAt_succ]
        constructor
        · rintro ⟨k, hk, hki⟩
          obtain rfl : k = i := by omega
          obtain ⟨hocc, hmin⟩ := ih.mp hk
          refine ⟨hocc, fun j hj => ?_⟩
          cases j with
          | zero => exact h0
          | succ j => exact fun e => hmin j (by omega) (occursAt_succ.mp e)
        · rintro ⟨hocc, hmin⟩
          exact ⟨i, ih.mpr ⟨hocc, fun j hj e => hmin (j + 1) (by omega) (occursAt_succ.mpr e)⟩, rfl⟩

theorem rfind_eq_none_iff {needle s : List α} :
    rfind needle s = none ↔ ∀ i, ¬ OccursAt needle s i := by
  induction s with
  | nil =>
    constructor
    · intro h i hi
      obtain ⟨l, r, -, hs⟩ := hi
      simp [rfind, (List.append_eq_nil_iff.mp (List.append_eq_nil_iff.mp hs.symm).2).1] at h
    · intro h
      rw [rfind, if_neg]
      rintro rfl
      exact h 0 (occursAt_zero.mpr (List.prefix_refl _))
  | cons c s ih =>
    rw [rfind]
    constructor
    · intro h i
      cases hs : rfind needle s with
      | some j => simp [hs] at h
      | none =>
        cases i with
        | zero =>
          rw [occursAt_zero]
          intro hp
          simp [hs, hp] at h
        | succ i => exact fun e => ih.mp hs i (occursAt_succ.mp e)
    · intro h
      rw [ih.mpr fun i e => h (i + 1) (occursAt_succ.mpr e)]
      exact if_neg fun hp => h 0 (occursAt_zero.mpr hp)

theorem rfind_eq_some_iff {needle s : List α} {i : ℕ} :
    rfind needle s = some i ↔ OccursAt needle s i ∧ ∀ j, i < j → ¬ OccursAt needle s j := by
  induction s generalizing i with
  | nil =>
    cases i with
    | zero =>
      have hnone : ∀ j, 0 < j → ¬ OccursAt needle ([] : List α) j := by
        intro j hj
        obtain ⟨k, rfl⟩ := Nat.exists_eq_succ_of_ne_zero (Nat.ne_of_gt hj)
        exact not_occursAt_nil_succ
      simpa [rfind, occursAt_zero] using fun _ => hnone
    | succ i => simp [rfind, not_occursAt_nil_succ]
  | cons c s ih =>
    rw [rfind]
    cases hs : rfind needle s with
    | some k =>
      obtain ⟨hocc, hmax⟩ := ih.mp hs
      have hlater : ∀ j, k + 1 < j → ¬ OccursAt needle (c :: s) j := by
        intro j hj
        obtain ⟨j, rfl⟩ := Nat.exists_eq_add_of_lt hj
        exact fun e => hmax (k + 1 + j) (by omega) (occursAt_succ.mp e)
      constructor
      · intro h
        obtain rfl : k + 1 = i := by simpa using h
        exact ⟨occursAt_succ.mpr hocc, hlater⟩
      · rintro ⟨hi, hmaxi⟩
        have hle : ¬ i < k + 1 := fun hlt => hmaxi _ hlt (occursAt_succ.mpr hocc)
        have hge : ¬ k + 1 < i := fun hlt => hlater i hlt hi
        simp only [Option.some.injEq]
        omega
    | none =>
      have hnone := rfind_eq_none_iff.mp hs
      have hlater : ∀ j, 0 < j → ¬ OccursAt needle (c :: s) j := by
        intro j hj
        obtain ⟨j, rfl⟩ := Nat.exists_eq_succ_of_ne_zero (Nat.ne_of_gt hj)
        exact fun e => hnone j (occursAt_succ.mp e)
      cases i with
      | zero => simpa [occursAt_zero] using fun _ => hlater
      | succ i =>
        constructor
        · intro h
          change (if _ then some 0 else none) = _ at h
          split_ifs at h
          cases h
        · rintro ⟨hi, -⟩
          exact absurd hi (hlater _ (by omega))

theorem find_append_self {needle : List α} (hn : needle ≠ []) (r : List α) :
    find needle (needle ++ r) = some 0 := by
  cases needle with
  | nil => exact absurd rfl hn
  | cons b needle =>
    rw [List.cons_append, find, if_pos]
    exact List.prefix_append (b :: needle) r

theorem find_append_cons {needle l : List α} {c : α} (hn : needle ≠ []) (hc : c ∉ needle)
    (hl : ¬ needle <:+: l) (r : List α) :
    find needle (l ++ c :: r) = (find needle r).map (l.length + 1 + ·) := by
  induction l with
  | nil =>
    have hnot : ¬ needle <+: [] ++ c :: r := by
      rw [prefix_append_cons_iff hc]
      simpa using hn
    rw [List.nil_append] at hnot ⊢
    rw [find, if_neg hnot]
    simp [Nat.add_comm]
  | cons d l ih =>
    have hnot : ¬ needle <+: d :: l ++ c :: r := by
      rw [prefix_append_cons_iff hc]
      exact fun h => hl h.isInfix
    have hrest : ¬ needle <:+: l := fun h => hl (List.infix_cons h)
    rw [List.cons_append] at hnot ⊢
    rw [find, if_neg hnot, ih hrest, Option.map_map]
    congr 1
    funext i
    simp only [Function.comp_apply, List.length_cons]
    omega

theorem not_infix_of_find {needle l s : List α} (hn : needle ≠ [])
    (h : find needle (l ++ s) = some l.length) : ¬ needle <:+: l := by
  rintro ⟨a, b, rfl⟩
  have hpos := List.length_pos_iff.mpr hn
  refine (find_eq_some_iff.mp h).2 a.length ?_ ⟨a, b ++ s, rfl, by simp⟩
  simp only [List.length_append]
  omega

theorem find_singleton_append {b : α} {l : List α} (h : b ∉ l) (r : List α) :
    find [b] (l ++ b :: r) = some l.length := by
  rw [find_eq_some_iff]
  refine ⟨⟨l, r, rfl, rfl⟩, fun j hj hocc => ?_⟩
  have hget := hocc.getElem? (k := 0) (by simp)
  rw [Nat.add_zero, List.getElem?_append_left hj] at hget
  exact h (List.mem_of_getElem? hget)

theorem find_singleton_eq_some_iff {b : α} {s : List α} {i : ℕ} :
    find [b] s = some i ↔ ∃ l r, l.length = i ∧ s = l ++ b :: r ∧ b ∉ l := by
  constructor
  · intro h
    obtain ⟨⟨l, r, rfl, rfl⟩, -⟩ := find_eq_some_iff.mp h
    refine ⟨l, r, rfl, rfl, fun hb => ?_⟩
    exact not_infix_of_find (List.cons_ne_nil b []) h ((List.singleton_infix_iff b l).mpr hb)
  · rintro ⟨l, r, rfl, rfl, hb⟩
    exact find_singleton_append hb r

theorem not_infix_of_rfind {needle l r : List α} (hn : needle ≠ [])
    (h : rfind needle (l ++ (needle ++ r)) = some l.length) : ¬ needle <:+: r := by
  rintro ⟨a, b, rfl⟩
  have hpos := List.length_pos_iff.mpr hn
  refine (rfind_eq_some_iff.mp h).2 (l ++ (needle ++ a)).length ?_ ⟨_, b, rfl, by simp⟩
  simp only [List.length_append]
  omega

/-- A needle whose first symbol does not come back in it occurs last where it does
not occur after. -/
theorem rfind_append {a : α} {n r : List α} (ha : a ∉ n) (hr : ¬ a :: n <:+: r) (l : List α) :
    rfind (a :: n) (l ++ (a :: n ++ r)) = some l.length := by
  have hrest : rfind (a :: n) (n ++ r) = none := by
    rw [rfind_eq_none_iff]
    intro i hi
    exact hr ((infix_append_iff_right ha r).mp (infix_iff_occursAt.mpr ⟨i, hi⟩))
  induction l with
  | nil =>
    rw [List.nil_append, List.cons_append, rfind, hrest]
    exact if_pos (List.prefix_append (a :: n) r)
  | cons d l ih =>
    rw [List.cons_append, rfind, ih]
    rfl

end Search

end Lib.Substring
