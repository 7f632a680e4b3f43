import Oems.AlgoEngine
import Oems.BookAgreement

namespace Oems

open Lib OrderManager

theorem defaultVolumeProfile_nonneg (buckets : ℤ) : ∀ w ∈ defaultVolumeProfile buckets, 0 ≤ w := by
  have hraw : ∀ mid : ℚ, ∀ w ∈ (List.range buckets.toNat).map fun i : ℕ =>
      1 + ((i : ℚ) - mid) * (i - mid) / (mid * mid + 1), 0 ≤ w := by
    intro mid w hw
    obtain ⟨i, _, rfl⟩ := List.mem_map.mp hw
    have hx := mul_self_nonneg ((i : ℚ) - mid)
    have hm := mul_self_nonneg mid
    positivity
  intro w hw
  unfold defaultVolumeProfile at hw
  split_ifs at hw
  · simp at hw
  · obtain ⟨v, hv, rfl⟩ := List.mem_map.mp hw
    exact div_nonneg (hraw _ v hv) (List.sum_nonneg (hraw _))

theorem twap_quantities {params : AlgoParams} (hn : 0 < params.numSlices)
    (hq : 0 < params.parent.quantity) (start : ℤ) :
    (generateTwapSlices params start).map (fun s => s.request.quantity) =
      List.replicate (params.numSlices.toNat - 1) (params.parent.quantity.tdiv params.numSlices) ++
        [params.parent.quantity.tdiv params.numSlices +
          params.parent.quantity.tmod params.numSlices] := by
  obtain ⟨k, hk⟩ : ∃ k : ℕ, params.numSlices = k + 1 := ⟨(params.numSlices - 1).toNat, by omega⟩
  have hlast : params.numSlices.toNat = k + 1 := by omega
  have hopen : ¬ (params.numSlices ≤ 0 ∨ params.parent.quantity ≤ 0) := by omega
  rw [generateTwapSlices, if_neg hopen, List.map_map, hlast, List.range_succ, List.map_append,
    Nat.add_sub_cancel, List.map_singleton]
  congr 1
  · rw [List.eq_replicate_iff, List.length_map, List.length_range]
    refine ⟨rfl, fun n hn => ?_⟩
    obtain ⟨i, hi, rfl⟩ := List.mem_map.mp hn
    rw [List.mem_range] at hi
    exact if_neg (by omega)
  · have hi : ((k : ℕ) : ℤ) = params.numSlices - 1 := by omega
    exact congrArg (fun n => [n]) (if_pos hi)

theorem vwapSlices_quantities (params : AlgoParams) (start : ℤ) (profile : List ℚ) (i : ℕ)
    (allocated : ℤ) (hlen : (i : ℤ) + profile.length = params.numSlices) :
    (vwapSlices params start i allocated profile).map (fun s => s.request.quantity) =
      Apportion.apportion (params.parent.quantity - allocated)
        (profile.map fun w => (toDouble params.parent.quantity : ℚ) * w) := by
  induction profile generalizing i allocated with
  | nil => rfl
  | cons w profile ih =>
    cases profile with
    | nil =>
      have hi : ¬ (i : ℤ) < params.numSlices - 1 := by
        simp at hlen
        omega
      rw [vwapSlices, if_neg hi]
      rfl
    | cons w' profile =>
      have hi : (i : ℤ) < params.numSlices - 1 := by
        simp only [List.length_cons] at hlen
        omega
      have hnext := ih (i + 1) (allocated + llround (toDouble params.parent.quantity * w)) (by
        simp only [List.length_cons] at hlen ⊢
        omega)
      rw [vwapSlices, if_pos hi, List.map_cons, hnext, List.map_cons, List.map_cons, List.map_cons,
        Apportion.apportion, ← sub_sub]
      rfl

def AlgoRequest.profile (req : AlgoRequest) : List ℚ :=
  if req.vwapProfile = [] then defaultVolumeProfile req.params.numSlices else req.vwapProfile

/-- The exact shares that the weights of a VWAP request give of the parent quantity, as a
double. A request that `GenerateVwapSlices` refuses has none. -/
def AlgoRequest.vwapShares (req : AlgoRequest) : List ℚ :=
  if req.params.numSlices ≤ 0 ∨ req.params.parent.quantity ≤ 0 ∨
      (req.profile.length : ℤ) ≠ req.params.numSlices ∨ req.profile.sum ≤ 0 then []
  else req.profile.map fun w => toDouble req.params.parent.quantity * (w / req.profile.sum)

/-- The shares before the last with a fraction of a half or more, and what the parent quantity
gains as a double, are made good by the fractions of the shares before the last and the last
share. -/
def AlgoRequest.Fits (req : AlgoRequest) : Prop :=
  req.type = .vwap → ∀ h : req.vwapShares ≠ [],
    Apportion.nearerAbove req.vwapShares +
        (toDouble req.params.parent.quantity - req.params.parent.quantity : ℚ) ≤
      Apportion.fractions req.vwapShares + req.vwapShares.getLast h

/-- No slice is negative, and together they make up the parent quantity. -/
structure Apportioned (parent : ℤ) (slices : List ChildSlice) : Prop where
  nonneg : ∀ s ∈ slices, 0 ≤ s.request.quantity
  sum : slices ≠ [] → (slices.map fun s => s.request.quantity).sum = parent

theorem apportioned_of_quantities {parent : ℤ} {slices : List ChildSlice} {quantities : List ℤ}
    (h : slices.map (fun s => s.request.quantity) = quantities)
    (hsum : quantities ≠ [] → quantities.sum = parent) :
    Apportioned parent slices ↔ ∀ n ∈ quantities, 0 ≤ n := by
  subst h
  constructor
  · intro ha n hn
    obtain ⟨s, hs, rfl⟩ := List.mem_map.mp hn
    exact ha.nonneg s hs
  · intro hall
    exact ⟨fun s hs => hall _ (List.mem_map_of_mem hs), fun hne => hsum (by simpa using hne)⟩

namespace AlgoRequest

variable {req : AlgoRequest}

theorem vwap_quantities (req : AlgoRequest) (start : ℤ) :
    (generateVwapSlices req.params start req.vwapProfile).map (fun s => s.request.quantity) =
      Apportion.apportion req.params.parent.quantity req.vwapShares := by
  have hprofile : (if req.vwapProfile = [] then defaultVolumeProfile req.params.numSlices
      else req.vwapProfile) = req.profile := rfl
  unfold generateVwapSlices vwapShares
  rw [hprofile]
  by_cases hopen : req.params.numSlices ≤ 0 ∨ req.params.parent.quantity ≤ 0
  · rw [if_pos hopen, if_pos (by tauto)]
    rfl
  · by_cases hlen : (req.profile.length : ℤ) ≠ req.params.numSlices
    · rw [if_neg hopen, if_pos hlen, if_pos (by tauto)]
      rfl
    · by_cases hsum : req.profile.sum ≤ 0
      · rw [if_neg hopen, if_neg hlen, if_pos hsum, if_pos (by tauto)]
        rfl
      · rw [if_neg hopen, if_neg hlen, if_neg hsum, if_neg (by tauto), vwapSlices_quantities,
          sub_zero, List.map_map]
        · rfl
        · rw [List.length_map, Nat.cast_zero, zero_add]
          exact not_not.mp hlen

theorem vwapShares_eq (hne : req.vwapShares ≠ []) :
    0 < req.params.numSlices ∧ 0 < req.params.parent.quantity ∧ 0 < req.profile.sum ∧
      req.vwapShares =
        req.profile.map fun w => toDouble req.params.parent.quantity * (w / req.profile.sum) := by
  unfold vwapShares at hne ⊢
  split_ifs at hne ⊢ with hopen
  · exact absurd rfl hne
  · obtain ⟨hn, hq, _, hsum⟩ := by simpa only [not_or] using hopen
    exact ⟨not_le.mp hn, not_le.mp hq, not_le.mp hsum, rfl⟩

theorem profile_nonneg (hw : ∀ w ∈ req.vwapProfile, 0 ≤ w) : ∀ w ∈ req.profile, 0 ≤ w := by
  unfold profile
  split_ifs
  · exact defaultVolumeProfile_nonneg _
  · exact hw

theorem vwapShares_nonneg (hw : ∀ w ∈ req.vwapProfile, 0 ≤ w) : ∀ x ∈ req.vwapShares, 0 ≤ x := by
  intro x hx
  obtain ⟨_, hq, hsum, heq⟩ := vwapShares_eq (List.ne_nil_of_mem hx)
  rw [heq] at hx
  obtain ⟨w, hmem, rfl⟩ := List.mem_map.mp hx
  have hq' : (0 : ℚ) ≤ toDouble req.params.parent.quantity := Int.cast_nonneg (toDouble_nonneg hq)
  exact mul_nonneg hq' (div_nonneg (profile_nonneg hw w hmem) hsum.le)

theorem sum_vwapShares (hne : req.vwapShares ≠ []) :
    req.vwapShares.sum = toDouble req.params.parent.quantity := by
  obtain ⟨_, _, hsum, heq⟩ := vwapShares_eq hne
  have hdiv : (req.profile.map fun w => w / req.profile.sum).sum = 1 := by
    simp only [div_eq_mul_inv]
    rw [List.sum_map_mul_right, List.map_id', mul_inv_cancel₀ hsum.ne']
  rw [heq, List.sum_map_mul_left, hdiv, mul_one]

theorem fits_iff_of_lt (htype : req.type = .vwap) (hq : req.params.parent.quantity < 2 ^ 53) :
    req.Fits ↔ ∀ h : req.vwapShares ≠ [], (Apportion.nearerAbove req.vwapShares : ℚ) ≤
      Apportion.fractions req.vwapShares + req.vwapShares.getLast h := by
  rw [Fits, forall_prop_of_true htype]
  apply forall_congr'
  intro h
  rw [toDouble_of_lt (vwapShares_eq h).2.1 hq, sub_self, add_zero]

/-- The slices of a TWAP are always right, those of a VWAP when its shares fit. -/
theorem apportioned_iff (hw : ∀ w ∈ req.vwapProfile, 0 ≤ w) (start : ℤ) :
    Apportioned req.params.parent.quantity (req.slices start) ↔ req.Fits := by
  unfold slices Fits
  cases htype : req.type with
  | twap =>
    refine iff_of_true ?_ fun h => by cases h
    by_cases hopen : req.params.numSlices ≤ 0 ∨ req.params.parent.quantity ≤ 0
    · dsimp only
      rw [generateTwapSlices, if_pos hopen]
      exact ⟨fun s hs => by simp at hs, fun h => absurd rfl h⟩
    · obtain ⟨hn, hq⟩ := not_or.mp hopen
      rw [not_le] at hn hq
      have hdiv := Int.tdiv_nonneg hq.le hn.le
      have hmod := Int.tmod_nonneg req.params.numSlices hq.le
      refine (apportioned_of_quantities (twap_quantities hn hq start) fun _ => ?_).mpr ?_
      · have hsplit := Int.mul_tdiv_add_tmod req.params.parent.quantity req.params.numSlices
        have hcount : ((req.params.numSlices.toNat - 1 : ℕ) : ℤ) = req.params.numSlices - 1 := by omega
        rw [List.sum_append, List.sum_replicate, List.sum_singleton, nsmul_eq_mul, hcount]
        linarith
      · intro n hn
        obtain hn | hn := List.mem_append.mp hn
        · rw [List.eq_of_mem_replicate hn]
          exact hdiv
        · rw [List.mem_singleton.mp hn]
          omega
  | vwap =>
    dsimp only
    rw [apportioned_of_quantities (vwap_quantities req start)]
    · by_cases hne : req.vwapShares = []
      · rw [hne]
        exact iff_of_true (fun n hn => by simp [Apportion.apportion] at hn) fun _ h => absurd rfl h
      · rw [Apportion.apportion_nonneg_iff hne (vwapShares_nonneg hw),
          Apportion.taken_le_iff hne (vwapShares_nonneg hw), sum_vwapShares hne]
        exact ⟨fun h _ _ => h, fun h => h rfl hne⟩
    · intro hparts
      apply Apportion.sum_apportion
      rintro hnil
      rw [hnil] at hparts
      exact hparts rfl

end AlgoRequest

end Oems
